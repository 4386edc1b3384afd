import DeferredDefaults.Proofs.Token.Quotation

/-!
Lists of lexemes that a text is read as. A list is read back from its own text exactly when every
lexeme is the first one of the text from it onwards, and the lexemes of a text are such a list.
-/

set_option autoImplicit false
set_option relaxedAutoImplicit false

namespace DeferredDefaults.Lexeme

def textOf (lexemes : List Lexeme) : List Char := lexemes.flatMap Lexeme.text

@[simp] theorem textOf_nil : textOf [] = [] := rfl

@[simp] theorem textOf_cons (lexeme : Lexeme) (rest : List Lexeme) :
    textOf (lexeme :: rest) = lexeme.text ++ textOf rest := List.flatMap_cons

@[simp] theorem textOf_append (front back : List Lexeme) :
    textOf (front ++ back) = textOf front ++ textOf back := List.flatMap_append

def Reads : List Lexeme → Prop
  | [] => True
  | lexeme :: rest =>
    lexeme.text ≠ [] ∧ first (lexeme.text ++ textOf rest) = (lexeme.kind, lexeme.text.length) ∧
      Reads rest

theorem split_textOf {lexemes : List Lexeme} (reads : Reads lexemes) :
    split (textOf lexemes) = lexemes := by
  induction lexemes with
  | nil => rfl
  | cons lexeme rest ih =>
    obtain ⟨kind, text⟩ := lexeme
    obtain ⟨nonempty, lead, readsRest⟩ := reads
    obtain ⟨c, more, rfl⟩ := List.exists_cons_of_ne_nil nonempty
    simp only [textOf_cons, List.cons_append] at lead ⊢
    rw [split_cons, lead]
    simp only [List.length_cons, Nat.add_sub_cancel, List.take_left, List.drop_left,
      ih readsRest]

section Bounds

variable (text : List Char)

theorem longTail_le_length {quote : Char} {escaped : Bool} {length : Nat}
    (found : longTail quote escaped text = some length) : length ≤ text.length := by
  fun_induction longTail quote escaped text generalizing length with
  | case1 => cases found
  | case2 c rest ih =>
    obtain ⟨shorter, tail, rfl⟩ := Option.map_eq_some_iff.1 found
    simpa using ih tail
  | case3 rest ih =>
    obtain ⟨shorter, tail, rfl⟩ := Option.map_eq_some_iff.1 found
    simpa using ih tail
  | case4 c rest noEscape closes =>
    cases found
    have within := (List.isPrefixOf_iff_prefix.1 closes).length_le
    simpa using within
  | case5 c rest noEscape open_ ih =>
    obtain ⟨shorter, tail, rfl⟩ := Option.map_eq_some_iff.1 found
    simpa using ih tail

theorem shortTail_le_length {quote : Char} {escaped : Bool} {length : Nat}
    (found : shortTail quote escaped text = some length) : length ≤ text.length := by
  fun_induction shortTail quote escaped text generalizing length with
  | case1 => cases found
  | case2 c rest ih =>
    obtain ⟨shorter, tail, rfl⟩ := Option.map_eq_some_iff.1 found
    simpa using ih tail
  | case3 rest ih =>
    obtain ⟨shorter, tail, rfl⟩ := Option.map_eq_some_iff.1 found
    simpa using ih tail
  | case4 rest =>
    cases found
    simp
  | case5 => cases found
  | case6 c rest noEscape open_ within ih =>
    obtain ⟨shorter, tail, rfl⟩ := Option.map_eq_some_iff.1 found
    simpa using ih tail

private theorem quoted_le_length : quoted text ≤ text.length := by
  cases text with
  | nil => simp [quoted]
  | cons quote rest =>
    simp only [quoted, List.length_cons]
    split
    · split
      · next length long =>
        split at long
        · next tripled =>
          have bound := longTail_le_length _ long
          have size : 3 ≤ (quote :: rest).length := by
            rcases rest with - | ⟨second, - | ⟨third, more⟩⟩
            · cases tripled
            · cases tripled
            · simp
          simp only [List.length_drop, List.length_cons] at bound size
          omega
        · cases long
      · split
        · next length short =>
          have bound := shortTail_le_length _ short
          omega
        · omega
    · omega

private theorem string_le_length : string text ≤ text.length := by
  have letters := lettersLength_le_length text
  have bound := quoted_le_length (text.drop (lettersLength text))
  rw [List.length_drop] at bound
  rw [string_eq]
  split <;> omega

theorem openQuote_le_length : openQuote text ≤ text.length := by
  have letters := lettersLength_le_length text
  unfold openQuote
  split
  · omega
  · next quote rest behind =>
    have size : (text.drop (lettersLength text)).length = rest.length + 1 := by rw [behind]; rfl
    rw [List.length_drop] at size
    split
    · next tripled =>
      have more : 2 ≤ rest.length := by
        match rest with
        | [] | [_] => cases tripled
        | _ :: _ :: _ => simp
      omega
    · split <;> omega

theorem number_le_length : number text ≤ text.length := by
  have radix := radixNumber_le_length text
  unfold number
  split
  · have main := mantissa_le_length text
    have scaled := exponent_le_length (text.drop (mantissa text))
    rw [List.length_drop] at scaled
    rw [decimalNumber_eq]
    split
    · omega
    · unfold imaginary
      split
      · next letter =>
        have some : (text.drop (mantissa text + exponent (text.drop (mantissa text)))).length ≠ 0 := by
          intro none
          rw [List.eq_nil_of_length_eq_zero none] at letter
          cases letter
        rw [List.length_drop] at some
        omega
      · omega
  · omega

theorem name_le_length : name text ≤ text.length := by
  cases text with
  | nil => simp [name]
  | cons c rest =>
    have bound := (List.takeWhile_prefix Text.Identifier.isInner (l := rest)).length_le
    simp only [name, List.length_cons]
    split <;> omega

private theorem operator_le_length : operator text ≤ text.length := by
  unfold operator
  split
  · next op found =>
    have isPrefix := List.find?_some found
    exact (List.isPrefixOf_iff_prefix.1 isPrefix).length_le
  · omega

private theorem lineBreak_le_length : lineBreak text ≤ text.length := by
  unfold lineBreak
  split <;> simp

private theorem continuation_le_length : continuation text ≤ text.length := by
  unfold continuation
  split
  · next rest =>
    have bound := lineBreak_le_length rest
    split
    · omega
    · next length found => simp only [List.length_cons]; omega
  · omega

private theorem comment_le_length : comment text ≤ text.length := by
  unfold comment
  split
  · next rest =>
    have bound := (List.takeWhile_prefix (fun c => !isLineEnd c) (l := rest)).length_le
    simp only [List.length_cons]
    omega
  · omega

private theorem space_le_length : space text ≤ text.length :=
  (List.takeWhile_prefix isSpace).length_le

private theorem first_bounds (nonempty : text ≠ []) :
    1 ≤ (first text).2 ∧ (first text).2 ≤ text.length := by
  have size : 1 ≤ text.length := List.length_pos_iff.2 nonempty
  have rulesBound : ∀ rule ∈ rules, rule.2 text ≤ text.length := by
    simp only [rules, List.forall_mem_cons, List.not_mem_nil, false_imp_iff, implies_true, and_true]
    exact ⟨continuation_le_length text, lineBreak_le_length text, space_le_length text,
      comment_le_length text, string_le_length text, openQuote_le_length text,
      number_le_length text, name_le_length text, operator_le_length text⟩
  unfold first
  split
  · next rule found =>
    have applies := List.find?_some found
    have bound := rulesBound rule (List.mem_of_find?_eq_some found)
    rw [bne_iff_ne] at applies
    simp only
    omega
  · exact ⟨Nat.le_refl 1, size⟩

end Bounds

theorem reads_split (text : List Char) : Reads (split text) := by
  generalize size : text.length = n
  induction n using Nat.strongRecOn generalizing text with
  | ind n ih =>
    cases text with
    | nil => trivial
    | cons c rest =>
      have bounds := first_bounds (c :: rest) (by simp)
      simp only [List.length_cons] at bounds size
      have shorter : (rest.drop ((first (c :: rest)).2 - 1)).length < n := by
        rw [List.length_drop]
        omega
      rw [split_cons]
      refine ⟨by simp, ?_, ih _ shorter _ rfl⟩
      have whole : (c :: rest.take ((first (c :: rest)).2 - 1)) ++
          textOf (split (rest.drop ((first (c :: rest)).2 - 1))) = c :: rest := by
        rw [textOf, flatMap_text_split, List.cons_append, List.take_append_drop]
      rw [whole, List.length_cons, List.length_take]
      rw [Nat.min_eq_left (by omega), Nat.sub_add_cancel bounds.1]

/-- A lexeme that takes part in the layout of a row. -/
def Kind.isLayout : Kind → Bool
  | .continuation | .lineBreak | .space | .comment => true
  | _ => false

theorem first_layout (text : List Char) : first text =
    if continuation text ≠ 0 then (.continuation, continuation text)
    else if lineBreak text ≠ 0 then (.lineBreak, lineBreak text)
    else if space text ≠ 0 then (.space, space text)
    else if comment text ≠ 0 then (.comment, comment text)
    else firstOf (rules.drop 4) text := by
  show firstOf rules text = _
  simp only [rules, firstOf_cons, List.drop_succ_cons, List.drop_zero]

private theorem isLayout_firstOf (text : List Char) :
    (firstOf (rules.drop 4) text).1.isLayout = false := by
  unfold firstOf
  split
  · next rule found =>
    have member := List.mem_of_find?_eq_some found
    simp only [rules, List.drop_succ_cons, List.drop_zero, List.mem_cons, List.not_mem_nil,
      or_false] at member
    rcases member with rfl | rfl | rfl | rfl | rfl <;> rfl
  · rfl

theorem first_cases {text : List Char} {kind : Kind} {length : Nat}
    (read : first text = (kind, length)) :
    (kind = .continuation ∧ continuation text = length) ∨
    (kind = .lineBreak ∧ lineBreak text = length) ∨
    (kind = .space ∧ space text = length) ∨
    (kind = .comment ∧ comment text = length) ∨
    (kind.isLayout = false ∧ IsCode text) := by
  rw [first_layout] at read
  split at read
  · cases read
    exact .inl ⟨rfl, rfl⟩
  · next noContinuation =>
    split at read
    · cases read
      exact .inr (.inl ⟨rfl, rfl⟩)
    · next noBreak =>
      split at read
      · cases read
        exact .inr (.inr (.inl ⟨rfl, rfl⟩))
      · next noSpace =>
        split at read
        · cases read
          exact .inr (.inr (.inr (.inl ⟨rfl, rfl⟩)))
        · next noComment =>
          have code := isLayout_firstOf text
          rw [read] at code
          simp only [ne_eq, Decidable.not_not] at noContinuation noBreak noSpace noComment
          exact .inr (.inr (.inr (.inr ⟨code, noContinuation, noBreak, noSpace, noComment⟩)))

def breaks : List (List Char) := [['\r', '\n'], ['\r'], ['\n']]

theorem lineBreak_eq_zero_iff (text : List Char) :
    lineBreak text = 0 ↔ text.head?.any isLineEnd = false := by
  unfold lineBreak
  split
  · simp [isLineEnd]
  · simp [isLineEnd]
  · simp [isLineEnd]
  · next noPair noReturn noFeed =>
    cases text with
    | nil => simp
    | cons c rest =>
      have noReturn' : c ≠ '\r' := by
        rintro rfl
        exact noReturn rest rfl
      have noFeed' : c ≠ '\n' := by
        rintro rfl
        exact noFeed rest rfl
      simp [isLineEnd, noReturn', noFeed']

/-- A line break is one of three texts, and a carriage return takes a line feed along. -/
private theorem lineBreak_append_iff {text rest : List Char} (nonempty : text ≠ []) :
    lineBreak (text ++ rest) = text.length ↔
      text ∈ breaks ∧ (text = ['\r'] → rest.head? ≠ some '\n') := by
  match text with
  | [] => exact absurd rfl nonempty
  | [c] =>
    by_cases feed : c = '\n'
    · subst feed
      simp [lineBreak, breaks]
    · by_cases return_ : c = '\r'
      · subst return_
        cases rest with
        | nil => simp [lineBreak, breaks]
        | cons d more =>
          by_cases pair : d = '\n'
          · subst pair
            simp [lineBreak, breaks]
          · have alone : lineBreak ('\r' :: d :: more) = 1 := by
              unfold lineBreak
              split
              · next heads => exact absurd (List.cons.inj (List.cons.inj heads).2).1 pair
              · rfl
              · rfl
              · next noReturn _ => exact absurd rfl (noReturn (d :: more))
            simp [alone, breaks, pair]
      · have none : lineBreak ([c] ++ rest) = 0 := by
          rw [lineBreak_eq_zero_iff]
          simp [isLineEnd, feed, return_]
        rw [none]
        simp [breaks, feed, return_]
  | c :: d :: more =>
    by_cases pair : c = '\r' ∧ d = '\n'
    · obtain ⟨rfl, rfl⟩ := pair
      simp [lineBreak, breaks, eq_comm]
    · have short : lineBreak (c :: d :: (more ++ rest)) ≤ 1 := by
        unfold lineBreak
        split
        · next heads =>
          have heads' := List.cons.inj heads
          exact absurd ⟨heads'.1, (List.cons.inj heads'.2).1⟩ pair
        · omega
        · omega
        · omega
      have notBreak : c :: d :: more ∉ breaks := by
        simp only [breaks, List.mem_cons, List.not_mem_nil, or_false, List.cons.injEq, not_or]
        refine ⟨fun same => pair ⟨same.1, same.2.1⟩, by simp, by simp⟩
      simp only [List.cons_append, List.length_cons, notBreak, false_and, iff_false]
      omega

theorem continuation_of_ne {c : Char} (different : c ≠ '\\') (rest : List Char) :
    continuation (c :: rest) = 0 := by
  unfold continuation
  split
  · next heads => exact absurd (List.cons.inj heads).1 different
  · rfl

theorem comment_of_ne {c : Char} (different : c ≠ '#') (rest : List Char) :
    comment (c :: rest) = 0 := by
  unfold comment
  split
  · next heads => exact absurd (List.cons.inj heads).1 different
  · rfl

/-- A run that ends where it should holds the front and not what follows. -/
theorem length_takeWhile_append_iff {holds : Char → Bool} {text rest : List Char} :
    ((text ++ rest).takeWhile holds).length = text.length ↔
      text.all holds = true ∧ rest.head?.any holds = false := by
  induction text with
  | nil =>
    cases rest with
    | nil => simp
    | cons c others => cases held : holds c <;> simp [held]
  | cons c more ih =>
    cases held : holds c with
    | true =>
      rw [List.cons_append, List.takeWhile_cons, if_pos held, List.length_cons, List.length_cons,
        Nat.add_right_cancel_iff, ih, List.all_cons, held, Bool.true_and]
    | false => simp [held]

section Layout

variable {text rest : List Char} (nonempty : text ≠ [])
include nonempty

theorem first_lineBreak_iff : first (text ++ rest) = (.lineBreak, text.length) ↔
    text ∈ breaks ∧ (text = ['\r'] → rest.head? ≠ some '\n') := by
  rw [← lineBreak_append_iff nonempty]
  constructor
  · intro read
    rcases first_cases read with h | h | h | h | h
    · cases h.1
    · exact h.2
    · cases h.1
    · cases h.1
    · cases h.1
  · intro found
    have member := ((lineBreak_append_iff nonempty).1 found).1
    have noContinuation : continuation (text ++ rest) = 0 := by
      simp only [breaks, List.mem_cons, List.not_mem_nil, or_false] at member
      rcases member with rfl | rfl | rfl <;> exact continuation_of_ne (by decide) _
    have some : lineBreak (text ++ rest) ≠ 0 := by
      rw [found]
      simpa using nonempty
    rw [first_layout, if_neg (by simp [noContinuation]), if_pos some, found]

theorem first_space_iff : first (text ++ rest) = (.space, text.length) ↔
    text.all isSpace = true ∧ rest.head?.any isSpace = false := by
  rw [← length_takeWhile_append_iff]
  constructor
  · intro read
    rcases first_cases read with h | h | h | h | h
    · cases h.1
    · cases h.1
    · exact h.2
    · cases h.1
    · cases h.1
  · intro found
    have allSpace := (length_takeWhile_append_iff.1 found).1
    obtain ⟨c, more, rfl⟩ := List.exists_cons_of_ne_nil nonempty
    have isSpace : isSpace c = true := by
      rw [List.all_cons, Bool.and_eq_true] at allSpace
      exact allSpace.1
    have noContinuation : continuation (c :: more ++ rest) = 0 := by
      apply continuation_of_ne
      rintro rfl
      cases isSpace
    have noBreak : lineBreak (c :: more ++ rest) = 0 := by
      rw [lineBreak_eq_zero_iff]
      simp only [Lexeme.isSpace, Bool.or_eq_true, beq_iff_eq] at isSpace
      rcases isSpace with (rfl | rfl) | rfl <;> rfl
    have length : space (c :: more ++ rest) = (c :: more).length := found
    rw [first_layout, noContinuation, noBreak, length]
    rfl

theorem first_comment_iff : first (text ++ rest) = (.comment, text.length) ↔
    text.head? = some '#' ∧ (text.all fun c => !isLineEnd c) = true ∧
      rest.head?.any (fun c => !isLineEnd c) = false := by
  obtain ⟨c, more, rfl⟩ := List.exists_cons_of_ne_nil nonempty
  by_cases hash : c = '#'
  · subst hash
    have whole : comment ('#' :: more ++ rest) = ('#' :: more).length ↔
        (more.all fun c => !isLineEnd c) = true ∧
          rest.head?.any (fun c => !isLineEnd c) = false := by
      rw [← length_takeWhile_append_iff, List.cons_append, comment, List.length_cons]
      omega
    have same : (('#' :: more).all fun c => !isLineEnd c) = more.all fun c => !isLineEnd c := rfl
    rw [same, ← whole, List.head?_cons, and_iff_right rfl]
    constructor
    · intro read
      rcases first_cases read with h | h | h | h | h
      · cases h.1
      · cases h.1
      · cases h.1
      · exact h.2
      · cases h.1
    · intro found
      have noContinuation : continuation ('#' :: more ++ rest) = 0 :=
        continuation_of_ne (by decide) _
      have noBreak : lineBreak ('#' :: more ++ rest) = 0 := rfl
      have noSpace : space ('#' :: more ++ rest) = 0 := rfl
      rw [first_layout, noContinuation, noBreak, noSpace, found]
      rfl
  · constructor
    · intro read
      rcases first_cases read with h | h | h | h | h
      · cases h.1
      · cases h.1
      · cases h.1
      · rw [List.cons_append, comment_of_ne hash] at h
        cases h.2
      · cases h.1
    · intro shape
      exact absurd (Option.some.inj shape.1) hash

end Layout

theorem first_continuation_iff {text rest : List Char} :
    first ('\\' :: text ++ rest) = (.continuation, text.length + 1) ↔
      text ∈ breaks ∧ (text = ['\r'] → rest.head? ≠ some '\n') := by
  have whole : continuation ('\\' :: (text ++ rest)) = text.length + 1 ↔
      text ≠ [] ∧ lineBreak (text ++ rest) = text.length := by
    rw [continuation, ← List.length_pos_iff]
    split <;> omega
  have shape : text ≠ [] ∧ lineBreak (text ++ rest) = text.length ↔
      text ∈ breaks ∧ (text = ['\r'] → rest.head? ≠ some '\n') := by
    constructor
    · rintro ⟨nonempty, found⟩
      exact (lineBreak_append_iff nonempty).1 found
    · rintro ⟨member, alone⟩
      have nonempty : text ≠ [] := by
        rintro rfl
        simp [breaks] at member
      exact ⟨nonempty, (lineBreak_append_iff nonempty).2 ⟨member, alone⟩⟩
  rw [← shape, ← whole]
  constructor
  · intro read
    rcases first_cases read with h | h | h | h | h
    · exact h.2
    · cases h.1
    · cases h.1
    · cases h.1
    · cases h.1
  · intro found
    rw [List.cons_append, first_layout, found]
    rfl

theorem isCode_cons_iff (c : Char) (rest : List Char) : IsCode (c :: rest) ↔
    isSpace c = false ∧ isLineEnd c = false ∧ c ≠ '#' ∧
      (c = '\\' → rest.head?.any isLineEnd = false) := by
  have spaceHead : space (c :: rest) = 0 ↔ isSpace c = false := by
    cases held : isSpace c <;> simp [space, held]
  have breakHead : lineBreak (c :: rest) = 0 ↔ isLineEnd c = false := by
    rw [lineBreak_eq_zero_iff, List.head?_cons, Option.any_some]
  have commentHead : comment (c :: rest) = 0 ↔ c ≠ '#' := by
    constructor
    · rintro none rfl
      rw [comment] at none
      omega
    · intro different
      exact comment_of_ne different rest
  have continuationHead : continuation (c :: rest) = 0 ↔
      (c = '\\' → rest.head?.any isLineEnd = false) := by
    rw [← lineBreak_eq_zero_iff]
    constructor
    · rintro none rfl
      rw [continuation] at none
      split at none
      · next noBreak => exact noBreak
      · omega
    · intro noBreak
      by_cases backslash : c = '\\'
      · subst backslash
        rw [continuation, noBreak rfl]
      · exact continuation_of_ne backslash rest
  constructor
  · intro code
    exact ⟨spaceHead.1 code.space, breakHead.1 code.lineBreak, commentHead.1 code.comment,
      continuationHead.1 code.continuation⟩
  · rintro ⟨noSpace, noBreak, noComment, noContinuation⟩
    exact ⟨continuationHead.2 noContinuation, breakHead.2 noBreak, spaceHead.2 noSpace,
      commentHead.2 noComment⟩

/-- Whether a text begins with code shows in its front, save that a line break behind a single
backslash continues the row. -/
theorem isCode_append {text rest rest' : List Char} (nonempty : text ≠ [])
    (lineEnd : rest.head?.any isLineEnd = rest'.head?.any isLineEnd)
    (code : IsCode (text ++ rest)) : IsCode (text ++ rest') := by
  obtain ⟨c, more, rfl⟩ := List.exists_cons_of_ne_nil nonempty
  rw [List.cons_append, isCode_cons_iff] at code ⊢
  refine ⟨code.1, code.2.1, code.2.2.1, fun backslash => ?_⟩
  have behind := code.2.2.2 backslash
  cases more with
  | nil =>
    rw [List.nil_append] at behind ⊢
    rw [← lineEnd, behind]
  | cons d others => exact behind

end DeferredDefaults.Lexeme
