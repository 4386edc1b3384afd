import DeferredDefaults.Proofs.Token.Lookahead

/-!
Strings and what follows them. A string that is closed is read the same whatever comes behind it.
The one exception is an empty string with a third quote behind it: the three quotes open a long
string if that is closed anywhere in the rest of the text.
-/

set_option autoImplicit false
set_option relaxedAutoImplicit false

namespace DeferredDefaults.Lexeme

variable {quote : Char} {escaped : Bool} {text rest rest' : List Char}

private theorem three_le_of_longTail {length : Nat}
    (found : longTail quote escaped text = some length) :
    3 ≤ length := by
  fun_induction longTail quote escaped text generalizing length with
  | case1 => cases found
  | case2 c rest ih =>
    obtain ⟨shorter, tail, rfl⟩ := Option.map_eq_some_iff.1 found
    have bound := ih tail
    omega
  | case3 rest ih =>
    obtain ⟨shorter, tail, rfl⟩ := Option.map_eq_some_iff.1 found
    have bound := ih tail
    omega
  | case4 c rest noEscape closes =>
    cases found
    omega
  | case5 c rest noEscape open_ ih =>
    obtain ⟨shorter, tail, rfl⟩ := Option.map_eq_some_iff.1 found
    have bound := ih tail
    omega

theorem isPrefixOf_append_of_length_le {front text : List Char}
    (within : front.length ≤ text.length) (rest : List Char) :
    front.isPrefixOf (text ++ rest) = front.isPrefixOf text := by
  induction front generalizing text with
  | nil => simp
  | cons x more ih =>
    cases text with
    | nil => simp at within
    | cons c others =>
      rw [List.cons_append, List.isPrefixOf, List.isPrefixOf, ih (by simpa using within)]

private theorem longTail_append (found : longTail quote escaped (text ++ rest) = some text.length) :
    longTail quote escaped (text ++ rest') = some text.length := by
  induction text generalizing escaped with
  | nil =>
    have bound := three_le_of_longTail found
    simp at bound
  | cons c more ih =>
    have deeper : ∀ {next : Bool},
        (longTail quote next (more ++ rest)).map (· + 1) = some (c :: more).length →
        (longTail quote next (more ++ rest')).map (· + 1) = some (c :: more).length := by
      intro next mapped
      obtain ⟨length, tail, size⟩ := Option.map_eq_some_iff.1 mapped
      have same : length = more.length := by simpa using size
      subst same
      rw [ih tail]
      rfl
    have size : [quote, quote, quote].length ≤ (c :: more).length := three_le_of_longTail found
    cases escaped with
    | true => exact deeper found
    | false =>
      simp only [List.cons_append, longTail] at found ⊢
      rw [← List.cons_append, isPrefixOf_append_of_length_le size] at found ⊢
      by_cases escape : c = '\\'
      · rw [if_pos escape] at found ⊢
        exact deeper found
      · rw [if_neg escape] at found ⊢
        by_cases closes : [quote, quote, quote].isPrefixOf (c :: more) = true
        · rw [if_pos closes] at found ⊢
          exact found
        · rw [if_neg closes] at found ⊢
          exact deeper found

private theorem one_le_of_shortTail {length : Nat}
    (found : shortTail quote escaped text = some length) :
    1 ≤ length := by
  have mapped : ∀ {tail : Option Nat}, tail.map (· + 1) = some length → 1 ≤ length := by
    intro tail mapped
    obtain ⟨shorter, _, rfl⟩ := Option.map_eq_some_iff.1 mapped
    omega
  unfold shortTail at found
  split at found
  · cases found
  · exact mapped found
  · split at found
    · exact mapped found
    · split at found
      · cases found
        omega
      · split at found
        · cases found
        · exact mapped found

private theorem eq_quote_of_shortTail {c : Char}
    (found : shortTail quote false (c :: rest) = some 1) :
    c = quote := by
  have impossible : ∀ {next : Bool}, (shortTail quote next rest).map (· + 1) = some 1 → False := by
    intro next mapped
    obtain ⟨length, tail, size⟩ := Option.map_eq_some_iff.1 mapped
    have bound := one_le_of_shortTail tail
    omega
  rw [shortTail] at found
  split at found
  · exact absurd found impossible
  · split at found
    · next closes => exact closes
    · split at found
      · cases found
      · exact absurd found impossible

private theorem shortTail_append
    (found : shortTail quote escaped (text ++ rest) = some text.length) :
    shortTail quote escaped (text ++ rest') = some text.length := by
  induction text generalizing escaped with
  | nil =>
    have bound := one_le_of_shortTail found
    simp at bound
  | cons c more ih =>
    have deeper : ∀ {next : Bool},
        (shortTail quote next (more ++ rest)).map (· + 1) = some (c :: more).length →
        (shortTail quote next (more ++ rest')).map (· + 1) = some (c :: more).length := by
      intro next mapped
      obtain ⟨length, tail, size⟩ := Option.map_eq_some_iff.1 mapped
      have same : length = more.length := by simpa using size
      subst same
      rw [ih tail]
      rfl
    cases escaped with
    | true => exact deeper found
    | false =>
      simp only [List.cons_append, shortTail] at found ⊢
      split
      · next escape =>
        rw [if_pos escape] at found
        exact deeper found
      · next noEscape =>
        rw [if_neg noEscape] at found
        split
        · next closes =>
          rw [if_pos closes] at found
          exact found
        · next open_ =>
          rw [if_neg open_] at found
          split
          · next ends =>
            rw [if_pos ends] at found
            cases found
          · next within =>
            rw [if_neg within] at found
            exact deeper found

private theorem isTripled_pair (isQuote : isQuote quote = true) (rest : List Char) :
    isTripled (quote :: quote :: rest) = true ↔ rest.head? = some quote := by
  cases rest with
  | nil => simp [isTripled]
  | cons c others =>
    simp only [isTripled, isQuote, beq_self_eq_true, Bool.true_and, beq_iff_eq, List.head?_cons,
      Option.some.injEq]
    exact eq_comm

theorem ne_backslash_of_isQuote (isQuote : isQuote quote = true) : quote ≠ '\\' := by
  rintro rfl
  cases isQuote

theorem shortTail_quote (isQuote : isQuote quote = true) (rest : List Char) :
    shortTail quote false (quote :: rest) = some 1 := by
  rw [shortTail, if_neg (ne_backslash_of_isQuote isQuote), if_pos rfl]

theorem quoted_of_not_isTripled (isQuote : isQuote quote = true)
    (plain : isTripled (quote :: text) = false) :
    quoted (quote :: text) = ((shortTail quote false text).map (· + 1)).getD 0 := by
  simp only [quoted, isQuote, plain, if_true, if_false, Bool.false_eq_true]
  cases shortTail quote false text <;> rfl

theorem quoted_tripled (isQuote : isQuote quote = true) (text : List Char) :
    quoted (quote :: quote :: quote :: text) =
      ((longTail quote false text).map (· + 3)).getD 2 := by
  have tripled : isTripled (quote :: quote :: quote :: text) = true := by
    simp [isTripled, isQuote]
  simp only [quoted, isQuote, tripled, if_true, List.drop_succ_cons, List.drop_zero,
    shortTail_quote isQuote]
  cases longTail quote false text <;> rfl

/-- A quoted text is read the same before any rest with the same first quote, unless three quotes
that are not closed in one rest are closed in the other. -/
private theorem quoted_append (nonempty : text ≠ [])
    (heads : ∀ quote, isQuote quote = true →
      (rest.head? = some quote ↔ rest'.head? = some quote))
    (unclosed : ∀ quote, isQuote quote = true →
      longTail quote true rest = none → longTail quote true rest' = none)
    (found : quoted (text ++ rest) = text.length) : quoted (text ++ rest') = text.length := by
  obtain ⟨quote, more, rfl⟩ := List.exists_cons_of_ne_nil nonempty
  have isQuote : isQuote quote = true := by
    rw [← Bool.not_eq_false]
    intro plain
    simp [quoted, plain] at found
  rw [List.cons_append] at found ⊢
  cases tripled : isTripled (quote :: (more ++ rest)) with
  | false =>
    rw [quoted_of_not_isTripled isQuote tripled] at found
    cases short : shortTail quote false (more ++ rest) with
    | none =>
      rw [short] at found
      simp at found
    | some length =>
      have same : length = more.length := by simpa [short] using found
      subst same
      have tripled' : isTripled (quote :: (more ++ rest')) = false := by
        rcases more with - | ⟨c, - | ⟨b, others⟩⟩
        · have bound := one_le_of_shortTail short
          simp at bound
        · have closes := eq_quote_of_shortTail short
          subst closes
          rw [← Bool.not_eq_true, List.singleton_append, isTripled_pair isQuote] at tripled ⊢
          rw [← heads c isQuote]
          exact tripled
        · exact tripled
      rw [quoted_of_not_isTripled isQuote tripled', shortTail_append short]
      rfl
  | true =>
    rcases more with - | ⟨c, - | ⟨b, others⟩⟩
    · rcases rest with - | ⟨a, - | ⟨b, tail⟩⟩
      · cases tripled
      · cases tripled
      · simp only [isTripled, List.nil_append, Bool.and_eq_true, beq_iff_eq] at tripled
        obtain ⟨⟨_, rfl⟩, rfl⟩ := tripled
        rw [List.nil_append, quoted_tripled isQuote] at found
        cases long : longTail quote false tail <;> simp [long] at found
    · rcases rest with - | ⟨b, tail⟩
      · cases tripled
      · simp only [isTripled, List.singleton_append, Bool.and_eq_true, beq_iff_eq] at tripled
        obtain ⟨⟨_, rfl⟩, rfl⟩ := tripled
        have open_ : longTail quote true (quote :: tail) = none := by
          rw [List.singleton_append, quoted_tripled isQuote] at found
          rw [longTail]
          cases long : longTail quote false tail with
          | none => rfl
          | some length => simp [long] at found
        obtain ⟨tail', rfl⟩ : ∃ tail', rest' = quote :: tail' :=
          List.head?_eq_some_iff.1 ((heads quote isQuote).1 rfl)
        have open_' := unclosed quote isQuote open_
        rw [longTail, Option.map_eq_none_iff] at open_'
        rw [List.singleton_append, quoted_tripled isQuote, open_']
        rfl
    · simp only [isTripled, List.cons_append, Bool.and_eq_true, beq_iff_eq] at tripled
      obtain ⟨⟨_, rfl⟩, rfl⟩ := tripled
      rw [List.cons_append, List.cons_append, quoted_tripled isQuote] at found ⊢
      cases long : longTail quote false (others ++ rest) with
      | none => simp [long] at found
      | some length =>
        have same : length = others.length := by simpa [long] using found
        subst same
        rw [longTail_append long]
        rfl

theorem lettersLength_append (long : 2 ≤ text.length) (rest : List Char) :
    lettersLength (text ++ rest) = lettersLength text := by
  match text with
  | [] | [_] => simp at long
  | _ :: _ :: _ => rfl

/-- The quotes of a string and what they hold take at least two characters. -/
theorem two_le_of_quoted (found : quoted text ≠ 0) : 2 ≤ quoted text := by
  cases text with
  | nil => exact absurd rfl found
  | cons quote more =>
    have isQuote : isQuote quote = true := by
      rw [← Bool.not_eq_false]
      intro plain
      simp [quoted, plain] at found
    simp only [quoted, isQuote, if_true] at found ⊢
    split
    · omega
    · next open_ =>
      simp only [open_] at found
      cases short : shortTail quote false more with
      | none => simp [short] at found
      | some length =>
        have bound := one_le_of_shortTail short
        simp only
        omega

theorem string_eq (text : List Char) : string text =
    if quoted (text.drop (lettersLength text)) = 0 then 0
    else lettersLength text + quoted (text.drop (lettersLength text)) := by
  unfold string
  split
  · next none => rw [if_pos none]
  · next length some =>
    rw [if_neg (by omega), some]
    omega

/-- A string is read the same before any rest with the same ink, unless three quotes that are not
closed in one rest are closed in the other. -/
theorem string_append (nonempty : text ≠ []) (same : ink rest = ink rest')
    (unclosed : ∀ quote, isQuote quote = true →
      longTail quote true rest = none → longTail quote true rest' = none)
    (found : string (text ++ rest) = text.length) : string (text ++ rest') = text.length := by
  have size : text.length ≠ 0 := by simpa using nonempty
  have whole := string_eq (text ++ rest)
  have quotes : quoted ((text ++ rest).drop (lettersLength (text ++ rest))) ≠ 0 := by
    intro none
    rw [if_pos none] at whole
    omega
  have bound := two_le_of_quoted quotes
  rw [if_neg quotes, found] at whole
  have long : 2 ≤ text.length := by omega
  rw [lettersLength_append long] at whole bound quotes
  have within : lettersLength text ≤ text.length := lettersLength_le_length text
  rw [List.drop_append_of_le_length within] at whole bound quotes
  have heads : ∀ quote, isQuote quote = true →
      (rest.head? = some quote ↔ rest'.head? = some quote) := by
    intro quote isQuote
    exact head?_congr same (isEdge_of_isQuote isQuote)
  have inner : quoted (text.drop (lettersLength text) ++ rest) =
      (text.drop (lettersLength text)).length := by
    rw [List.length_drop]
    omega
  have some : text.drop (lettersLength text) ≠ [] := by
    intro none
    rw [none] at inner
    exact quotes (by rw [none]; exact inner)
  have kept := quoted_append some heads unclosed inner
  rw [string_eq, lettersLength_append long, List.drop_append_of_le_length within, kept,
    List.length_drop]
  rw [if_neg (by omega)]
  omega

end DeferredDefaults.Lexeme
