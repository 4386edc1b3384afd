import DeferredDefaults.Proofs.Token.Yield

/-!
Texts that have been revised. What stands in front of a text sees of it only the ink, whether its
row ends, and whether three quotes are closed in it; a revised text keeps these, as far as what
stands in front of it looks. Gaps may change, text without quotes may be put in or left out, and a
lexeme in front of a revised text is read as before.
-/

set_option autoImplicit false
set_option relaxedAutoImplicit false

namespace DeferredDefaults.Lexeme

inductive Front where
  /-- A lexeme on the same row. -/
  | lexeme
  /-- An `=` or a `:`, behind which only another `=` matters. -/
  | single
  /-- Nothing that looks at the text. -/
  | free
deriving DecidableEq

/-- The new text looks like the old one from the front. -/
structure Revised (front : Front) (old new : List Char) : Prop where
  ink : front = .lexeme → ink old = ink new
  ends : front = .lexeme → old.head?.all isLineEnd = true → new.head?.all isLineEnd = true
  single : front = .single → new.head? ≠ some '='
  quiet : ∀ quote, isQuote quote = true →
    longTail quote false old = none → longTail quote false new = none
  escaped : front = .lexeme → ∀ quote, isQuote quote = true →
    longTail quote true old = none → longTail quote true new = none

def Bounded : List Char → Prop
  | [] => True
  | c :: rest => isEdge c = true ∧ (c = '\\' → rest.head? = some '\n')

private theorem Bounded.ink {text : List Char} (bounded : Bounded text) : ink text = [] := by
  cases text with
  | nil => rfl
  | cons c rest => exact ink_of_isEdge bounded.1 rest

theorem bounded_cons {c : Char} (edge : isEdge c = true) (noBackslash : c ≠ '\\')
    (rest : List Char) : Bounded (c :: rest) :=
  ⟨edge, fun backslash => absurd backslash noBackslash⟩

theorem bounded_of_ends {text : List Char} (ends : text.head?.all isLineEnd = true) :
    Bounded text := by
  cases text with
  | nil => trivial
  | cons c rest =>
    rw [List.head?_cons, Option.all_some] at ends
    refine bounded_cons (isEdge_of_isBlank (by simp [isBlank, ends])) ?_ rest
    rintro rfl
    cases ends

theorem ends_of_mem_breaks {text : List Char} (member : text ∈ breaks) (rest : List Char) :
    (text ++ rest).head?.all isLineEnd = true := by
  simp only [breaks, List.mem_cons, List.not_mem_nil, or_false] at member
  rcases member with rfl | rfl | rfl <;> rfl

theorem Spacing.bounded {gap rest : List Char} (spacing : Spacing gap)
    (behind : gap = [] → Bounded rest) : Bounded (gap ++ rest) := by
  cases spacing with
  | nil => exact behind rfl
  | @space c others isSpace _ =>
    refine bounded_cons (by simp [isEdge, isBlank, isSpace]) ?_ _
    rintro rfl
    cases isSpace
  | continuation _ => exact ⟨rfl, fun _ => rfl⟩

theorem Spacing.noEquals {gap rest : List Char} (spacing : Spacing gap)
    (behind : rest.head? ≠ some '=') : (gap ++ rest).head? ≠ some '=' := by
  by_cases none : gap = []
  · rwa [none]
  · obtain ⟨c, more, split, blank, _⟩ := spacing.head none rest
    rw [split]
    rintro ⟨⟩
    cases blank

private theorem longTail_spacing {quote : Char} (isQuote : isQuote quote = true) {escaped : Bool}
    {gap : List Char} (spacing : Spacing gap) (nonempty : gap ≠ []) (rest : List Char) :
    longTail quote escaped (gap ++ rest) = none ↔ longTail quote false rest = none := by
  obtain ⟨pad, isPad, rfl⟩ := spacing.pad
  refine longTail_gap isQuote isPad.isGap ?_ rest
  rintro rfl
  exact nonempty rfl

private theorem Bounded.longTail {quote : Char} (isQuote : isQuote quote = true) {text : List Char}
    (bounded : Bounded text) :
    longTail quote true text = none ↔ longTail quote false text = none := by
  cases text with
  | nil => exact Iff.rfl
  | cons c rest =>
    obtain ⟨edge, continues⟩ := bounded
    by_cases backslash : c = '\\'
    · obtain ⟨others, rfl⟩ := List.head?_eq_some_iff.1 (continues backslash)
      subst backslash
      have spacing : Spacing ['\\', '\n'] := .continuation .nil
      exact (longTail_spacing isQuote spacing (by simp) others).trans
        (longTail_spacing isQuote spacing (by simp) others).symm
    · have noQuote : Lexeme.isQuote c = false := by
        rw [← Bool.not_eq_true]
        intro isQuote
        rw [isEdge_of_isQuote isQuote] at edge
        cases edge
      rw [longTail_cons isQuote noQuote backslash, longTail_cons isQuote noQuote backslash]

namespace Revised

variable {front : Front} {old new gap gap' text : List Char} {kind : Kind}

theorem toSingle (revised : Revised front old new) (noEquals : new.head? ≠ some '=') :
    Revised .single old new :=
  ⟨nofun, nofun, fun _ => noEquals, revised.quiet, nofun⟩

theorem gaps (spacing : Spacing gap) (spacing' : Spacing gap') (revised : Revised front old new) :
    Revised .free (gap ++ old) (gap' ++ new) := by
  refine ⟨nofun, nofun, nofun, fun quote isQuote unclosed => ?_, nofun⟩
  have inner : Lexeme.longTail quote false new = none := by
    apply revised.quiet quote isQuote
    by_cases none : gap = []
    · rwa [none] at unclosed
    · rwa [longTail_spacing isQuote spacing none] at unclosed
  by_cases none : gap' = []
  · rwa [none]
  · rwa [longTail_spacing isQuote spacing' none]

theorem spaced (spacing : Spacing gap) (revised : Revised .lexeme old new) :
    Revised .lexeme (gap ++ old) (gap ++ new) := by
  by_cases none : gap = []
  · rwa [none]
  · obtain ⟨c, more, split, blank, lineEnd⟩ := spacing.head none old
    obtain ⟨c', more', split', blank', _⟩ := spacing.head none new
    refine ⟨fun _ => ?_, fun _ ends => ?_, nofun, (revised.gaps spacing spacing).quiet,
      fun _ quote isQuote unclosed => ?_⟩
    · rw [split, split', ink_of_isBlank blank, ink_of_isBlank blank']
    · rw [split, List.head?_cons, Option.all_some, lineEnd] at ends
      cases ends
    · rw [longTail_spacing isQuote spacing none] at unclosed ⊢
      exact revised.quiet quote isQuote unclosed

/-- Text that neither quotes nor escapes may be put in or left out where nothing looks at it. -/
theorem plain {added dropped : List Char}
    (isAdded : ∀ c ∈ added, isQuote c = false ∧ c ≠ '\\')
    (isDropped : ∀ c ∈ dropped, isQuote c = false ∧ c ≠ '\\') (revised : Revised front old new) :
    Revised .free (dropped ++ old) (added ++ new) := by
  refine ⟨nofun, nofun, nofun, fun quote isQuote unclosed => ?_, nofun⟩
  rw [longTail_plain isQuote isDropped] at unclosed
  rw [longTail_plain isQuote isAdded]
  exact revised.quiet quote isQuote unclosed

theorem bounded (revised : Revised front old new) (isOld : Bounded old) (isNew : Bounded new)
    (goesOn : old.head?.all isLineEnd = true → new.head?.all isLineEnd = true) :
    Revised .lexeme old new := by
  refine ⟨fun _ => by rw [isOld.ink, isNew.ink], fun _ => goesOn, nofun, revised.quiet,
    fun _ quote isQuote unclosed => ?_⟩
  rw [isNew.longTail isQuote]
  exact revised.quiet quote isQuote ((isOld.longTail isQuote).1 unclosed)

theorem comma (spacing : Spacing gap) (revised : Revised .lexeme old new) (isOld : Bounded old) :
    Revised .lexeme (gap ++ ',' :: old) new := by
  have bounds : Bounded (gap ++ ',' :: old) :=
    spacing.bounded fun _ => bounded_cons rfl (by decide) old
  have opens : ∀ quote, isQuote quote = true → ∀ escaped,
      Lexeme.longTail quote escaped (gap ++ ',' :: old) = none →
      Lexeme.longTail quote false old = none := by
    intro quote isQuote escaped unclosed
    by_cases none : gap = []
    · rwa [none, List.nil_append, longTail_cons isQuote rfl (by decide)] at unclosed
    · rwa [longTail_spacing isQuote spacing none, longTail_cons isQuote rfl (by decide)] at unclosed
  refine ⟨fun _ => ?_, fun _ ends => ?_, nofun, fun quote isQuote unclosed => ?_,
    fun _ quote isQuote unclosed => ?_⟩
  · rw [bounds.ink, ← revised.ink rfl, isOld.ink]
  · by_cases none : gap = []
    · rw [none] at ends
      cases ends
    · obtain ⟨c, more, split, _, lineEnd⟩ := spacing.head none (',' :: old)
      rw [split, List.head?_cons, Option.all_some, lineEnd] at ends
      cases ends
  · exact revised.quiet quote isQuote (opens quote isQuote false unclosed)
  · exact revised.escaped rfl quote isQuote
      ((isOld.longTail isQuote).2 (opens quote isQuote true unclosed))

theorem lineBreak (member : text ∈ breaks) (revised : Revised front old new) :
    Revised .lexeme (text ++ old) (text ++ new) := by
  have heads : ∀ lineEnd ∈ breaks, ∃ c more, lineEnd = c :: more ∧ isBlank c = true ∧
      isLineEnd c = true := by
    intro lineEnd member
    simp only [breaks, List.mem_cons, List.not_mem_nil, or_false] at member
    rcases member with rfl | rfl | rfl
    · exact ⟨'\r', ['\n'], rfl, rfl, rfl⟩
    · exact ⟨'\r', [], rfl, rfl, rfl⟩
    · exact ⟨'\n', [], rfl, rfl, rfl⟩
  obtain ⟨c, more, rfl, blank, lineEnd⟩ := heads text member
  refine ⟨fun _ => ?_, fun _ => id, by rintro ⟨⟩, fun quote isQuote unclosed => ?_,
    fun _ quote isQuote unclosed => ?_⟩
  · rw [List.cons_append, List.cons_append, ink_of_isBlank blank, ink_of_isBlank blank]
  · rw [longTail_break isQuote member] at unclosed ⊢
    exact revised.quiet quote isQuote unclosed
  · rw [longTail_break isQuote member] at unclosed ⊢
    exact revised.quiet quote isQuote unclosed

theorem append (nonempty : text ≠ []) (revised : Revised .lexeme old new) :
    Revised .lexeme (text ++ old) (text ++ new) := by
  have heads : ∀ rest : List Char, (text ++ rest).head? = text.head? := by
    intro rest
    obtain ⟨c, more, rfl⟩ := List.exists_cons_of_ne_nil nonempty
    rfl
  have opens : ∀ quote, isQuote quote = true → ∀ escaped,
      Lexeme.longTail quote escaped (text ++ old) = none →
      Lexeme.longTail quote escaped (text ++ new) = none := by
    intro quote isQuote escaped unclosed
    refine longTail_append_congr isQuote (revised.ink rfl) ?_ text unclosed
    intro escaped unclosed
    cases escaped with
    | true => exact revised.escaped rfl quote isQuote unclosed
    | false => exact revised.quiet quote isQuote unclosed
  exact ⟨fun _ => ink_append_congr (revised.ink rfl) text, fun _ => by rw [heads, heads]; exact id,
    nofun, fun quote isQuote => opens quote isQuote false,
    fun _ quote isQuote => opens quote isQuote true⟩

/-- An `=` or a `:` in front of both hides what follows, unless it is an `=`. -/
theorem afterSingle {c : Char} (isSingle : c = '=' ∨ c = ':') (noEquals : old.head? ≠ some '=')
    (revised : Revised .single old new) : Revised .lexeme (c :: old) (c :: new) := by
  have inked : ∀ rest : List Char, rest.head? ≠ some '=' → Lexeme.ink (c :: rest) = [c] := by
    intro rest other
    rcases isSingle with rfl | rfl <;> simp [Lexeme.ink, isEdge, isBlank, isSpace, isLineEnd, isStop,
      other]
  have plain : isQuote c = false ∧ c ≠ '\\' := by
    rcases isSingle with rfl | rfl <;> decide
  refine ⟨fun _ => ?_, fun _ => id, by rintro ⟨⟩, fun quote isQuote unclosed => ?_,
    fun _ quote isQuote unclosed => ?_⟩
  · rw [inked old noEquals, inked new (revised.single rfl)]
  · rw [longTail_cons isQuote plain.1 plain.2] at unclosed ⊢
    exact revised.quiet quote isQuote unclosed
  · rw [longTail_cons isQuote plain.1 plain.2] at unclosed ⊢
    exact revised.quiet quote isQuote unclosed

end Revised

section Reading

variable {text old new rest : List Char} {kind : Kind}

private theorem first_of_hidden {c : Char} (notPlain : isPlain c = false)
    (code : IsCode (c :: rest)) :
    first (c :: rest) = if operator (c :: rest) ≠ 0 then (.operator, operator (c :: rest))
      else (.stray, 1) := by
  have none : plain (c :: rest) = [] := plain_cons_of_not notPlain rest
  have noQuote : openQuote (c :: rest) = 0 := by
    rw [← openQuote_plain, none]
    rfl
  have noNumber : number (c :: rest) = 0 := by
    rw [← number_plain, none]
    rfl
  have noName : name (c :: rest) = 0 := by
    rw [← name_plain, none]
    rfl
  rw [first_of_isCode code, string_eq_zero noQuote, noQuote, noNumber, noName]
  simp

theorem first_of_isStop {c : Char} (stop : isStop c = true) (rest : List Char) :
    first (c :: rest) = (.operator, 1) := by
  have code : IsCode (c :: rest) := by
    rw [isCode_cons_iff]
    simp only [isStop, Bool.or_eq_true, beq_iff_eq] at stop
    rcases stop with ((rfl | rfl) | rfl) | rfl <;> simp [isSpace, isLineEnd]
  have notPlain : isPlain c = false := by simp [isPlain, isEdge_of_isStop stop]
  rw [first_of_hidden notPlain code, operator_of_isStop stop]
  rfl

theorem first_of_single {c : Char} (isSingle : c = '=' ∨ c = ':')
    (noEquals : rest.head? ≠ some '=') : first (c :: rest) = (.operator, 1) := by
  have code : IsCode (c :: rest) := by
    rw [isCode_cons_iff]
    rcases isSingle with rfl | rfl <;> simp [isSpace, isLineEnd]
  have notPlain : isPlain c = false := by
    rcases isSingle with rfl | rfl <;> decide
  have inked : ink (c :: rest) = [c] := by
    rcases isSingle with rfl | rfl <;> simp [ink, isEdge, isBlank, isSpace, isLineEnd, isStop,
      noEquals]
  have noStop : (c :: rest).head?.any isStop = false := by
    rcases isSingle with rfl | rfl <;> rfl
  have read : operator (c :: rest) = 1 := by
    rw [← operator_ink noStop, inked]
    rcases isSingle with rfl | rfl <;> rfl
  rw [first_of_hidden notPlain code, read]
  rfl

theorem noEquals_of_single {c : Char} (isSingle : c = '=' ∨ c = ':')
    (read : first (c :: rest) = (.operator, 1)) : rest.head? ≠ some '=' := by
  intro equals
  obtain ⟨others, rfl⟩ := List.head?_eq_some_iff.1 equals
  have code : IsCode (c :: '=' :: others) := by
    rw [isCode_cons_iff]
    rcases isSingle with rfl | rfl <;> simp [isSpace, isLineEnd]
  have notPlain : isPlain c = false := by
    rcases isSingle with rfl | rfl <;> decide
  have longer : operator (c :: '=' :: others) = 2 := by
    rcases isSingle with rfl | rfl <;> rfl
  rw [first_of_hidden notPlain code, longer] at read
  cases read

private theorem head_ne_backslash (nonempty : text ≠ []) (code : IsCode (text ++ rest))
    (read : first (text ++ rest) = (kind, text.length)) (noStray : kind ≠ .stray) :
    text.head? ≠ some '\\' := by
  intro backslash
  obtain ⟨more, rfl⟩ := List.head?_eq_some_iff.1 backslash
  have none : operator ('\\' :: more ++ rest) = 0 := by
    rw [← operator_ink (by rfl)]
    rfl
  rw [List.cons_append] at code none read
  rw [first_of_hidden (by rfl) code, none] at read
  exact noStray (Prod.mk.inj read).1.symm

theorem first_comment_iff_ends (nonempty : text ≠ []) :
    first (text ++ rest) = (.comment, text.length) ↔ text.head? = some '#' ∧
      (text.all fun c => !isLineEnd c) = true ∧ rest.head?.all isLineEnd = true := by
  rw [first_comment_iff nonempty]
  cases rest <;> simp

/-- A lexeme is read the same in front of a revised text. -/
theorem first_of_revised (nonempty : text ≠ [])
    (read : first (text ++ old) = (kind, text.length)) (hasToken : kind.hasToken = true)
    (noStray : kind ≠ .stray) (noBreak : kind ≠ .lineBreak) (revised : Revised .lexeme old new) :
    first (text ++ new) = (kind, text.length) := by
  by_cases comment : kind = .comment
  · subst comment
    rw [first_comment_iff_ends nonempty] at read ⊢
    exact ⟨read.1, read.2.1, revised.ends rfl read.2.2⟩
  · have codeOld : IsCode (text ++ old) := by
      rcases first_cases read with h | h | h | h | h
      · rw [h.1] at hasToken
        cases hasToken
      · exact absurd h.1 noBreak
      · rw [h.1] at hasToken
        cases hasToken
      · exact absurd h.1 comment
      · exact h.2
    have noBackslash := head_ne_backslash nonempty codeOld read noStray
    have codeNew : IsCode (text ++ new) := by
      obtain ⟨c, more, rfl⟩ := List.exists_cons_of_ne_nil nonempty
      rw [List.cons_append, isCode_cons_iff] at codeOld ⊢
      refine ⟨codeOld.1, codeOld.2.1, codeOld.2.2.1, ?_⟩
      rintro rfl
      exact absurd rfl noBackslash
    by_cases string : kind = .string
    · subst string
      rw [first_string_iff codeOld] at read
      rw [first_string_iff codeNew]
      exact ⟨string_append nonempty (revised.ink rfl) (revised.escaped rfl) read.1, read.2⟩
    · have isInk : kind.isInk = true := by
        cases kind <;> first | rfl | contradiction
      have heads : (text ++ old).head? = (text ++ new).head? := by
        obtain ⟨c, more, rfl⟩ := List.exists_cons_of_ne_nil nonempty
        rfl
      exact first_congr_of_isInk codeOld codeNew (ink_append_congr (revised.ink rfl) text) heads
        read isInk

end Reading

end DeferredDefaults.Lexeme
