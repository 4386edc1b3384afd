import DeferredDefaults.Proofs.Token.Reading

/-!
Copies of a list of lexemes with other gaps. A gap is a run of space and continuations. A copy keeps
every lexeme of code, every comment and every line break, writes the gaps anew, and may put a name
in the place of the `>` of a sigil. Between two lexemes of one row a gap stays a gap and no gap
stays none; at the start of a row and behind the new name the gaps are free. A copy of a list that
reads also reads.
-/

set_option autoImplicit false
set_option relaxedAutoImplicit false

namespace DeferredDefaults.Lexeme

structure IsGap (lexeme : Lexeme) : Prop where
  shape : (lexeme.kind = .space ∧ lexeme.text ≠ [] ∧ lexeme.text.all isSpace = true) ∨
    (lexeme.kind = .continuation ∧ ∃ lineEnd ∈ breaks, lexeme.text = '\\' :: lineEnd)

/-- A gap as it is written: runs of space stand apart, and continuations end with a line feed. -/
def Pad : List Lexeme → Prop
  | [] => True
  | lexeme :: rest =>
    lexeme.IsGap ∧ (lexeme.kind = .space → rest.head?.all fun next => next.kind != .space) ∧
      (lexeme.kind = .continuation → lexeme.text = ['\\', '\n']) ∧ Pad rest

theorem IsGap.head {lexeme : Lexeme} (gap : lexeme.IsGap) :
    ∃ c more, lexeme.text = c :: more ∧ isBlank c = true ∧ isLineEnd c = false := by
  rcases gap.shape with ⟨_, nonempty, allSpace⟩ | ⟨_, lineEnd, _, text⟩
  · obtain ⟨c, more, split⟩ := List.exists_cons_of_ne_nil nonempty
    rw [split, List.all_cons, Bool.and_eq_true] at allSpace
    refine ⟨c, more, split, by simp [isBlank, allSpace.1], ?_⟩
    have space := allSpace.1
    simp only [isSpace, Bool.or_eq_true, beq_iff_eq] at space
    rcases space with (rfl | rfl) | rfl <;> rfl
  · exact ⟨'\\', lineEnd, text, rfl, rfl⟩

theorem Pad.isGap {pad : List Lexeme} (isPad : Pad pad) : ∀ lexeme ∈ pad, lexeme.IsGap := by
  induction pad with
  | nil => simp
  | cons lexeme rest ih =>
    rw [List.forall_mem_cons]
    exact ⟨isPad.1, ih isPad.2.2.2⟩

theorem isGap_of_reads {lexeme : Lexeme} {rest : List Lexeme} (reads : Reads (lexeme :: rest))
    (kind : lexeme.kind = .space ∨ lexeme.kind = .continuation) : lexeme.IsGap := by
  obtain ⟨nonempty, read, _⟩ := reads
  rcases kind with kind | kind
  · rw [kind, first_space_iff nonempty] at read
    exact ⟨.inl ⟨kind, nonempty, read.1⟩⟩
  · rw [kind] at read
    obtain ⟨c, more, split⟩ := List.exists_cons_of_ne_nil nonempty
    have backslash : c = '\\' := by
      by_contra different
      rcases first_cases read with h | h | h | h | h
      · rw [split, List.cons_append, continuation_of_ne different] at h
        cases h.2
      · cases h.1
      · cases h.1
      · cases h.1
      · cases h.1
    subst backslash
    rw [split, List.length_cons, first_continuation_iff] at read
    exact ⟨.inr ⟨kind, more, read.1, split⟩⟩

private theorem plain_of_mem_breaks {lineEnd : List Char} (member : lineEnd ∈ breaks) :
    ∀ c ∈ lineEnd, isQuote c = false ∧ c ≠ '\\' := by
  simp only [breaks, List.mem_cons, List.not_mem_nil, or_false] at member
  rcases member with rfl | rfl | rfl <;> simp [isQuote]

section Quotes

variable {quote : Char} (isQuote : isQuote quote = true) {escaped : Bool}
include isQuote

private theorem ne_of_not_isQuote {c : Char} (plain : Lexeme.isQuote c = false) : c ≠ quote := by
  rintro rfl
  rw [isQuote] at plain
  cases plain

/-- A character that is neither a quote nor a backslash closes nothing and escapes nothing. -/
theorem longTail_cons {c : Char} (plain : Lexeme.isQuote c = false) (backslash : c ≠ '\\')
    (rest : List Char) :
    longTail quote escaped (c :: rest) = none ↔ longTail quote false rest = none := by
  have different := ne_of_not_isQuote isQuote plain
  cases escaped with
  | true => rw [longTail, Option.map_eq_none_iff]
  | false =>
    have noPrefix : [quote, quote, quote].isPrefixOf (c :: rest) = false := by
      simp [List.isPrefixOf, different.symm]
    rw [longTail, if_neg backslash, if_neg (by simp [noPrefix]), Option.map_eq_none_iff]

theorem longTail_plain {text : List Char}
    (plain : ∀ c ∈ text, Lexeme.isQuote c = false ∧ c ≠ '\\') (rest : List Char) :
    longTail quote false (text ++ rest) = none ↔ longTail quote false rest = none := by
  induction text with
  | nil => rfl
  | cons c more ih =>
    rw [List.forall_mem_cons] at plain
    rw [List.cons_append, longTail_cons isQuote plain.1.1 plain.1.2, ih plain.2]

theorem longTail_break {lineEnd : List Char} (member : lineEnd ∈ breaks) (rest : List Char) :
    longTail quote escaped (lineEnd ++ rest) = none ↔ longTail quote false rest = none := by
  have plain := plain_of_mem_breaks member
  have nonempty : lineEnd ≠ [] := by
    rintro rfl
    simp [breaks] at member
  obtain ⟨c, more, rfl⟩ := List.exists_cons_of_ne_nil nonempty
  rw [List.forall_mem_cons] at plain
  rw [List.cons_append, longTail_cons isQuote plain.1.1 plain.1.2,
    longTail_plain isQuote plain.2]

theorem longTail_gap {gap : List Lexeme} (isGap : ∀ lexeme ∈ gap, lexeme.IsGap)
    (nonempty : gap ≠ []) (rest : List Char) :
    longTail quote escaped (textOf gap ++ rest) = none ↔ longTail quote false rest = none := by
  induction gap generalizing escaped with
  | nil => exact absurd rfl nonempty
  | cons lexeme more ih =>
    rw [List.forall_mem_cons] at isGap
    have others : longTail quote false (textOf more ++ rest) = none ↔
        longTail quote false rest = none := by
      by_cases last : more = []
      · subst last
        rfl
      · exact ih isGap.2 last
    rw [textOf_cons, List.append_assoc, ← others]
    rcases isGap.1.shape with ⟨_, some, allSpace⟩ | ⟨_, lineEnd, member, text⟩
    · have plain : ∀ c ∈ lexeme.text, Lexeme.isQuote c = false ∧ c ≠ '\\' := by
        intro c member
        have space := List.all_eq_true.1 allSpace c member
        simp only [isSpace, Bool.or_eq_true, beq_iff_eq] at space
        rcases space with (rfl | rfl) | rfl <;> simp [Lexeme.isQuote]
      obtain ⟨c, tail, split⟩ := List.exists_cons_of_ne_nil some
      rw [split] at plain ⊢
      rw [List.forall_mem_cons] at plain
      rw [List.cons_append, longTail_cons isQuote plain.1.1 plain.1.2,
        longTail_plain isQuote plain.2]
    · rw [text, List.cons_append]
      cases escaped with
      | true =>
        rw [longTail, Option.map_eq_none_iff, longTail_break isQuote member]
      | false =>
        rw [longTail, if_pos rfl, Option.map_eq_none_iff, longTail_break isQuote member]

/-- Texts before which the same is open keep that behind the same text. -/
theorem longTail_append_congr {a b : List Char} (same : ink a = ink b)
    (open_ : ∀ escaped, longTail quote escaped a = none → longTail quote escaped b = none)
    (text : List Char) (unclosed : longTail quote escaped (text ++ a) = none) :
    longTail quote escaped (text ++ b) = none := by
  induction text generalizing escaped with
  | nil => exact open_ escaped unclosed
  | cons c rest ih =>
    rw [List.cons_append] at unclosed ⊢
    cases escaped with
    | true =>
      rw [longTail, Option.map_eq_none_iff] at unclosed ⊢
      exact ih unclosed
    | false =>
      have solid : isSolid [quote, quote, quote] = true := by
        simp only [Lexeme.isQuote, Bool.or_eq_true, beq_iff_eq] at isQuote
        rcases isQuote with rfl | rfl <;> rfl
      have samePrefix : [quote, quote, quote].isPrefixOf (c :: (rest ++ a)) =
          [quote, quote, quote].isPrefixOf (c :: (rest ++ b)) := by
        rw [← isPrefixOf_ink solid, ← isPrefixOf_ink solid (c :: (rest ++ b)),
          ← List.cons_append, ink_append_congr same, List.cons_append]
      rw [longTail] at unclosed ⊢
      rw [← samePrefix]
      split
      · next escape =>
        rw [if_pos escape, Option.map_eq_none_iff] at unclosed
        rw [Option.map_eq_none_iff]
        exact ih unclosed
      · next noEscape =>
        rw [if_neg noEscape] at unclosed
        split
        · next closes =>
          rw [if_pos closes] at unclosed
          cases unclosed
        · next noClose =>
          rw [if_neg noClose, Option.map_eq_none_iff] at unclosed
          rw [Option.map_eq_none_iff]
          exact ih unclosed

end Quotes

inductive Before where
  /-- A lexeme on the same row. -/
  | lexeme
  /-- The start of a row. -/
  | rowStart
  /-- The name that has been put in the place of a `>`. -/
  | marker
deriving DecidableEq

def Before.ofKind (kind : Kind) : Before := if kind = .lineBreak then .rowStart else .lexeme

def Fits (before : Before) (kind : Kind) (gap pad : List Lexeme) : Prop :=
  match before with
  | .lexeme => gap = [] ↔ pad = []
  | .rowStart => kind = .lineBreak → (gap = [] ↔ pad = [])
  | .marker => True

/-- A copy of a list of lexemes with other gaps and with `marker` for the `>` of sigils. -/
inductive Copy (marker : List Char) : Before → List Lexeme → List Lexeme → Prop
  | ended {before : Before} {gap pad : List Lexeme} :
      (∀ lexeme ∈ gap, lexeme.IsGap) → Pad pad → (before = .lexeme → (gap = [] ↔ pad = [])) →
      Copy marker before gap pad
  | same {before : Before} {gap pad : List Lexeme} {lexeme : Lexeme} {old new : List Lexeme} :
      (∀ lexeme ∈ gap, lexeme.IsGap) → Pad pad → Fits before lexeme.kind gap pad →
      lexeme.kind ≠ .space → lexeme.kind ≠ .continuation → lexeme.kind ≠ .openQuote →
      Copy marker (.ofKind lexeme.kind) old new →
      Copy marker before (gap ++ lexeme :: old) (pad ++ lexeme :: new)
  | sigil {before : Before} {gap pad : List Lexeme} {old new : List Lexeme} :
      (∀ lexeme ∈ gap, lexeme.IsGap) → Pad pad → Fits before .operator gap pad →
      first (marker ++ textOf new) = (.name, marker.length) →
      Copy marker .marker old new →
      Copy marker before (gap ++ ⟨.operator, ['=']⟩ :: ⟨.operator, ['>']⟩ :: old)
        (pad ++ ⟨.operator, ['=']⟩ :: ⟨.space, [' ']⟩ :: ⟨.name, marker⟩ :: new)

/-- What a text and its copy have in common, as far as the lexeme in front of them sees. -/
structure Alike (before : Before) (old new : List Char) : Prop where
  ink : before = .lexeme → ink old = ink new
  lineEnd : before = .lexeme → old.head?.any isLineEnd = new.head?.any isLineEnd
  empty : before = .lexeme → old = [] → new = []
  lineFeed : before = .rowStart → old.head? ≠ some '\n' → new.head? ≠ some '\n'
  open_ : ∀ quote, isQuote quote = true →
    longTail quote false old = none → longTail quote false new = none
  escaped : before = .lexeme → ∀ quote, isQuote quote = true →
    longTail quote true old = none → longTail quote true new = none

theorem head_of_reads {lexeme : Lexeme} {rest : List Lexeme} (reads : Reads (lexeme :: rest))
    (space : lexeme.kind ≠ .space) (continuation : lexeme.kind ≠ .continuation) :
    (textOf (lexeme :: rest)).head?.any isSpace = false ∧
      (lexeme.kind ≠ .lineBreak → (textOf (lexeme :: rest)).head?.any isLineEnd = false) := by
  obtain ⟨nonempty, read, _⟩ := reads
  rw [textOf_cons]
  have readWhole := read
  rcases first_cases read with h | h | h | h | h
  · exact absurd h.1 continuation
  · rw [h.1, first_lineBreak_iff nonempty] at readWhole
    have member := readWhole.1
    simp only [breaks, List.mem_cons, List.not_mem_nil, or_false] at member
    refine ⟨?_, fun different => absurd h.1 different⟩
    rcases member with text | text | text <;> rw [text] <;> rfl
  · exact absurd h.1 space
  · rw [h.1, first_comment_iff nonempty] at readWhole
    obtain ⟨c, more, split⟩ := List.exists_cons_of_ne_nil nonempty
    rw [split, List.head?_cons, Option.some.injEq] at readWhole
    rw [split, readWhole.1]
    exact ⟨rfl, fun _ => rfl⟩
  · have code := h.2
    obtain ⟨c, more, split⟩ := List.exists_cons_of_ne_nil nonempty
    rw [split, List.cons_append] at code ⊢
    rw [isCode_cons_iff] at code
    exact ⟨code.1, fun _ => code.2.1⟩

/-- A written gap reads in front of a list that reads and does not begin with space. -/
theorem reads_pad {pad rest : List Lexeme} (isPad : Pad pad) (reads : Reads rest)
    (noSpace : (textOf rest).head?.any isSpace = false) : Reads (pad ++ rest) := by
  induction pad with
  | nil => exact reads
  | cons lexeme more ih =>
    obtain ⟨gap, apart, lineFeed, isPadMore⟩ := isPad
    obtain ⟨kind, text⟩ := lexeme
    rcases gap.shape with ⟨space, nonempty, allSpace⟩ | ⟨continuation, lineEnd, member, split⟩
    · refine ⟨nonempty, ?_, ih isPadMore⟩
      simp only at space
      subst space
      rw [first_space_iff nonempty]
      refine ⟨allSpace, ?_⟩
      cases more with
      | nil => exact noSpace
      | cons next others =>
        have different : next.kind ≠ .space := by simpa using apart rfl
        rcases isPadMore.1.shape with ⟨isSpace, _⟩ | ⟨_, lineEnd, _, split⟩
        · exact absurd isSpace different
        · show (textOf (next :: (others ++ rest))).head?.any isSpace = false
          rw [textOf_cons, split]
          rfl
    · simp only at continuation
      subst continuation
      have fed := lineFeed rfl
      simp only at fed
      subst fed
      refine ⟨by simp, ?_, ih isPadMore⟩
      exact first_continuation_iff.2 ⟨by simp [breaks], by simp⟩

theorem Reads.drop {front back : List Lexeme} (reads : Reads (front ++ back)) : Reads back := by
  induction front with
  | nil => exact reads
  | cons lexeme rest ih => exact ih reads.2.2

private theorem first_of_alike {lexeme : Lexeme} {old new : List Lexeme}
    (reads : Reads (lexeme :: old)) (space : lexeme.kind ≠ .space)
    (continuation : lexeme.kind ≠ .continuation) (openQuote : lexeme.kind ≠ .openQuote)
    (alike : Alike (.ofKind lexeme.kind) (textOf old) (textOf new)) :
    first (lexeme.text ++ textOf new) = (lexeme.kind, lexeme.text.length) := by
  obtain ⟨kind, text⟩ := lexeme
  obtain ⟨nonempty, read, _⟩ := reads
  simp only at space continuation openQuote alike nonempty read ⊢
  by_cases lineBreak : kind = .lineBreak
  · subst lineBreak
    rw [first_lineBreak_iff nonempty] at read ⊢
    exact ⟨read.1, fun alone => alike.lineFeed rfl (read.2 alone)⟩
  · have tight : Before.ofKind kind = .lexeme := if_neg lineBreak
    by_cases comment : kind = .comment
    · subst comment
      rw [first_comment_iff nonempty] at read ⊢
      refine ⟨read.1, read.2.1, ?_⟩
      have ends := read.2.2
      cases rest : textOf old with
      | nil => rw [alike.empty tight rest]; rfl
      | cons c others =>
        have lineEnd := alike.lineEnd tight
        rw [rest] at ends lineEnd
        cases rest' : textOf new with
        | nil => rfl
        | cons d others' =>
          rw [rest'] at lineEnd
          simp_all
    · have codeOld : IsCode (text ++ textOf old) := by
        rcases first_cases read with h | h | h | h | h
        · exact absurd h.1 continuation
        · exact absurd h.1 lineBreak
        · exact absurd h.1 space
        · exact absurd h.1 comment
        · exact h.2
      have codeNew := isCode_append nonempty (alike.lineEnd tight) codeOld
      have same := ink_append_congr (alike.ink tight) text
      by_cases string : kind = .string
      · subst string
        rw [first_string_iff codeOld] at read
        rw [first_string_iff codeNew]
        exact ⟨string_append nonempty (alike.ink tight) (alike.escaped tight) read.1, read.2⟩
      · have isInk : kind.isInk = true := by
          cases kind <;> first | rfl | contradiction
        have heads : (text ++ textOf old).head? = (text ++ textOf new).head? := by
          obtain ⟨c, more, rfl⟩ := List.exists_cons_of_ne_nil nonempty
          rfl
        exact first_congr_of_isInk codeOld codeNew same heads read isInk

private theorem alike_lexeme {lexeme : Lexeme} {old new : List Lexeme}
    (reads : Reads (lexeme :: old)) (alike : Alike (.ofKind lexeme.kind) (textOf old) (textOf new))
    (before : Before) :
    Alike before (textOf (lexeme :: old)) (textOf (lexeme :: new)) := by
  obtain ⟨nonempty, read, _⟩ := reads
  have closes : ∀ quote, isQuote quote = true → ∀ escaped,
      longTail quote escaped (lexeme.text ++ textOf old) = none →
      longTail quote escaped (lexeme.text ++ textOf new) = none := by
    intro quote isQuote escaped unclosed
    by_cases lineBreak : lexeme.kind = .lineBreak
    · rw [lineBreak, first_lineBreak_iff nonempty] at read
      rw [longTail_break isQuote read.1] at unclosed ⊢
      exact alike.open_ quote isQuote unclosed
    · have tight : Before.ofKind lexeme.kind = .lexeme := if_neg lineBreak
      refine longTail_append_congr isQuote (alike.ink tight) ?_ lexeme.text unclosed
      intro escaped open_
      cases escaped with
      | true => exact alike.escaped tight quote isQuote open_
      | false => exact alike.open_ quote isQuote open_
  have heads : ∀ rest : List Char, (lexeme.text ++ rest).head? = lexeme.text.head? := by
    intro rest
    obtain ⟨c, more, split⟩ := List.exists_cons_of_ne_nil nonempty
    rw [split]
    rfl
  rw [textOf_cons, textOf_cons]
  refine ⟨fun _ => ?_, fun _ => by rw [heads, heads], fun _ none => ?_,
    fun _ => by rw [heads, heads]; exact id,
    fun quote isQuote => closes quote isQuote false, fun _ quote isQuote => closes quote isQuote true⟩
  · by_cases lineBreak : lexeme.kind = .lineBreak
    · rw [lineBreak, first_lineBreak_iff nonempty] at read
      have member := read.1
      simp only [breaks, List.mem_cons, List.not_mem_nil, or_false] at member
      rcases member with text | text | text <;> rw [text] <;> rfl
    · exact ink_append_congr (alike.ink (if_neg lineBreak)) lexeme.text
  · exact absurd (List.append_eq_nil_iff.1 none).1 nonempty

private theorem head_of_gap {gap : List Lexeme} (isGap : ∀ lexeme ∈ gap, lexeme.IsGap)
    (nonempty : gap ≠ []) (rest : List Char) :
    ∃ c more, textOf gap ++ rest = c :: more ∧ isBlank c = true ∧ isLineEnd c = false := by
  obtain ⟨lexeme, others, rfl⟩ := List.exists_cons_of_ne_nil nonempty
  obtain ⟨c, more, split, blank, lineEnd⟩ := (isGap lexeme List.mem_cons_self).head
  exact ⟨c, more ++ (textOf others ++ rest), by simp [split], blank, lineEnd⟩

private theorem alike_gap {before : Before} {kind : Kind} {gap pad : List Lexeme}
    {old new : List Char} (isGap : ∀ lexeme ∈ gap, lexeme.IsGap) (isPad : Pad pad)
    (fits : Fits before kind gap pad) (alike : ∀ before, Alike before old new)
    (head : kind ≠ .lineBreak → new.head? ≠ some '\n') :
    Alike before (textOf gap ++ old) (textOf pad ++ new) := by
  have open_ : ∀ quote, isQuote quote = true →
      longTail quote false (textOf gap ++ old) = none →
      longTail quote false (textOf pad ++ new) = none := by
    intro quote isQuote unclosed
    have inner : longTail quote false new = none := by
      apply (alike .lexeme).open_ quote isQuote
      by_cases none : gap = []
      · rwa [none] at unclosed
      · rwa [longTail_gap isQuote isGap none] at unclosed
    by_cases none : pad = []
    · rwa [none]
    · rwa [longTail_gap isQuote isPad.isGap none]
  cases before with
  | marker =>
    refine ⟨?_, ?_, ?_, ?_, open_, ?_⟩ <;> intro impossible <;> cases impossible
  | rowStart =>
    refine ⟨?_, ?_, ?_, fun _ noFeed => ?_, open_, ?_⟩
    · intro impossible; cases impossible
    · intro impossible; cases impossible
    · intro impossible; cases impossible
    · by_cases none : pad = []
      · subst none
        by_cases lineBreak : kind = .lineBreak
        · have noGap : gap = [] := (fits lineBreak).2 rfl
          subst noGap
          exact (alike .rowStart).lineFeed rfl noFeed
        · exact head lineBreak
      · obtain ⟨c, more, split, _, lineEnd⟩ := head_of_gap isPad.isGap none new
        rw [split, List.head?_cons, ne_eq, Option.some.injEq]
        rintro rfl
        cases lineEnd
    · intro impossible; cases impossible
  | lexeme =>
    by_cases none : pad = []
    · have noGap : gap = [] := fits.2 none
      subst none noGap
      exact alike .lexeme
    · have some : gap ≠ [] := fun noGap => none (fits.1 noGap)
      obtain ⟨c, more, split, blank, lineEnd⟩ := head_of_gap isGap some old
      obtain ⟨d, more', split', blank', lineEnd'⟩ := head_of_gap isPad.isGap none new
      refine ⟨fun _ => ?_, fun _ => ?_, fun _ noText => ?_, ?_, open_, fun _ => ?_⟩
      · rw [split, split', ink_of_isBlank blank, ink_of_isBlank blank']
      · rw [split, split', List.head?_cons, List.head?_cons, Option.any_some, Option.any_some,
          lineEnd, lineEnd']
      · rw [split] at noText
        cases noText
      · intro impossible; cases impossible
      · intro quote isQuote unclosed
        rw [longTail_gap isQuote isGap some] at unclosed
        rw [longTail_gap isQuote isPad.isGap none]
        exact (alike .lexeme).open_ quote isQuote unclosed

private theorem alike_ended {before : Before} {gap pad : List Lexeme}
    (isGap : ∀ lexeme ∈ gap, lexeme.IsGap) (isPad : Pad pad)
    (fits : before = .lexeme → (gap = [] ↔ pad = [])) :
    Alike before (textOf gap) (textOf pad) := by
  have nothing : ∀ before, Alike before ([] : List Char) [] := by
    intro before
    exact ⟨fun _ => rfl, fun _ => rfl, fun _ => id, fun _ => id, fun _ _ => id, fun _ _ _ => id⟩
  have fits' : Fits before .operator gap pad := by
    cases before with
    | lexeme => exact fits rfl
    | rowStart => intro impossible; cases impossible
    | marker => trivial
  have alike := alike_gap isGap isPad fits' nothing (by simp)
  rwa [List.append_nil, List.append_nil] at alike

section Marker

variable {marker : List Char} (nonempty : marker ≠ [])
  (plain : ∀ c ∈ marker, isQuote c = false ∧ c ≠ '\\')
include plain

private theorem alike_sigil {old new : List Char} (alike : Alike .marker old new)
    (before : Before) :
    Alike before ('=' :: '>' :: old) ('=' :: ' ' :: (marker ++ new)) := by
  have closes : ∀ quote, isQuote quote = true → ∀ escaped,
      longTail quote escaped ('=' :: '>' :: old) = none →
      longTail quote escaped ('=' :: ' ' :: (marker ++ new)) = none := by
    intro quote isQuote escaped unclosed
    rw [longTail_cons isQuote rfl (by decide), longTail_cons isQuote rfl (by decide)]
      at unclosed ⊢
    rw [longTail_plain isQuote plain]
    exact alike.open_ quote isQuote unclosed
  refine ⟨fun _ => rfl, fun _ => rfl, fun _ none => ?_, fun _ => id,
    fun quote isQuote => closes quote isQuote false,
    fun _ quote isQuote => closes quote isQuote true⟩
  cases none

include nonempty

/-- A copy of a list that reads also reads, and the two look alike from the front. -/
private theorem Copy.reads_and_alike {before : Before} {old new : List Lexeme}
    (copy : Copy marker before old new) (reads : Reads old) :
    Reads new ∧ Alike before (textOf old) (textOf new) := by
  induction copy with
  | @ended before gap pad isGap isPad fits =>
    have readsPad : Reads (pad ++ []) := reads_pad isPad trivial rfl
    rw [List.append_nil] at readsPad
    exact ⟨readsPad, alike_ended isGap isPad fits⟩
  | @same before gap pad lexeme old new isGap isPad fits space continuation openQuote _ ih =>
    have readsLexeme := reads.drop
    obtain ⟨readsNew, alike⟩ := ih readsLexeme.2.2
    have readsCopy : Reads (lexeme :: new) :=
      ⟨readsLexeme.1, first_of_alike readsLexeme space continuation openQuote alike, readsNew⟩
    have head := head_of_reads readsCopy space continuation
    refine ⟨reads_pad isPad readsCopy head.1, ?_⟩
    rw [textOf_append, textOf_append]
    refine alike_gap isGap isPad fits (alike_lexeme readsLexeme alike) ?_
    intro different feed
    have noLineEnd := head.2 different
    rw [feed] at noLineEnd
    cases noLineEnd
  | @sigil before gap pad old new isGap isPad fits readMarker _ ih =>
    have readsSigil := reads.drop
    obtain ⟨readsNew, alike⟩ := ih readsSigil.2.2.2.2
    have alikeSigil := alike_sigil plain alike
    have readsMarker : Reads (⟨.name, marker⟩ :: new) := ⟨nonempty, readMarker, readsNew⟩
    have markerHead := (head_of_reads readsMarker (by simp) (by simp)).1
    have readsSpace : Reads (⟨.space, [' ']⟩ :: ⟨.name, marker⟩ :: new) :=
      ⟨by simp, (first_space_iff (by simp)).2 ⟨rfl, markerHead⟩, readsMarker⟩
    have codeOld : IsCode ('=' :: '>' :: textOf old) :=
      (isCode_cons_iff _ _).2 ⟨rfl, rfl, by decide, fun backslash => by cases backslash⟩
    have codeNew : IsCode ('=' :: ' ' :: (marker ++ textOf new)) :=
      (isCode_cons_iff _ _).2 ⟨rfl, rfl, by decide, fun backslash => by cases backslash⟩
    have readEquals : first ('=' :: ' ' :: (marker ++ textOf new)) = (.operator, 1) :=
      first_congr_of_isInk codeOld codeNew rfl rfl readsSigil.2.1 rfl
    have readsCopy : Reads (⟨.operator, ['=']⟩ :: ⟨.space, [' ']⟩ :: ⟨.name, marker⟩ :: new) :=
      ⟨by simp, readEquals, readsSpace⟩
    refine ⟨reads_pad isPad readsCopy rfl, ?_⟩
    rw [textOf_append, textOf_append]
    exact alike_gap isGap isPad fits alikeSigil (by simp)

theorem Copy.split_textOf {before : Before} {old new : List Lexeme}
    (copy : Copy marker before old new) (reads : Reads old) : split (textOf new) = new :=
  Lexeme.split_textOf (copy.reads_and_alike nonempty plain reads).1

end Marker

end DeferredDefaults.Lexeme
