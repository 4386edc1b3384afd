import DeferredDefaults.Proofs.Token.Tiling

/-!
Three quotes. They open a long string only if it is closed somewhere in the rest of the text. If it
is not, the first two are read as an empty string and the third opens a short one: this goes
unnoticed where a later quote of the row closes it, and is reported two columns too late where none
does.
-/

set_option autoImplicit false
set_option relaxedAutoImplicit false

namespace DeferredDefaults

namespace Lexeme

/-- What follows the opening quotes of a string, up to the closing ones. A backslash takes the
character after it along. -/
inductive Closes (closing : List Char) (within : Char → Bool) : List Char → Prop
  | close : Closes closing within closing
  | escape {c : Char} {rest : List Char} : Closes closing within rest →
      Closes closing within ('\\' :: c :: rest)
  | goOn {c : Char} {rest : List Char} : c ≠ '\\' → within c = true → ¬ closing <+: c :: rest →
      Closes closing within rest → Closes closing within (c :: rest)

/-- What follows three quotes, up to the next three. -/
def ClosesLong (quote : Char) : List Char → Prop := Closes [quote, quote, quote] fun _ => true

/-- What follows one quote, up to the next on its row. -/
def ClosesShort (quote : Char) : List Char → Prop := Closes [quote] fun c => !isLineEnd c

def Unclosed (closes : List Char → Prop) (text : List Char) : Prop :=
  ∀ tail, tail <+: text → ¬ closes tail

section Tails

variable {closing : List Char} {within : Char → Bool} {text : List Char} {quote : Char}

/-- What is left of a string up to its closing quotes, for both kinds of quotes. -/
def tailLength (closing : List Char) (within : Char → Bool) : (escaped : Bool) → List Char →
    Option Nat
  | _, [] => none
  | true, _ :: rest => (tailLength closing within false rest).map (· + 1)
  | false, c :: rest =>
    if c = '\\' then (tailLength closing within true rest).map (· + 1)
    else if closing.isPrefixOf (c :: rest) then some closing.length
    else if within c then (tailLength closing within false rest).map (· + 1)
    else none

private theorem longTail_eq (quote : Char) (escaped : Bool) (text : List Char) :
    longTail quote escaped text =
      tailLength [quote, quote, quote] (fun _ => true) escaped text := by
  induction text generalizing escaped with
  | nil => rfl
  | cons c rest ih =>
    cases escaped with
    | true => simp only [longTail, tailLength, ih]
    | false => simp only [longTail, tailLength, ih, if_true, List.length_cons, List.length_nil]

private theorem shortTail_eq (quote : Char) (escaped : Bool) (text : List Char) :
    shortTail quote escaped text = tailLength [quote] (fun c => !isLineEnd c) escaped text := by
  induction text generalizing escaped with
  | nil => rfl
  | cons c rest ih =>
    cases escaped with
    | true => simp only [shortTail, tailLength, ih]
    | false =>
      have begins : [quote].isPrefixOf (c :: rest) = true ↔ c = quote := by
        rw [List.isPrefixOf_iff_prefix, List.cons_prefix_cons, eq_comm]
        simp
      simp only [shortTail, tailLength, ih, begins, List.length_singleton]
      by_cases ends : isLineEnd c = true
      · simp [ends]
      · simp [ends]

private theorem closes_of_tailLength {escaped : Bool} {length : Nat}
    (found : tailLength closing within escaped text = some length) :
    Closes closing within (if escaped then '\\' :: text.take length else text.take length) := by
  fun_induction tailLength closing within escaped text generalizing length with
  | case1 => cases found
  | case2 c rest ih =>
    obtain ⟨shorter, tail, rfl⟩ := Option.map_eq_some_iff.1 found
    exact .escape (ih tail)
  | case3 rest ih =>
    obtain ⟨shorter, tail, rfl⟩ := Option.map_eq_some_iff.1 found
    exact ih tail
  | case4 c rest noEscape closes =>
    cases found
    obtain ⟨behind, whole⟩ := List.isPrefixOf_iff_prefix.1 closes
    rw [← whole, List.take_left]
    exact .close
  | case5 c rest noEscape goesOn inside ih =>
    obtain ⟨shorter, tail, rfl⟩ := Option.map_eq_some_iff.1 found
    refine .goOn noEscape inside ?_ (ih tail)
    intro begins
    apply goesOn
    rw [List.isPrefixOf_iff_prefix]
    exact begins.trans (List.take_prefix (shorter + 1) (c :: rest))
  | case6 => cases found

private theorem Closes.length_le {tail : List Char} (closes : Closes closing within tail) :
    closing.length ≤ tail.length := by
  induction closes with
  | close => exact Nat.le_refl _
  | escape _ ih => exact Nat.le_add_right_of_le (Nat.le_add_right_of_le ih)
  | goOn _ _ _ _ ih => exact Nat.le_add_right_of_le ih

private theorem Closes.tailLength_eq {tail : List Char} (closes : Closes closing within tail)
    (some : closing ≠ []) (plain : ∀ c ∈ closing, c ≠ '\\') (rest : List Char) :
    tailLength closing within false (tail ++ rest) = .some tail.length := by
  induction closes with
  | close =>
    obtain ⟨c, more, rfl⟩ := List.exists_cons_of_ne_nil some
    have begins : (c :: more).isPrefixOf (c :: (more ++ rest)) = true :=
      List.isPrefixOf_iff_prefix.2 (List.prefix_append (c :: more) rest)
    rw [List.cons_append, tailLength, if_neg (plain c List.mem_cons_self), if_pos begins]
  | @escape c tail _ ih =>
    rw [List.cons_append, List.cons_append, tailLength, if_pos rfl, tailLength, ih]
    rfl
  | @goOn c tail noEscape inside goesOn inner ih =>
    have further : ¬ closing.isPrefixOf (c :: (tail ++ rest)) = true := by
      have long : closing.length ≤ (c :: tail).length := Nat.le_succ_of_le inner.length_le
      rw [← List.cons_append, isPrefixOf_append_of_length_le long, List.isPrefixOf_iff_prefix]
      exact goesOn
    rw [List.cons_append, tailLength, if_neg noEscape, if_neg further, if_pos inside, ih]
    rfl

private theorem tailLength_eq_none_iff (some : closing ≠ []) (plain : ∀ c ∈ closing, c ≠ '\\') :
    tailLength closing within false text = none ↔ Unclosed (Closes closing within) text := by
  constructor
  · rintro none tail ⟨rest, rfl⟩ closes
    rw [closes.tailLength_eq some plain] at none
    cases none
  · intro unclosed
    cases found : tailLength closing within false text with
    | none => rfl
    | some length => exact absurd (closes_of_tailLength found) (unclosed _ (List.take_prefix _ _))

private theorem longTail_eq_none_iff (isQuote : isQuote quote = true) :
    longTail quote false text = none ↔ Unclosed (ClosesLong quote) text := by
  rw [longTail_eq]
  exact tailLength_eq_none_iff (by simp) (by simp [ne_backslash_of_isQuote isQuote])

private theorem shortTail_eq_none_iff (isQuote : isQuote quote = true) :
    shortTail quote false text = none ↔ Unclosed (ClosesShort quote) text := by
  rw [shortTail_eq]
  exact tailLength_eq_none_iff (by simp) (by simp [ne_backslash_of_isQuote isQuote])

end Tails

def isLetters (letters : List Char) : Bool :=
  match letters.map Char.toLower with
  | [] => true
  | [a] => lettersBeforeQuote.contains a
  | [a, b] => pairsBeforeQuote.contains (a, b)
  | _ => false

/-- The text begins with three quotes, behind letters. -/
structure Tripled (text letters : List Char) (quote : Char) (behind : List Char) : Prop where
  isLetters : isLetters letters = true
  isQuote : isQuote quote = true
  eq : text = letters ++ quote :: quote :: quote :: behind

section Openings

variable {text letters behind : List Char} {quote : Char}

private theorem not_letter_of_isQuote (isQuote : isQuote quote = true) :
    lettersBeforeQuote.contains quote.toLower = false ∧
      ∀ c, pairsBeforeQuote.contains (quote.toLower, c) = false ∧
        pairsBeforeQuote.contains (c, quote.toLower) = false := by
  rw [Lexeme.isQuote, Bool.or_eq_true, beq_iff_eq, beq_iff_eq] at isQuote
  have lower : quote.toLower = quote := by rcases isQuote with rfl | rfl <;> rfl
  rw [lower]
  rcases isQuote with rfl | rfl <;>
    simp [lettersBeforeQuote, pairsBeforeQuote]

private theorem lettersLength_of_isLetters (isLetters : isLetters letters = true)
    (isQuote : isQuote quote = true) (rest : List Char) :
    lettersLength (letters ++ quote :: rest) = letters.length := by
  obtain ⟨noLetter, noPair⟩ := not_letter_of_isQuote isQuote
  match letters with
  | [] =>
    cases rest with
    | nil => rw [List.nil_append, lettersLength, noLetter, if_neg Bool.false_ne_true]; rfl
    | cons c rest =>
      rw [List.nil_append, lettersLength, noLetter, (noPair c.toLower).1,
        if_neg Bool.false_ne_true, if_neg Bool.false_ne_true]
      rfl
  | [a] =>
    have letter : lettersBeforeQuote.contains a.toLower = true := isLetters
    rw [List.singleton_append, lettersLength, (noPair a.toLower).2, letter,
      if_neg Bool.false_ne_true, if_pos rfl]
    rfl
  | [a, b] =>
    have pair : pairsBeforeQuote.contains (a.toLower, b.toLower) = true := isLetters
    rw [List.cons_append, List.singleton_append, lettersLength, pair, if_pos rfl]
    rfl
  | _ :: _ :: _ :: _ => cases isLetters

private theorem isCode_of_opening {c : Char}
    (opens : isQuote c = true ∨ lettersBeforeQuote.contains c.toLower = true) (rest : List Char) :
    IsCode (c :: rest) := by
  have apart : ∀ other ∈ [' ', '\t', '\x0c', '\r', '\n', '#', '\\'], c ≠ other := by
    rintro other member rfl
    simp only [List.mem_cons, List.not_mem_nil, or_false] at member
    rcases member with rfl | rfl | rfl | rfl | rfl | rfl | rfl <;> revert opens <;> decide
  simp only [List.forall_mem_cons] at apart
  rw [isCode_cons_iff]
  refine ⟨?_, ?_, apart.2.2.2.2.2.1, fun backslash => absurd backslash apart.2.2.2.2.2.2.1⟩
  · simp [isSpace, apart]
  · simp [isLineEnd, apart]

private theorem letter_of_isLetters (isLetters : isLetters letters = true) :
    ∀ c ∈ letters, lettersBeforeQuote.contains c.toLower = true := by
  have pairs : ∀ pair ∈ pairsBeforeQuote, lettersBeforeQuote.contains pair.1 = true ∧
      lettersBeforeQuote.contains pair.2 = true := by decide
  match letters with
  | [] => exact List.forall_mem_nil _
  | [a] => exact List.forall_mem_singleton.2 isLetters
  | [a, b] =>
    have pair : pairsBeforeQuote.contains (a.toLower, b.toLower) = true := isLetters
    obtain ⟨first, second⟩ := pairs _ (List.contains_iff_mem.1 pair)
    exact List.forall_mem_cons.2 ⟨first, List.forall_mem_singleton.2 second⟩
  | _ :: _ :: _ :: _ => cases isLetters

private theorem Tripled.isCode (tripled : Tripled text letters quote behind) : IsCode text := by
  have letter := letter_of_isLetters tripled.isLetters
  rw [tripled.eq]
  cases letters with
  | nil => exact isCode_of_opening (.inl tripled.isQuote) _
  | cons c more => exact isCode_of_opening (.inr (letter c List.mem_cons_self)) _

private theorem Tripled.row (tripled : Tripled text letters quote behind) :
    ∀ c ∈ letters ++ [quote, quote], isLineEnd c = false := by
  intro c member
  have opens : Lexeme.isQuote c = true ∨ lettersBeforeQuote.contains c.toLower = true := by
    rcases List.mem_append.1 member with letter | quotes
    · exact .inr (letter_of_isLetters tripled.isLetters c letter)
    · have same : c = quote := by simpa using quotes
      exact .inl (same ▸ tripled.isQuote)
  exact ((isCode_cons_iff c []).1 (isCode_of_opening opens [])).2.1

private theorem Tripled.first_eq (tripled : Tripled text letters quote behind) : first text =
    (.string, letters.length + ((longTail quote false behind).map (· + 3)).getD 2) := by
  have size := lettersLength_of_isLetters tripled.isLetters tripled.isQuote
    (quote :: quote :: behind)
  rw [← tripled.eq] at size
  have quotes : text.drop letters.length = quote :: quote :: quote :: behind := by
    rw [tripled.eq, List.drop_left]
  rw [first_string_iff tripled.isCode, string_eq, size, quotes, quoted_tripled tripled.isQuote]
  cases longTail quote false behind <;> simp

private theorem quoted_of_unclosed (isQuote : isQuote quote = true)
    (unclosed : longTail quote false behind = none) :
    quoted (quote :: behind) = ((shortTail quote false behind).map (· + 1)).getD 0 := by
  cases tripled : isTripled (quote :: behind) with
  | false => exact quoted_of_not_isTripled isQuote tripled
  | true =>
    rcases behind with - | ⟨second, - | ⟨third, more⟩⟩
    · cases tripled
    · cases tripled
    · simp only [isTripled, Bool.and_eq_true, beq_iff_eq] at tripled
      obtain ⟨⟨-, rfl⟩, rfl⟩ := tripled
      rw [quoted_tripled isQuote, shortTail_quote isQuote]
      have noEscape := ne_backslash_of_isQuote isQuote
      -- Neither of the two quotes closes, so the rest would have to.
      have inner : longTail quote false more = none := by
        simp only [longTail, if_neg noEscape] at unclosed
        split at unclosed
        · cases unclosed
        · rw [Option.map_eq_none_iff] at unclosed
          split at unclosed
          · cases unclosed
          · rwa [Option.map_eq_none_iff] at unclosed
      rw [inner]
      rfl

private theorem first_of_unclosed (isQuote : isQuote quote = true)
    (unclosed : longTail quote false behind = none) :
    first (quote :: behind) = match shortTail quote false behind with
      | some length => (.string, length + 1)
      | none => (.openQuote, openQuote (quote :: behind)) := by
  have size : lettersLength ([] ++ quote :: behind) = ([] : List Char).length :=
    lettersLength_of_isLetters rfl isQuote behind
  rw [List.nil_append, List.length_nil] at size
  have found : string (quote :: behind) = ((shortTail quote false behind).map (· + 1)).getD 0 := by
    rw [string_eq, size, List.drop_zero, quoted_of_unclosed isQuote unclosed, Nat.zero_add]
    split
    · next none => exact none.symm
    · rfl
  have opens : openQuote (quote :: behind) ≠ 0 := by
    rw [openQuote, size, List.drop_zero]
    simp only [isQuote, if_true]
    split <;> simp
  rw [first_of_isCode (isCode_of_opening (.inl isQuote) behind), found]
  cases shortTail quote false behind with
  | none => simp [opens]
  | some length => simp

variable {lexeme : Lexeme} {rest : List Lexeme}

private theorem Tripled.lexeme_cases
    (tripled : Tripled (textOf (lexeme :: rest)) letters quote behind)
    (reads : Reads (lexeme :: rest)) : lexeme.kind = .string ∧
      ((∃ tail, tail <+: behind ∧ ClosesLong quote tail ∧
        lexeme.text = letters ++ quote :: quote :: quote :: tail) ∨
      (Unclosed (ClosesLong quote) behind ∧ lexeme.text = letters ++ [quote, quote] ∧
        textOf rest = quote :: behind)) := by
  have read := reads.2.1
  have whole := tripled.eq
  rw [← textOf_cons, tripled.first_eq, Prod.mk.injEq] at read
  rw [textOf_cons] at whole
  obtain ⟨kind, length⟩ := read
  refine ⟨kind.symm, ?_⟩
  cases found : longTail quote false behind with
  | none =>
    rw [found] at length
    have pieces : lexeme.text ++ textOf rest = (letters ++ [quote, quote]) ++ quote :: behind := by
      rw [whole, List.append_assoc]
      rfl
    obtain ⟨text, others⟩ := List.append_inj pieces (by simpa using length.symm)
    exact .inr ⟨(longTail_eq_none_iff tripled.isQuote).1 found, text, others⟩
  | some size =>
    rw [found] at length
    have within := longTail_le_length behind found
    have pieces : lexeme.text ++ textOf rest =
        (letters ++ quote :: quote :: quote :: behind.take size) ++ behind.drop size := by
      rw [whole, List.append_assoc]
      simp
    have long : lexeme.text.length =
        (letters ++ quote :: quote :: quote :: behind.take size).length := by
      rw [← length]
      simp [Nat.min_eq_left within]
    rw [longTail_eq] at found
    exact .inl ⟨behind.take size, List.take_prefix _ _, closes_of_tailLength found,
      (List.append_inj pieces long).1⟩

private theorem second_cases (isQuote : isQuote quote = true)
    (unclosed : Unclosed (ClosesLong quote) behind) (reads : Reads (lexeme :: rest))
    (whole : textOf (lexeme :: rest) = quote :: behind) :
    (lexeme.kind = .string ∧
      ∃ tail, tail <+: behind ∧ ClosesShort quote tail ∧ lexeme.text = quote :: tail) ∨
    (lexeme.kind = .openQuote ∧ Unclosed (ClosesShort quote) behind) := by
  have read := reads.2.1
  rw [← textOf_cons, whole, first_of_unclosed isQuote ((longTail_eq_none_iff isQuote).2 unclosed)]
    at read
  rw [textOf_cons] at whole
  cases found : shortTail quote false behind with
  | none =>
    rw [found] at read
    exact .inr ⟨(Prod.mk.inj read).1.symm, (shortTail_eq_none_iff isQuote).1 found⟩
  | some size =>
    rw [found] at read
    obtain ⟨kind, length⟩ := Prod.mk.inj read
    have within := shortTail_le_length behind found
    have pieces : lexeme.text ++ textOf rest = (quote :: behind.take size) ++ behind.drop size := by
      rw [whole, List.cons_append, List.take_append_drop]
    have long : lexeme.text.length = (quote :: behind.take size).length := by
      rw [← length, List.length_cons, List.length_take, Nat.min_eq_left within]
    rw [shortTail_eq] at found
    exact .inl ⟨kind.symm, behind.take size, List.take_prefix _ _, closes_of_tailLength found,
      (List.append_inj pieces long).1⟩

end Openings

end Lexeme

namespace Layout

variable {text : List Char} {offset : Nat} {layout : Layout} {lexeme : Lexeme}
  {front rest lexemes : List Lexeme}

private theorem own_of_step {own : List Token} {next : Layout}
    (stepped : layout.step lexeme = .ok (own, next)) :
    own = [] ∨ ∃ (blocks : List Token) (settled : Layout),
      (∀ block ∈ blocks, block.isLayout = true) ∧ own = blocks ++ [layout.tokenFor lexeme] ∧
      next = settled.behind lexeme ∧ settled = { layout with blocks := settled.blocks } := by
  rcases step_eq_ok stepped with ⟨-, rfl, -⟩ | ⟨-, -, rfl, rfl⟩ |
    ⟨-, -, blocks, settled, settles, rfl, rfl⟩
  · exact .inl rfl
  · exact .inr ⟨[], layout, List.forall_mem_nil _, rfl, rfl, rfl⟩
  · exact .inr ⟨blocks, settled, isLayout_of_settle settles, rfl, rfl, settle_blocks settles⟩

private theorem kind_of_string (isString : (layout.tokenFor lexeme).kind = .string) :
    lexeme.kind = .string := by
  obtain ⟨kind, text⟩ := lexeme
  cases kind with
  | string => rfl
  | lineBreak =>
    simp only [tokenFor, lineBreak] at isString
    split at isString <;> cases isString
  | comment | space | continuation | openQuote | number | name | operator | stray => cases isString

private theorem eq_of_string {before more : List Token} {token : Token} {next : Layout}
    (stepped : layout.step lexeme = .ok (before ++ token :: more, next))
    (isString : token.kind = .string) :
    more = [] ∧ token = layout.tokenFor lexeme ∧ ∃ settled : Layout,
      next = settled.behind lexeme ∧ settled = { layout with blocks := settled.blocks } := by
  rcases own_of_step stepped with none | ⟨blocks, settled, isLayout, own, isNext, same⟩
  · simp at none
  · rcases List.eq_nil_or_concat more with rfl | ⟨others, last, rfl⟩
    · obtain ⟨-, isToken⟩ := List.append_inj' own rfl
      exact ⟨rfl, (List.cons.inj isToken).1, settled, isNext, same⟩
    · -- Blocks are no strings.
      have front : before ++ token :: others = blocks := by
        rw [List.concat_eq_append, ← List.cons_append, ← List.append_assoc] at own
        exact (List.append_inj' own rfl).1
      have block := isLayout token (by simp [← front])
      simp [Token.isLayout, isString] at block

namespace Reaches

private theorem of_string (reaches : Reaches text offset layout lexemes) {before after : List Token}
    {token : Token} (ran : layout.run lexemes = .ok (before ++ token :: after))
    (isString : token.kind = .string) :
    ∃ (place : Nat) (here next : Layout) (lexeme : Lexeme) (rest : List Lexeme),
      Reaches text place here (lexeme :: rest) ∧ token = here.tokenFor lexeme ∧
      next.cursor = token.stop ∧ next.atLineStart = false ∧ next.run rest = .ok after := by
  induction lexemes generalizing offset layout before with
  | nil =>
    obtain ⟨place, finished⟩ := finish_of_depth (depth_of_finish ran)
    have member : token ∈ before ++ token :: after := by simp
    rw [Except.ok.inj (ran.symm.trans finished), List.mem_append, List.mem_append,
      List.mem_singleton] at member
    rcases member with newline | dedent | rfl
    · split at newline
      · rw [List.mem_singleton.1 newline] at isString
        cases isString
      · cases newline
    · rw [List.eq_of_mem_replicate dedent] at isString
      cases isString
    · cases isString
  | cons lexeme rest ih =>
    cases stepped : layout.step lexeme with
    | error fault =>
      rw [run_of_error stepped] at ran
      cases ran
    | ok result =>
      obtain ⟨own, next⟩ := result
      have behind := reaches.step stepped
      rw [run_of_ok stepped, map_eq_ok] at ran
      obtain ⟨others, ranRest, joined⟩ := ran
      rcases List.append_eq_append_iff.1 joined with ⟨more, -, rfl⟩ | ⟨more, rfl, split⟩
      · exact ih behind ranRest
      · cases more with
        | nil =>
          have whole : others = [] ++ token :: after := split.symm
          rw [whole] at ranRest
          exact ih behind ranRest
        | cons first more =>
          obtain ⟨rfl, rfl⟩ := List.cons.inj split
          obtain ⟨rfl, rfl, settled, rfl, same⟩ := eq_of_string stepped isString
          refine ⟨offset, layout, _, lexeme, rest, reaches, rfl, ?_, ?_, ranRest⟩
          · have noBreak : (layout.tokenFor lexeme).isBreak = false := by
              simp [Token.isBreak, isString]
            rw [cursor_behind, same, tokenFor_blocks, Token.behind, noBreak]
            rfl
          · simp only [Layout.behind, kind_of_string isString]

private theorem run_append (reaches : Reaches text offset layout (front ++ rest)) :
    (∃ cause place, layout.run (front ++ rest) = .error (.lex cause place) ∧
      place < .inText text (offset + (Lexeme.textOf front).length)) ∨
    ∃ (own : List Token) (next : Layout),
      Reaches text (offset + (Lexeme.textOf front).length) next rest ∧
      layout.run (front ++ rest) = (next.run rest).map (own ++ ·) := by
  induction front generalizing offset layout with
  | nil =>
    refine .inr ⟨[], layout, reaches, ?_⟩
    show layout.run rest = (layout.run rest).map id
    cases layout.run rest <;> rfl
  | cons lexeme front ih =>
    have size : offset + (Lexeme.textOf (lexeme :: front)).length =
        offset + lexeme.text.length + (Lexeme.textOf front).length := by
      rw [Lexeme.textOf_cons, List.length_append, Nat.add_assoc]
    rw [List.cons_append, size]
    cases stepped : layout.step lexeme with
    | error fault =>
      have filled : 0 < lexeme.text.length := List.length_pos_of_ne_nil reaches.reads.1
      have place : layout.cursor < .inText text
          (offset + lexeme.text.length + (Lexeme.textOf front).length) := by
        rw [reaches.cursor]
        exact Position.inText_lt text (by omega)
      rw [run_of_error stepped]
      rcases step_eq_error stepped with ⟨-, rfl⟩ | ⟨-, -, rfl⟩
      · exact .inl ⟨_, _, rfl, place⟩
      · exact .inl ⟨_, _, rfl, place⟩
    | ok result =>
      obtain ⟨own, next⟩ := result
      rw [run_of_ok stepped]
      rcases ih (reaches.step stepped) with ⟨cause, place, failed, before⟩ |
        ⟨others, after, reached, ran⟩
      · refine .inl ⟨cause, place, ?_, before⟩
        rw [failed]
        rfl
      · refine .inr ⟨own ++ others, after, reached, ?_⟩
        rw [ran]
        cases after.run rest with
        | error fault => rfl
        | ok tokens => exact congrArg Except.ok (List.append_assoc own others tokens).symm

end Reaches

end Layout

/-- What a string token at three quotes is, `after` being the tokens behind it. -/
inductive Token.AtTripled (letters : List Char) (quote : Char) (behind : List Char) (token : Token) :
    (after : List Token) → Prop
  /-- A whole long string. -/
  | long {after : List Token} {tail : List Char} :
      tail <+: behind → Lexeme.ClosesLong quote tail →
      token.text.toList = letters ++ quote :: quote :: quote :: tail →
      AtTripled letters quote behind token after
  /-- Quotes that are never closed: two of them, and directly behind them a short string that the
  third opens. -/
  | parted {next : Token} {others : List Token} {tail : List Char} :
      Lexeme.Unclosed (Lexeme.ClosesLong quote) behind →
      token.text.toList = letters ++ [quote, quote] →
      next.kind = .string → next.start = token.stop →
      tail <+: behind → Lexeme.ClosesShort quote tail → next.text.toList = quote :: tail →
      AtTripled letters quote behind token (next :: others)

section Source

variable {source : String} {offset : Nat} {letters behind : List Char} {quote : Char}

private theorem reaches_initial (source : String) :
    Layout.Reaches source.toList 0 {} (Lexeme.split source.toList) where
  reads := Lexeme.reads_split _
  behind := (Lexeme.flatMap_text_split source.toList).symm
  cursor := rfl

private theorem atTripled_of_string
    (tripled : Lexeme.Tripled (source.toList.drop offset) letters quote behind)
    {before after : List Token} {token : Token}
    (tokenized : tokenize source = .ok (before ++ token :: after)) (isString : token.kind = .string)
    (start : token.start = .inText source.toList offset) :
    token.AtTripled letters quote behind after := by
  obtain ⟨place, here, next, lexeme, rest, reached, rfl, cursor, inLine, ranRest⟩ :=
    (reaches_initial source).of_string tokenized isString
  rw [Layout.start_tokenFor, reached.cursor] at start
  obtain rfl := Position.inText_inj start
  rw [reached.behind] at tripled
  have tokenText : (here.tokenFor lexeme).text.toList = lexeme.text := by
    rw [Layout.text_tokenFor, String.toList_ofList]
  obtain ⟨-, ⟨tail, begins, closes, text⟩ | ⟨unclosed, text, third⟩⟩ :=
    tripled.lexeme_cases reached.reads
  · exact .long begins closes (tokenText.trans text)
  · cases rest with
    | nil => cases third
    | cons second more =>
      rcases Lexeme.second_cases tripled.isQuote unclosed reached.reads.2.2 third with
        ⟨kind, tail, begins, closes, secondText⟩ | ⟨kind, -⟩
      · have noGap : second.kind ≠ .space ∧ second.kind ≠ .continuation := by simp [kind]
        obtain ⟨-, ⟨-, others, rfl, -⟩ | ⟨fresh, -⟩⟩ :=
          Layout.run_cons_eq_ok noGap.1 noGap.2 ranRest
        · refine .parted unclosed (tokenText.trans text) ?_ ?_ begins closes ?_
          · simp [Layout.tokenFor, kind, Layout.tokenAt, Layout.codeKind]
          · rw [Layout.start_tokenFor, cursor]
          · rw [Layout.text_tokenFor, String.toList_ofList, secondText]
        · rw [inLine] at fresh
          cases fresh
      · have failed : next.step second = .error (.lex .unterminatedString next.cursor) := by
          simp only [Layout.step, kind]
        rw [Layout.run_of_error failed] at ranRest
        cases ranRest

/-- Three quotes none of which is closed fail: at the first if it begins a line that returns to no
open width, and else at the third. -/
private theorem Layout.Reaches.run_tripled {text : List Char} {layout : Layout}
    {lexemes : List Lexeme} (reaches : Layout.Reaches text offset layout lexemes)
    (tripled : Lexeme.Tripled (text.drop offset) letters quote behind)
    (unclosed : Lexeme.Unclosed (Lexeme.ClosesLong quote) behind)
    (unclosedShort : Lexeme.Unclosed (Lexeme.ClosesShort quote) behind) :
    layout.run lexemes = .error (.lex .unmatchedUnindent (.inText text offset)) ∨
      layout.run lexemes = .error (.lex .unterminatedString
        ((Position.inText text offset).right (letters.length + 2))) := by
  rw [reaches.behind] at tripled
  cases lexemes with
  | nil =>
    have empty := tripled.eq
    simp at empty
  | cons lexeme rest =>
    obtain ⟨kind, ⟨tail, begins, closes, -⟩ | ⟨-, lexemeText, third⟩⟩ :=
      tripled.lexeme_cases reaches.reads
    · exact absurd closes (unclosed tail begins)
    · have noQuote : lexeme.kind ≠ .openQuote := by simp [kind]
      cases stepped : layout.step lexeme with
      | error fault =>
        rcases step_eq_error stepped with ⟨quotes, -⟩ | ⟨-, -, rfl⟩
        · exact absurd quotes noQuote
        · left
          rw [run_of_error stepped, reaches.cursor]
      | ok result =>
        obtain ⟨own, next⟩ := result
        have reachesThird := reaches.step stepped
        have place : next.cursor = (Position.inText text offset).right (letters.length + 2) := by
          rw [reachesThird.cursor,
            ← Position.advance_inText reaches.behind (reaches.reads.whole noQuote), lexemeText,
            Position.advance_of_row tripled.row, List.length_append]
          rfl
        cases rest with
        | nil => cases third
        | cons second others =>
          rcases Lexeme.second_cases tripled.isQuote unclosed reachesThird.reads third with
            ⟨-, tail, begins, closes, -⟩ | ⟨quotes, -⟩
          · exact absurd closes (unclosedShort tail begins)
          · right
            have failed : next.step second = .error (.lex .unterminatedString next.cursor) := by
              simp only [Layout.step, quotes]
            rw [run_of_ok stepped, run_of_error failed, place]
            rfl

/-- Three quotes behind letters, where a string token or a lexeme begins. A token there is a whole
long string, or the quotes are never closed; then it is an empty string, and the third quote opens
a short one directly behind it. Where that is not closed on its row either there are no tokens, and
the fault is at the third quote, if none comes before it. -/
theorem tokenize_tripled
    (tripled : Lexeme.Tripled (source.toList.drop offset) letters quote behind) :
    (∀ before token after, tokenize source = .ok (before ++ token :: after) →
      token.kind = .string → token.start = .inText source.toList offset →
      token.AtTripled letters quote behind after) ∧
    (∀ front rest, Lexeme.split source.toList = front ++ rest →
      (Lexeme.textOf front).length = offset →
      Lexeme.Unclosed (Lexeme.ClosesLong quote) behind →
      Lexeme.Unclosed (Lexeme.ClosesShort quote) behind →
      ∃ cause place, tokenize source = .error (.lex cause place) ∧
        (place < .inText source.toList offset ∨
          (place = .inText source.toList offset ∧ cause = .unmatchedUnindent) ∨
          (place = (Position.inText source.toList offset).right (letters.length + 2) ∧
            cause = .unterminatedString))) := by
  refine ⟨fun _ _ _ => atTripled_of_string tripled, ?_⟩
  intro front rest splits reached unclosed unclosedShort
  have reaches := reaches_initial source
  rw [splits] at reaches
  rw [tokenize, splits]
  rcases reaches.run_append with ⟨cause, place, failed, before⟩ | ⟨own, here, reachesHere, ran⟩
  · rw [Nat.zero_add, reached] at before
    exact ⟨cause, place, failed, .inl before⟩
  · rw [Nat.zero_add, reached] at reachesHere
    rw [ran]
    rcases reachesHere.run_tripled tripled unclosed unclosedShort with failed | failed
    · exact ⟨_, _, by rw [failed]; rfl, .inr (.inl ⟨rfl, rfl⟩)⟩
    · exact ⟨_, _, by rw [failed]; rfl, .inr (.inr ⟨rfl, rfl⟩)⟩

end Source

def silentSource : String := "x = \"\"\"abc\"\n"

def lateSource : String := "x = rb'''abc\n"

theorem tokenize_tripled_unclosed :
    (∃ before token after, tokenize silentSource = .ok (before ++ token :: after) ∧
      token.kind = .string ∧ token.start = .inText silentSource.toList 4 ∧ token.text = "\"\"" ∧
      token.AtTripled [] '"' "abc\"\n".toList after) ∧
    tokenize lateSource =
      .error (.lex .unterminatedString ((Position.inText lateSource.toList 4).right 4)) := by
  constructor
  · let token : Token := ⟨.string, "\"\"", ⟨1, 4⟩, ⟨1, 6⟩⟩
    let after : List Token := [⟨.string, "\"abc\"", ⟨1, 6⟩, ⟨1, 11⟩⟩,
      ⟨.newline, "\n", ⟨1, 11⟩, ⟨1, 12⟩⟩, ⟨.endMarker, "", ⟨2, 0⟩, ⟨2, 0⟩⟩]
    have tokenized : tokenize silentSource =
        .ok ([⟨.name, "x", ⟨1, 0⟩, ⟨1, 1⟩⟩, ⟨.op, "=", ⟨1, 2⟩, ⟨1, 3⟩⟩] ++ token :: after) := by
      decide +kernel
    have start : token.start = .inText silentSource.toList 4 := by decide +kernel
    have tripled : Lexeme.Tripled (silentSource.toList.drop 4) [] '"' "abc\"\n".toList :=
      ⟨rfl, rfl, by decide +kernel⟩
    exact ⟨_, token, after, tokenized, rfl, start, rfl,
      (tokenize_tripled tripled).1 _ token after tokenized rfl start⟩
  · have tripled : Lexeme.Tripled (lateSource.toList.drop 4) ['r', 'b'] '\'' "abc\n".toList :=
      ⟨rfl, rfl, by decide +kernel⟩
    have splits := (List.take_append_drop 4 (Lexeme.split lateSource.toList)).symm
    obtain ⟨cause, place, failed, fault⟩ := (tokenize_tripled tripled).2 _ _ splits
      (by decide +kernel) ((Lexeme.longTail_eq_none_iff rfl).1 (by decide +kernel))
      ((Lexeme.shortTail_eq_none_iff rfl).1 (by decide +kernel))
    have evaluated : tokenize lateSource = .error (.lex .unterminatedString ⟨1, 8⟩) := by
      decide +kernel
    rw [evaluated] at failed
    cases failed
    rcases fault with before | ⟨-, ⟨⟩⟩ | ⟨place, -⟩
    · exact absurd before (by decide +kernel)
    · rw [evaluated, place]
      rfl

end DeferredDefaults
