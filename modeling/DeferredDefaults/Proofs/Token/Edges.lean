import DeferredDefaults.Options
import DeferredDefaults.Proofs.Sigil.MarkedText
import DeferredDefaults.Proofs.Text.Fragments

/-!
The ends of lexemes. Names and comments may end with the beginning of the marker, but what follows
them directly does not go on with it; all other lexemes end otherwise.
-/

set_option autoImplicit false
set_option relaxedAutoImplicit false

namespace DeferredDefaults

/-- The text of the marker, unless options choose another. -/
def markerText : List Char := ({} : Options).markerName.toList

open Text (Sealed Blunt)

namespace Lexeme

theorem rule_of_first {text : List Char} {kind : Kind} {length : Nat}
    (read : first text = (kind, length)) :
    (∃ rule ∈ rules, rule.1 = kind ∧ rule.2 text = length) ∨
      (kind = .stray ∧ length = 1 ∧ ∀ rule ∈ rules, rule.2 text = 0) := by
  unfold first at read
  split at read
  · next rule found =>
    cases read
    exact .inl ⟨rule, List.mem_of_find?_eq_some found, rfl, rfl⟩
  · next none =>
    cases read
    refine .inr ⟨rfl, rfl, fun rule member => ?_⟩
    simpa using List.find?_eq_none.1 none rule member

private theorem length_of_first {text : List Char} {kind : Kind} {length : Nat}
    (read : first text = (kind, length)) :
    (kind = .name → name text = length) ∧ (kind = .operator → operator text = length) := by
  rcases rule_of_first read with ⟨rule, member, rfl, same⟩ | ⟨rfl, -⟩
  · simp only [rules, List.mem_cons, List.not_mem_nil, or_false] at member
    rcases member with rfl | rfl | rfl | rfl | rfl | rfl | rfl | rfl | rfl
    all_goals
      constructor
      · first | exact fun _ => same | rintro ⟨⟩
      · first | exact fun _ => same | rintro ⟨⟩
  · exact ⟨by rintro ⟨⟩, by rintro ⟨⟩⟩

theorem isIdentifier_of_first {text rest : List Char} (nonempty : text ≠ [])
    (read : first (text ++ rest) = (.name, text.length)) :
    Text.Identifier.isIdentifier text = true := by
  have length := (length_of_first read).1 rfl
  obtain ⟨c, more, rfl⟩ := List.exists_cons_of_ne_nil nonempty
  rw [List.cons_append, name] at length
  split at length
  · next opens =>
    have all : ((more ++ rest).takeWhile Text.Identifier.isInner).length = more.length := by
      rw [List.length_cons] at length
      omega
    rw [Text.Identifier.isIdentifier, opens, (length_takeWhile_append_iff.1 all).1]
    rfl
  · cases length

theorem mem_operators_of_first {text rest : List Char} (nonempty : text ≠ [])
    (read : first (text ++ rest) = (.operator, text.length)) :
    ∃ op ∈ operators, text = op.toList := by
  have length := (length_of_first read).2 rfl
  rw [operator] at length
  split at length
  · next op found =>
    have begins := List.find?_some found
    rw [List.isPrefixOf_iff_prefix, List.prefix_iff_eq_take, length, List.take_left] at begins
    exact ⟨op, List.mem_of_find?_eq_some found, begins.symm⟩
  · exact absurd (List.eq_nil_of_length_eq_zero length.symm) nonempty

/-- What a number may hold: no `P`, and no underscore at its end. -/
structure IsNumeric (text : List Char) : Prop where
  noLetter : 'P' ∉ text
  noUnderscore : text.getLast? ≠ some '_'

private theorem IsNumeric.append {front back : List Char} (first : IsNumeric front)
    (second : IsNumeric back) : IsNumeric (front ++ back) := by
  refine ⟨by simp [first.noLetter, second.noLetter], ?_⟩
  by_cases empty : back = []
  · rw [empty, List.append_nil]
    exact first.noUnderscore
  · rw [List.getLast?_append_of_ne_nil _ empty]
    exact second.noUnderscore

private theorem isNumeric_nil : IsNumeric [] := ⟨by simp, by simp⟩

private theorem isNumeric_singleton {c : Char} (noLetter : c ≠ 'P') (noUnderscore : c ≠ '_') :
    IsNumeric [c] := ⟨by simpa using noLetter.symm, by simpa using noUnderscore⟩

private theorem IsNumeric.take_add {text : List Char} {count more : Nat}
    (first : IsNumeric (text.take count)) (second : IsNumeric ((text.drop count).take more)) :
    IsNumeric (text.take (count + more)) := by
  rw [List.take_add]
  exact first.append second

section Numbers

private theorem isNumeric_digitGroups {isDigit : Char → Bool} (letter : isDigit 'P' = false)
    (underscore : isDigit '_' = false) (text : List Char) :
    IsNumeric (text.take (digitGroups isDigit text)) := by
  have digit : ∀ {c : Char}, isDigit c = true → c ≠ 'P' ∧ c ≠ '_' := by
    intro c holds
    constructor <;> rintro rfl <;> simp_all
  fun_induction digitGroups isDigit text with
  | case1 c rest holds ih =>
    have pair : IsNumeric ['_', c] := by
      refine ⟨?_, by simpa using (digit holds).2⟩
      simpa using (digit holds).1.symm
    exact pair.append ih
  | case2 c rest fails => exact isNumeric_nil
  | case3 c rest _ holds ih =>
    exact (isNumeric_singleton (digit holds).1 (digit holds).2).append ih
  | case4 c rest _ fails => exact isNumeric_nil
  | case5 => exact isNumeric_nil

private theorem isNumeric_decimalDigits (text : List Char) :
    IsNumeric (text.take (decimalDigits text)) := by
  cases text with
  | nil => exact isNumeric_nil
  | cons c rest =>
    simp only [decimalDigits]
    split
    · next holds =>
      have digit : c ≠ 'P' ∧ c ≠ '_' := by
        constructor <;> rintro rfl <;> cases holds
      rw [List.take_succ_cons]
      exact (isNumeric_singleton digit.1 digit.2).append
        (isNumeric_digitGroups (by decide) (by decide) rest)
    · exact isNumeric_nil

private theorem isNumeric_radixNumber (text : List Char) :
    IsNumeric (text.take (radixNumber text)) := by
  unfold radixNumber
  split
  · next letter rest =>
    split
    · exact isNumeric_nil
    · next isDigit radix =>
      have shape : letter ≠ 'P' ∧ letter ≠ '_' ∧ isDigit 'P' = false ∧ isDigit '_' = false := by
        refine ⟨?_, ?_, ?_⟩
        · rintro rfl
          cases radix
        · rintro rfl
          cases radix
        · unfold radixDigits at radix
          split at radix <;> cases radix <;> decide
      have groups := isNumeric_digitGroups shape.2.2.1 shape.2.2.2 rest
      split
      · exact isNumeric_nil
      · next length found =>
        rw [found] at groups
        have front := (isNumeric_singleton (by decide) (by decide) : IsNumeric ['0']).append
          (isNumeric_singleton shape.1 shape.2.1)
        exact front.append groups
  · exact isNumeric_nil

private theorem isNumeric_exponent (text : List Char) : IsNumeric (text.take (exponent text)) := by
  cases text with
  | nil => exact isNumeric_nil
  | cons letter rest =>
    -- The sign, if there is one, belongs to the digits behind it.
    have scaled : ∀ sign length : Nat, IsNumeric (rest.take sign) →
        (letter = 'e' ∨ letter = 'E') → decimalDigits (rest.drop sign) = length + 1 →
        IsNumeric ((letter :: rest).take (sign + length + 2)) := by
      intro sign length signed isLetter found
      have front : IsNumeric [letter] := by
        rcases isLetter with rfl | rfl <;> exact isNumeric_singleton (by decide) (by decide)
      have digits := isNumeric_decimalDigits (rest.drop sign)
      rw [found] at digits
      exact front.append (signed.take_add digits)
    simp only [exponent]
    split
    · next isLetter =>
      split
      · exact isNumeric_nil
      · next length found =>
        refine scaled _ length ?_ isLetter found
        split
        · next c more =>
          split
          · next sign =>
            rcases sign with rfl | rfl <;> exact isNumeric_singleton (by decide) (by decide)
          · exact isNumeric_nil
        · exact isNumeric_nil
    · exact isNumeric_nil

private theorem isNumeric_fraction (whole : Nat) (text : List Char) :
    IsNumeric (text.take (fraction whole text)) := by
  unfold fraction
  split
  · exact isNumeric_nil
  · next rest point =>
    split
    · exact isNumeric_nil
    · unfold afterPoint? at point
      split at point
      · cases point
        exact (isNumeric_singleton (by decide) (by decide) : IsNumeric ['.']).append
          (isNumeric_decimalDigits rest)
      · cases point

private theorem isNumeric_imaginary (text : List Char) :
    IsNumeric (text.take (imaginary text)) := by
  unfold imaginary
  split
  · next letter =>
    cases text with
    | nil => cases letter
    | cons c rest =>
      simp only [List.head?_cons, Option.any_some, Bool.or_eq_true, beq_iff_eq] at letter
      rcases letter with rfl | rfl <;> exact isNumeric_singleton (by decide) (by decide)
  · exact isNumeric_nil

private theorem isNumeric_number (text : List Char) : IsNumeric (text.take (number text)) := by
  have radix := isNumeric_radixNumber text
  unfold number
  split
  · rw [decimalNumber_eq]
    split
    · exact isNumeric_nil
    · have mantissa : IsNumeric (text.take (mantissa text)) := by
        rw [mantissa_eq]
        exact (isNumeric_decimalDigits text).take_add (isNumeric_fraction _ _)
      exact (mantissa.take_add (isNumeric_exponent _)).take_add (isNumeric_imaginary _)
  · next length found =>
    rw [found] at radix
    exact radix

end Numbers

section Strings

variable {quote : Char} {escaped : Bool} {text : List Char} {length : Nat}

private theorem getLast?_cons_of_some {c last : Char} (found : text.getLast? = some last) :
    (c :: text).getLast? = some last := by
  rw [List.getLast?_cons, found]
  rfl

private theorem getLast?_longTail (found : longTail quote escaped text = some length) :
    (text.take length).getLast? = some quote := by
  fun_induction longTail quote escaped text generalizing length with
  | case1 => cases found
  | case2 c rest ih =>
    obtain ⟨shorter, tail, rfl⟩ := Option.map_eq_some_iff.1 found
    exact getLast?_cons_of_some (ih tail)
  | case3 rest ih =>
    obtain ⟨shorter, tail, rfl⟩ := Option.map_eq_some_iff.1 found
    exact getLast?_cons_of_some (ih tail)
  | case4 c rest noEscape closes =>
    cases found
    obtain ⟨behind, whole⟩ := List.isPrefixOf_iff_prefix.1 closes
    rw [← whole]
    rfl
  | case5 c rest noEscape open_ ih =>
    obtain ⟨shorter, tail, rfl⟩ := Option.map_eq_some_iff.1 found
    exact getLast?_cons_of_some (ih tail)

private theorem getLast?_shortTail (found : shortTail quote escaped text = some length) :
    (text.take length).getLast? = some quote := by
  fun_induction shortTail quote escaped text generalizing length with
  | case1 => cases found
  | case2 c rest ih =>
    obtain ⟨shorter, tail, rfl⟩ := Option.map_eq_some_iff.1 found
    exact getLast?_cons_of_some (ih tail)
  | case3 rest ih =>
    obtain ⟨shorter, tail, rfl⟩ := Option.map_eq_some_iff.1 found
    exact getLast?_cons_of_some (ih tail)
  | case4 rest =>
    cases found
    rfl
  | case5 => cases found
  | case6 c rest noEscape open_ within ih =>
    obtain ⟨shorter, tail, rfl⟩ := Option.map_eq_some_iff.1 found
    exact getLast?_cons_of_some (ih tail)

private theorem getLast?_quoted (found : quoted text ≠ 0) :
    ∃ quote, (text.take (quoted text)).getLast? = some quote ∧ isQuote quote = true := by
  cases text with
  | nil => exact absurd rfl found
  | cons quote rest =>
    simp only [quoted] at found ⊢
    by_cases isQuote : isQuote quote = true
    · refine ⟨quote, ?_, isQuote⟩
      rw [if_pos isQuote] at found ⊢
      split
      · next length long =>
        split at long
        · next tripled =>
          rcases rest with - | ⟨second, - | ⟨third, more⟩⟩
          · cases tripled
          · cases tripled
          · exact getLast?_cons_of_some (getLast?_cons_of_some
              (getLast?_cons_of_some (getLast?_longTail long)))
        · cases long
      · next long =>
        rw [long] at found
        cases short : shortTail quote false rest with
        | none => simp [short] at found
        | some length => exact getLast?_cons_of_some (getLast?_shortTail short)
    · rw [if_neg isQuote] at found
      exact absurd rfl found

theorem getLast?_string (found : string text ≠ 0) :
    ∃ quote, (text.take (string text)).getLast? = some quote ∧ isQuote quote = true := by
  rw [string_eq] at found ⊢
  split at found
  · exact absurd rfl found
  · next some =>
    obtain ⟨quote, last, isQuote⟩ := getLast?_quoted some
    refine ⟨quote, ?_, isQuote⟩
    rw [if_neg some, List.take_add, List.getLast?_append, last]
    rfl

end Strings

private theorem isInner_of_mem_markerText : ∀ c ∈ markerText, Text.Identifier.isInner c = true := by
  decide +kernel

theorem not_mem_markerText {c : Char} (outside : Text.Identifier.isInner c = false) :
    c ∉ markerText := by
  intro member
  rw [isInner_of_mem_markerText c member] at outside
  cases outside

private theorem sealed_of_isNumeric {text : List Char} (numeric : IsNumeric text) :
    Sealed markerText text := by
  rintro piece some begins ⟨rest, rfl⟩
  match piece, begins with
  | [], _ => exact some rfl
  | [c], begins =>
    have underscore : c = '_' := (List.cons_prefix_cons.1 begins).1
    apply numeric.noUnderscore
    rw [List.getLast?_append_of_ne_nil _ some, underscore]
    rfl
  | _ :: d :: _, begins =>
    have letter : d = 'P' := (List.cons_prefix_cons.1 (List.cons_prefix_cons.1 begins).2).1
    apply numeric.noLetter
    rw [letter]
    simp

private theorem number_of_isDigit {c : Char} (digit : c.isDigit = true) (rest : List Char) :
    number (c :: rest) ≠ 0 := by
  have digits : decimalDigits (c :: rest) ≠ 0 := by simp [decimalDigits, digit]
  unfold number
  split
  · rw [decimalNumber_eq]
    have mantissa : mantissa (c :: rest) ≠ 0 := by
      rw [mantissa_eq]
      omega
    rw [if_neg mantissa]
    omega
  · simp

private theorem begins_of_mem_markerText : ∀ c ∈ markerText,
    (Text.Identifier.isStart c || c == '_') = true ∨ c.isDigit = true := by
  decide +kernel

private theorem not_mem_markerText_of_operator :
    ∀ op ∈ operators, ∀ c ∈ op.toList.getLast?, c ∉ markerText := by
  decide +kernel

def Kind.isOpen : Kind → Bool
  | .name | .comment => true
  | _ => false

/-- A lexeme that is neither a name nor a comment does not end with the beginning of the marker. -/
theorem sealed_of_reads {lexeme : Lexeme} {rest : List Lexeme} (reads : Reads (lexeme :: rest))
    (hasToken : lexeme.kind.hasToken = true) (closed : lexeme.kind.isOpen = false) :
    Sealed markerText lexeme.text := by
  obtain ⟨kind, text⟩ := lexeme
  obtain ⟨nonempty, read, _⟩ := reads
  simp only at nonempty read closed hasToken
  have whole : (text ++ textOf rest).take text.length = text := List.take_left
  rcases rule_of_first read with ⟨rule, member, rfl, length⟩ | ⟨rfl, none⟩
  · simp only [rules, List.mem_cons, List.not_mem_nil, or_false] at member
    rcases member with rfl | rfl | rfl | rfl | rfl | rfl | rfl | rfl | rfl
    · cases hasToken
    · have isBreak := ((first_lineBreak_iff nonempty).1 read).1
      apply Text.sealed_of_getLast?
      simp only [breaks, List.mem_cons, List.not_mem_nil, or_false] at isBreak
      rcases isBreak with rfl | rfl | rfl <;> decide +kernel
    · cases hasToken
    · cases closed
    · have some : string (text ++ textOf rest) ≠ 0 := by
        simp only at length
        rw [length]
        simpa using nonempty
      obtain ⟨quote, last, isQuote⟩ := getLast?_string some
      simp only at length
      rw [length, whole] at last
      apply Text.sealed_of_getLast?
      rw [last]
      rintro c ⟨⟩ member
      rw [(Text.Identifier.plain_of_isInner (isInner_of_mem_markerText quote member)).1] at isQuote
      cases isQuote
    · cases hasToken
    · have numeric := isNumeric_number (text ++ textOf rest)
      simp only at length
      rw [length, whole] at numeric
      exact sealed_of_isNumeric numeric
    · cases closed
    · obtain ⟨op, member, rfl⟩ := mem_operators_of_first nonempty read
      exact Text.sealed_of_getLast? (not_mem_markerText_of_operator op member)
  · obtain ⟨length, none⟩ := none
    obtain ⟨c, rfl⟩ := List.length_eq_one_iff.1 length
    apply Text.sealed_of_getLast?
    rintro _ ⟨⟩ member
    rcases begins_of_mem_markerText c member with opens | digit
    · have noName := none (.name, name) (by simp [rules])
      simp [name, opens] at noName
    · have noNumber := none (.number, number) (by simp [rules])
      exact number_of_isDigit digit _ noNumber

end Lexeme

end DeferredDefaults
