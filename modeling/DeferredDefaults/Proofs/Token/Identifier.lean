import DeferredDefaults.Proofs.Token.Reading

/-!
Identifiers are read as names, whatever follows them, unless it goes on with the name or opens a
string.
-/

set_option autoImplicit false
set_option relaxedAutoImplicit false

namespace DeferredDefaults

namespace Text.Identifier

def isIdentifier : List Char → Bool
  | [] => false
  | c :: rest => (isStart c || c == '_') && rest.all isInner

private theorem isInner_of_opens {c : Char} (opens : (isStart c || c == '_') = true) :
    isInner c = true := by
  rw [Bool.or_eq_true, beq_iff_eq] at opens
  rcases opens with start | rfl
  · exact isInner_of_isStart start
  · rfl

theorem isInner_of_isIdentifier {text : List Char} (identifier : isIdentifier text = true) :
    ∀ c ∈ text, isInner c = true := by
  cases text with
  | nil => simp
  | cons c rest =>
    rw [isIdentifier, Bool.and_eq_true] at identifier
    rw [List.forall_mem_cons]
    exact ⟨isInner_of_opens identifier.1, List.all_eq_true.1 identifier.2⟩

theorem plain_of_isInner {c : Char} (inner : isInner c = true) :
    Lexeme.isQuote c = false ∧ c ≠ '\\' := by
  constructor
  · rw [← Bool.not_eq_true]
    intro quote
    simp only [Lexeme.isQuote, Bool.or_eq_true, beq_iff_eq] at quote
    rcases quote with rfl | rfl <;> cases inner
  · rintro rfl
    cases inner

end Text.Identifier

namespace Lexeme

open Text.Identifier

private theorem not_isDigit_of_opens {c : Char} (opens : (isStart c || c == '_') = true) :
    c.isDigit = false := by
  rw [← Bool.not_eq_true]
  intro digit
  simp only [Char.isDigit, Bool.and_eq_true, decide_eq_true_eq, UInt32.le_iff_toNat_le, ge_iff_le]
    at digit
  have code : c.toNat = c.val.toNat := rfl
  have nine : '9'.val.toNat = 57 := rfl
  rw [Bool.or_eq_true, beq_iff_eq] at opens
  rcases opens with start | rfl
  · rw [isStart, if_pos (by omega)] at start
    delta Char.isAlpha Char.isUpper Char.isLower at start
    simp only [Bool.or_eq_true, Bool.and_eq_true, decide_eq_true_eq, UInt32.le_iff_toNat_le,
      ge_iff_le] at start
    have upper : 'A'.val.toNat = 65 := rfl
    have lower : 'a'.val.toNat = 97 := rfl
    omega
  · exact absurd digit.2 (by decide)

section Opens

variable {c : Char} (opens : (isStart c || c == '_') = true) (rest : List Char)
include opens

private theorem ne_of_opens (other : Char) (closed : (isStart other || other == '_') = false) :
    c ≠ other := by
  rintro rfl
  rw [opens] at closed
  cases closed

private theorem isCode_of_opens : IsCode (c :: rest) := by
  rw [isCode_cons_iff]
  refine ⟨?_, ?_, ne_of_opens opens '#' rfl,
    fun backslash => absurd backslash (ne_of_opens opens '\\' rfl)⟩
  · simp [isSpace, ne_of_opens opens ' ' rfl, ne_of_opens opens '\t' rfl,
      ne_of_opens opens '\x0c' rfl]
  · simp [isLineEnd, ne_of_opens opens '\r' rfl, ne_of_opens opens '\n' rfl]

private theorem number_of_opens : number (c :: rest) = 0 := by
  have radix : radixNumber (c :: rest) = 0 := by
    unfold radixNumber
    split
    · next heads => exact absurd (List.cons.inj heads).1 (ne_of_opens opens '0' rfl)
    · rfl
  have digits : decimalDigits (c :: rest) = 0 := by
    simp [decimalDigits, not_isDigit_of_opens opens]
  have main : mantissa (c :: rest) = 0 := by
    simp only [mantissa, digits]
    split
    · next heads => exact absurd (List.cons.inj heads).1 (ne_of_opens opens '.' rfl)
    · rfl
  simp only [number, radix, decimalNumber, main]

end Opens

private theorem isInner_of_toLower {c : Char} (letter : c.toLower = 'b' ∨ c.toLower = 'r' ∨
    c.toLower = 'f') : isInner c = true := by
  unfold Char.toLower at letter
  split at letter
  · next upper =>
    have bound : c.toNat ≤ 'Z'.toNat := upper.2
    have value : 'Z'.toNat = 90 := rfl
    have isAlpha : c.isAlpha = true := by
      delta Char.isAlpha Char.isUpper
      rw [decide_eq_true upper, Bool.true_or]
    rw [isInner, if_pos (by omega)]
    simp [Char.isAlphanum, isAlpha]
  · rcases letter with rfl | rfl | rfl <;> rfl

section Ends

variable {text rest : List Char} (identifier : isIdentifier text = true)
  (ends : ∀ c ∈ rest.head?, isInner c = false ∧ isQuote c = false)
include identifier ends

private theorem lettersLength_of_isIdentifier : lettersLength (text ++ rest) ≤ text.length := by
  match text, rest with
  | [], _ => cases identifier
  | [c], [] =>
    simp only [List.append_nil, lettersLength]
    split <;> simp
  | [c], d :: others =>
    have outer : isInner d = false := (ends d rfl).1
    have noPair : pairsBeforeQuote.contains (c.toLower, d.toLower) = false := by
      rw [← Bool.not_eq_true]
      intro pair
      simp only [pairsBeforeQuote, List.contains_cons, List.contains_nil, Bool.or_eq_true,
        beq_iff_eq, Prod.mk.injEq, Bool.false_eq_true, or_false] at pair
      rw [isInner_of_toLower (by rcases pair with h | h | h | h <;> simp [h.2])] at outer
      cases outer
    simp only [List.cons_append, List.nil_append, lettersLength, noPair, Bool.false_eq_true,
      if_false, List.length_singleton]
    split <;> omega
  | c :: d :: more, rest =>
    simp only [List.cons_append, lettersLength, List.length_cons]
    split
    · omega
    · split <;> omega

private theorem openQuote_of_isIdentifier : openQuote (text ++ rest) = 0 := by
  have within := lettersLength_of_isIdentifier identifier ends
  have split : (text ++ rest).drop (lettersLength (text ++ rest)) =
      text.drop (lettersLength (text ++ rest)) ++ rest := List.drop_append_of_le_length within
  have plain : ∀ quote others, (text ++ rest).drop (lettersLength (text ++ rest)) =
      quote :: others → isQuote quote = false := by
    intro quote others heads
    rw [split] at heads
    cases left : text.drop (lettersLength (text ++ rest)) with
    | nil =>
      rw [left, List.nil_append] at heads
      exact (ends quote (by rw [heads]; rfl)).2
    | cons c more =>
      rw [left, List.cons_append] at heads
      cases heads
      have member : quote ∈ text := List.mem_of_mem_drop (left ▸ List.mem_cons_self)
      exact (plain_of_isInner (isInner_of_isIdentifier identifier quote member)).1
  unfold openQuote
  split
  · rfl
  · next quote others heads =>
    have noQuote := plain quote others heads
    have noTriple : isTripled (quote :: others) = false := by
      unfold isTripled
      split
      · next same => cases same; simp [noQuote]
      · rfl
    simp [noQuote, noTriple]

/-- An identifier is read as a name in front of what does not go on with it. -/
theorem first_of_isIdentifier : first (text ++ rest) = (.name, text.length) := by
  have noQuote := openQuote_of_isIdentifier identifier ends
  cases text with
  | nil => cases identifier
  | cons c more =>
    rw [isIdentifier, Bool.and_eq_true] at identifier
    obtain ⟨opens, inner⟩ := identifier
    have length : name (c :: more ++ rest) = (c :: more).length := by
      have run : ((more ++ rest).takeWhile isInner).length = more.length := by
        rw [length_takeWhile_append_iff]
        refine ⟨inner, ?_⟩
        cases rest with
        | nil => rfl
        | cons d others => exact (ends d rfl).1
      rw [List.cons_append, name, if_pos opens, run, List.length_cons]
      omega
    have code : IsCode (c :: more ++ rest) := isCode_of_opens opens _
    have noNumber : number (c :: more ++ rest) = 0 := number_of_opens opens _
    rw [first_of_isCode code, string_eq_zero noQuote, noQuote, noNumber, length]
    simp

end Ends

end Lexeme

end DeferredDefaults
