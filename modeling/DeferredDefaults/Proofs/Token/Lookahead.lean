import Mathlib.Data.List.Find
import DeferredDefaults.Token.Lexeme

/-!
How far a lexeme looks ahead. The rules for numbers, names, operators and opening quotes see a text
only up to its first blank, comma, closing bracket or comment, and behind an `=` or a `:` they look
only for another `=`; this part of a text is its ink. A string looks no further than its own end,
save an empty one with a third quote behind it: it is a string of its own only because the three
quotes are never closed.
-/

set_option autoImplicit false
set_option relaxedAutoImplicit false

namespace DeferredDefaults

section Deciding

variable {holds : Char → Prop} [DecidablePred holds]

/-- What holds of the characters of a text is decided along the text, whichever other instances
there are: not over all characters. -/
instance decidableForallMemText (text : List Char) : Decidable (∀ c ∈ text, holds c) :=
  List.decidableBAll holds text

instance decidableForallMemFound (found : Option Char) : Decidable (∀ c ∈ found, holds c) :=
  Option.decidableForallMem found

end Deciding

namespace Lexeme

/-- The character separates lexemes of code: space, the end of a row, or a backslash. -/
def isBlank (c : Char) : Bool := isSpace c || isLineEnd c || c == '\\'

/-- Commas and closing brackets are lexemes of their own, whatever stands around them. -/
def isStop (c : Char) : Bool := c == ',' || c == ')' || c == ']' || c == '\x7d'

def isEdge (c : Char) : Bool := isBlank c || isStop c || c == '#'

/-- The text up to its first edge. An `=` or a `:` ends it too if no `=` follows. -/
def ink : List Char → List Char
  | [] => []
  | c :: rest =>
    if isEdge c then []
    else if (c == '=' || c == ':') && rest.head? != some '=' then [c]
    else c :: ink rest

def isPlain (c : Char) : Bool := !isEdge c && c != '=' && c != ':'

def plain (text : List Char) : List Char := text.takeWhile isPlain

def hidden : List Char :=
  [' ', '\t', '\x0c', '\r', '\n', '\\', ',', ')', ']', '\x7d', '#', '=', ':']

theorem blank_cases {c : Char} (blank : isBlank c = true) :
    c = ' ' ∨ c = '\t' ∨ c = '\x0c' ∨ c = '\r' ∨ c = '\n' ∨ c = '\\' := by
  simp only [isBlank, isSpace, isLineEnd, Bool.or_eq_true, beq_iff_eq] at blank
  rcases blank with (((h | h) | h) | (h | h)) | h <;> simp [h]

private theorem mem_hidden {c : Char} (notPlain : isPlain c = false) : c ∈ hidden := by
  simp only [isPlain, isEdge, isStop, Bool.and_eq_false_iff, Bool.not_eq_false', Bool.or_eq_true,
    beq_iff_eq, bne_eq_false_iff_eq] at notPlain
  rcases notPlain with ((((blank | ((stop | stop) | stop) | stop) | comment)) | equals) | colon
  · rcases blank_cases blank with h | h | h | h | h | h <;> simp [h, hidden]
  all_goals simp [*, hidden]

@[simp] theorem ink_nil : ink [] = [] := rfl

theorem ink_of_isEdge {c : Char} (edge : isEdge c = true) (rest : List Char) :
    ink (c :: rest) = [] := by
  simp [ink, edge]

theorem isEdge_of_isBlank {c : Char} (blank : isBlank c = true) : isEdge c = true := by
  simp [isEdge, blank]

theorem ink_of_isBlank {c : Char} (blank : isBlank c = true) (rest : List Char) :
    ink (c :: rest) = [] := ink_of_isEdge (isEdge_of_isBlank blank) rest

theorem isEdge_of_isQuote {c : Char} (quote : isQuote c = true) : isEdge c = false := by
  simp only [isQuote, Bool.or_eq_true, beq_iff_eq] at quote
  rcases quote with rfl | rfl <;> rfl

private theorem head?_ink {c : Char} (solid : isEdge c = false) (text : List Char) :
    (ink text).head? = some c ↔ text.head? = some c := by
  cases text with
  | nil => simp
  | cons first rest =>
    unfold ink
    split
    · next edge =>
      constructor
      · intro head
        cases head
      · intro head
        have same : first = c := by simpa using head
        rw [same, solid] at edge
        cases edge
    · split <;> rfl

/-- Texts with the same ink begin with the same character if it is no edge. -/
theorem head?_congr {a b : List Char} (same : ink a = ink b) {c : Char}
    (solid : isEdge c = false) : a.head? = some c ↔ b.head? = some c := by
  rw [← head?_ink solid a, same, head?_ink solid]

theorem ink_append_congr {a b : List Char} (same : ink a = ink b) (front : List Char) :
    ink (front ++ a) = ink (front ++ b) := by
  induction front with
  | nil => exact same
  | cons c rest ih =>
    have flags : ((rest ++ a).head? != some '=') = ((rest ++ b).head? != some '=') := by
      rw [Bool.eq_iff_iff, bne_iff_ne, bne_iff_ne, ne_eq, ne_eq, head?_congr ih rfl]
    simp only [List.cons_append, ink, ih, flags]

private theorem plain_ink (text : List Char) : plain (ink text) = plain text := by
  induction text with
  | nil => rfl
  | cons c rest ih =>
    unfold ink
    split
    · next edge => simp [plain, isPlain, edge]
    · split
      · next single =>
        rw [Bool.and_eq_true, Bool.or_eq_true, beq_iff_eq, beq_iff_eq] at single
        rcases single.1 with rfl | rfl <;> rfl
      · rw [plain, plain, List.takeWhile_cons, List.takeWhile_cons]
        split
        · exact congrArg _ ih
        · rfl

theorem plain_congr {a b : List Char} (same : ink a = ink b) : plain a = plain b := by
  rw [← plain_ink a, same, plain_ink]

private theorem plain_cons_of_isPlain {c : Char} (visible : isPlain c = true) (rest : List Char) :
    plain (c :: rest) = c :: plain rest := by
  simp [plain, visible]

theorem plain_cons_of_not {c : Char} (hidden : isPlain c = false) (rest : List Char) :
    plain (c :: rest) = [] := by
  simp [plain, hidden]

private theorem plain_drop {text : List Char} {count : Nat} (within : count ≤ (plain text).length) :
    plain (text.drop count) = (plain text).drop count := by
  induction text generalizing count with
  | nil => simp [plain]
  | cons c rest ih =>
    cases count with
    | zero => rfl
    | succ count =>
      cases visible : isPlain c with
      | true =>
        rw [plain_cons_of_isPlain visible] at within ⊢
        exact ih (by simpa using within)
      | false =>
        rw [plain_cons_of_not visible] at within
        simp at within

private theorem eq_false_of_hidden {holds : Char → Bool} (none : ∀ c ∈ hidden, holds c = false)
    {c : Char} (notPlain : isPlain c = false) : holds c = false := none c (mem_hidden notPlain)

private theorem isPlain_of_holds {holds : Char → Bool} (none : ∀ c ∈ hidden, holds c = false)
    {c : Char} (held : holds c = true) : isPlain c = true := by
  cases visible : isPlain c with
  | true => rfl
  | false =>
    rw [eq_false_of_hidden none visible] at held
    cases held

section Numbers

variable {isDigit : Char → Bool}

private theorem digitGroups_le_length (isDigit : Char → Bool) (text : List Char) :
    digitGroups isDigit text ≤ text.length := by
  fun_induction digitGroups isDigit text <;> simp_all

private theorem digitGroups_cons_of_ne {c : Char} (different : c ≠ '_') (rest : List Char) :
    digitGroups isDigit (c :: rest) = if isDigit c then digitGroups isDigit rest + 1 else 0 := by
  rw [digitGroups]
  intro digit rest' underscore
  exact absurd underscore different

private theorem digitGroups_plain (plainDigits : ∀ c, isDigit c = true → isPlain c = true)
    (noUnderscore : isDigit '_' = false) (text : List Char) :
    digitGroups isDigit (plain text) = digitGroups isDigit text := by
  fun_induction digitGroups isDigit text with
  | case1 digit rest isDigit ih =>
    rw [plain_cons_of_isPlain rfl, plain_cons_of_isPlain (plainDigits _ isDigit), digitGroups,
      if_pos isDigit, ih]
  | case2 digit rest noDigit =>
    rw [plain_cons_of_isPlain rfl]
    cases visible : isPlain digit with
    | true => rw [plain_cons_of_isPlain visible, digitGroups, if_neg noDigit]
    | false =>
      rw [plain_cons_of_not visible]
      simp [digitGroups, noUnderscore]
  | case3 digit rest noGroup isDigit ih =>
    have different : digit ≠ '_' := by
      rintro rfl
      rw [noUnderscore] at isDigit
      cases isDigit
    rw [plain_cons_of_isPlain (plainDigits _ isDigit), digitGroups_cons_of_ne different,
      if_pos isDigit, ih]
  | case4 digit rest noGroup noDigit =>
    by_cases underscore : digit = '_'
    · have alone : rest = [] := by
        cases rest with
        | nil => rfl
        | cons digit' rest' => exact absurd rfl (noGroup digit' rest' underscore)
      subst alone underscore
      simp [plain, isPlain, isEdge, isStop, isBlank, isSpace, isLineEnd, digitGroups, noUnderscore]
    · cases visible : isPlain digit with
      | true =>
        rw [plain_cons_of_isPlain visible, digitGroups_cons_of_ne underscore, if_neg noDigit]
      | false =>
        rw [plain_cons_of_not visible]
        rfl
  | case5 => rfl

private theorem decimalDigits_le_length (text : List Char) : decimalDigits text ≤ text.length := by
  cases text with
  | nil => simp [decimalDigits]
  | cons digit rest =>
    have bound := digitGroups_le_length Char.isDigit rest
    rw [decimalDigits, List.length_cons]
    split <;> omega

private theorem decimalDigits_plain (text : List Char) :
    decimalDigits (plain text) = decimalDigits text := by
  cases text with
  | nil => rfl
  | cons digit rest =>
    cases visible : isPlain digit with
    | true =>
      rw [plain_cons_of_isPlain visible, decimalDigits, decimalDigits,
        digitGroups_plain (fun _ => isPlain_of_holds (by decide)) rfl]
    | false =>
      have noDigit : digit.isDigit = false := eq_false_of_hidden (by decide) visible
      rw [plain_cons_of_not visible]
      simp [decimalDigits, noDigit]

private theorem radixDigits_of_hidden {letter : Char} (notPlain : isPlain letter = false) :
    radixDigits letter = none := by
  have none : ∀ c ∈ hidden, (radixDigits c).isNone = true := by decide
  exact Option.isNone_iff_eq_none.1 (none letter (mem_hidden notPlain))

private theorem radixDigits_plain {letter : Char} {isDigit : Char → Bool}
    (radix : radixDigits letter = some isDigit) (text : List Char) :
    digitGroups isDigit (plain text) = digitGroups isDigit text := by
  unfold radixDigits at radix
  split at radix <;> cases radix
  · exact digitGroups_plain (fun _ => isPlain_of_holds (by decide)) rfl text
  · exact digitGroups_plain (fun _ => isPlain_of_holds (by decide)) rfl text
  · exact digitGroups_plain (fun _ => isPlain_of_holds (by decide)) rfl text

private theorem radixNumber_plain (text : List Char) :
    radixNumber (plain text) = radixNumber text := by
  match text with
  | [] => rfl
  | [c] => cases visible : isPlain c <;> simp [plain, visible, radixNumber]
  | first :: letter :: rest =>
    by_cases zero : first = '0'
    · subst zero
      rw [plain_cons_of_isPlain rfl]
      cases visible : isPlain letter with
      | true =>
        rw [plain_cons_of_isPlain visible]
        simp only [radixNumber]
        cases radix : radixDigits letter with
        | none => simp only
        | some isDigit => simp only [radixDigits_plain radix]
      | false =>
        rw [plain_cons_of_not visible]
        simp [radixNumber, radixDigits_of_hidden visible]
    · have noRadix : ∀ other, radixNumber (first :: other) = 0 := by
        intro other
        unfold radixNumber
        split
        · next heads => exact absurd (List.cons.inj heads).1 zero
        · rfl
      rw [noRadix]
      cases visible : isPlain first with
      | true => rw [plain_cons_of_isPlain visible, noRadix]
      | false => rw [plain_cons_of_not visible]; rfl

theorem radixNumber_le_length (text : List Char) : radixNumber text ≤ text.length := by
  unfold radixNumber
  split
  · next letter rest =>
    split
    · omega
    · next isDigit radix =>
      have bound := digitGroups_le_length isDigit rest
      split
      · omega
      · next length groups => simp only [List.length_cons]; omega
  · omega

theorem exponent_le_length (text : List Char) : exponent text ≤ text.length := by
  unfold exponent
  split
  · next letter rest =>
    split
    · have bound : ∀ sign, decimalDigits (rest.drop sign) ≤ rest.length - sign := by
        intro sign
        simpa using decimalDigits_le_length (rest.drop sign)
      simp only
      split
      · omega
      · next length digits =>
        have within := Nat.le_trans (Nat.le_of_eq digits.symm) (bound _)
        simp only [List.length_cons]
        omega
    · omega
  · omega

private theorem exponent_plain (text : List Char) : exponent (plain text) = exponent text := by
  match text with
  | [] => rfl
  | letter :: rest =>
    cases visible : isPlain letter with
    | false =>
      have none : ∀ c ∈ hidden, ¬ (c = 'e' ∨ c = 'E') := by decide
      have noLetter := none letter (mem_hidden visible)
      simp only [plain_cons_of_not visible, exponent, if_neg noLetter]
    | true =>
      simp only [plain_cons_of_isPlain visible, exponent]
      match rest with
      | [] => rfl
      | c :: more =>
        cases seen : isPlain c with
        | false =>
          have none : ∀ c ∈ hidden, ¬ (c = '+' ∨ c = '-') := by decide
          have noSign := none c (mem_hidden seen)
          have noDigit : c.isDigit = false := eq_false_of_hidden (by decide) seen
          rw [plain_cons_of_not seen]
          simp [noSign, decimalDigits, noDigit]
        | true =>
          have tail := decimalDigits_plain more
          have whole := decimalDigits_plain (c :: more)
          rw [plain_cons_of_isPlain seen] at whole ⊢
          by_cases sign : c = '+' ∨ c = '-'
          · simp [sign, tail]
          · simp [sign, whole]

def afterPoint? : List Char → Option (List Char)
  | '.' :: rest => some rest
  | _ => none

private theorem afterPoint?_eq_none {text : List Char}
    (noPoint : ∀ rest, text = '.' :: rest → False) :
    afterPoint? text = none := by
  unfold afterPoint?
  split
  · next heads => exact absurd rfl (noPoint _)
  · rfl

private theorem afterPoint?_cons_of_ne {c : Char} (different : c ≠ '.') (rest : List Char) :
    afterPoint? (c :: rest) = none :=
  afterPoint?_eq_none fun _ heads => different (List.cons.inj heads).1

private theorem afterPoint?_plain (text : List Char) :
    afterPoint? (plain text) = (afterPoint? text).map plain := by
  cases text with
  | nil => rfl
  | cons c rest =>
    by_cases point : c = '.'
    · subst point
      rw [plain_cons_of_isPlain rfl]
      rfl
    · rw [afterPoint?_cons_of_ne point]
      cases visible : isPlain c with
      | true => rw [plain_cons_of_isPlain visible, afterPoint?_cons_of_ne point]; rfl
      | false => rw [plain_cons_of_not visible]; rfl

/-- The length of the point and the digits behind it, `whole` digits being in front. A point
without any digit does not count. -/
def fraction (whole : Nat) (text : List Char) : Nat :=
  match afterPoint? text with
  | none => 0
  | some rest => if whole = 0 ∧ decimalDigits rest = 0 then 0 else decimalDigits rest + 1

private theorem fraction_le_length (whole : Nat) (text : List Char) :
    fraction whole text ≤ text.length := by
  unfold fraction afterPoint?
  split
  · omega
  · next rest found =>
    split at found
    · next other =>
      cases found
      have bound := decimalDigits_le_length rest
      rw [List.length_cons]
      split <;> omega
    · cases found

private theorem fraction_plain (whole : Nat) (text : List Char) :
    fraction whole (plain text) = fraction whole text := by
  rw [fraction, fraction, afterPoint?_plain]
  cases afterPoint? text with
  | none => rfl
  | some rest => simp only [Option.map_some, decimalDigits_plain]

/-- The mantissa by its parts: the digits in front of the point and what follows them. -/
theorem mantissa_eq (text : List Char) : mantissa text =
    decimalDigits text + fraction (decimalDigits text) (text.drop (decimalDigits text)) := by
  unfold mantissa
  cases digits : decimalDigits text with
  | zero =>
    rw [List.drop_zero, Nat.zero_add, fraction]
    simp only
    split
    · next rest =>
      simp only [afterPoint?]
      split
      · next none => rw [none]; rfl
      · next length some => rw [some]; rfl
    · next noPoint => rw [afterPoint?_eq_none noPoint]
  | succ whole =>
    rw [fraction]
    simp only
    split
    · next rest point =>
      rw [point, afterPoint?]
      simp only [Nat.add_one_ne_zero, false_and, if_false]
      omega
    · next noPoint =>
      rw [afterPoint?_eq_none noPoint]
      rfl

theorem mantissa_le_length (text : List Char) : mantissa text ≤ text.length := by
  have whole := decimalDigits_le_length text
  have behind := fraction_le_length (decimalDigits text) (text.drop (decimalDigits text))
  rw [List.length_drop] at behind
  rw [mantissa_eq]
  omega

private theorem mantissa_plain (text : List Char) : mantissa (plain text) = mantissa text := by
  have within := decimalDigits_le_length (plain text)
  have whole := decimalDigits_plain text
  rw [whole] at within
  rw [mantissa_eq, mantissa_eq, whole, ← plain_drop within, fraction_plain]

def imaginary (text : List Char) : Nat :=
  if text.head?.any fun letter => letter == 'j' || letter == 'J' then 1 else 0

private theorem imaginary_plain (text : List Char) : imaginary (plain text) = imaginary text := by
  cases text with
  | nil => rfl
  | cons c rest =>
    cases visible : isPlain c with
    | true => rw [plain_cons_of_isPlain visible]; rfl
    | false =>
      have noLetter : (c == 'j' || c == 'J') = false :=
        @eq_false_of_hidden (fun c => c == 'j' || c == 'J') (by decide) _ visible
      rw [plain_cons_of_not visible]
      simp [imaginary, noLetter]

theorem decimalNumber_eq (text : List Char) : decimalNumber text =
    if mantissa text = 0 then 0
    else mantissa text + exponent (text.drop (mantissa text)) +
      imaginary (text.drop (mantissa text + exponent (text.drop (mantissa text)))) := by
  unfold decimalNumber
  cases mantissa text with
  | zero => rfl
  | succ length =>
    simp only [Nat.add_one_ne_zero, if_false, imaginary]
    cases text.drop (length + 1 + exponent (text.drop (length + 1))) with
    | nil => rfl
    | cons letter rest => by_cases imaginary : letter = 'j' ∨ letter = 'J' <;> simp [imaginary]

private theorem decimalNumber_plain (text : List Char) :
    decimalNumber (plain text) = decimalNumber text := by
  have within := mantissa_le_length (plain text)
  have main := mantissa_plain text
  rw [main] at within
  have scaled := exponent_le_length (plain (text.drop (mantissa text)))
  rw [exponent_plain, plain_drop within, List.length_drop] at scaled
  rw [decimalNumber_eq, decimalNumber_eq, main, ← plain_drop within, exponent_plain,
    ← plain_drop (by omega), imaginary_plain]

theorem number_plain (text : List Char) : number (plain text) = number text := by
  rw [number, number, radixNumber_plain, decimalNumber_plain]

end Numbers

private theorem takeWhile_plain {holds : Char → Bool}
    (visible : ∀ c, holds c = true → isPlain c = true) (text : List Char) :
    (plain text).takeWhile holds = text.takeWhile holds := by
  induction text with
  | nil => rfl
  | cons c rest ih =>
    cases seen : isPlain c with
    | true => rw [plain_cons_of_isPlain seen, List.takeWhile_cons, List.takeWhile_cons, ih]
    | false =>
      have noneHeld : holds c = false := by
        cases held : holds c with
        | true => rw [visible c held] at seen; cases seen
        | false => rfl
      rw [plain_cons_of_not seen]
      simp [noneHeld]

theorem name_plain (text : List Char) : name (plain text) = name text := by
  cases text with
  | nil => rfl
  | cons c rest =>
    cases seen : isPlain c with
    | true =>
      rw [plain_cons_of_isPlain seen, name, name,
        takeWhile_plain fun _ => isPlain_of_holds (by decide)]
    | false =>
      have noStart : (Text.Identifier.isStart c || c == '_') = false :=
        @eq_false_of_hidden (fun c => Text.Identifier.isStart c || c == '_') (by decide) _ seen
      rw [plain_cons_of_not seen]
      simp [name, noStart]

theorem lettersLength_le_length (text : List Char) : lettersLength text ≤ text.length := by
  unfold lettersLength
  split
  · simp only [List.length_cons]
    split
    · omega
    · split <;> omega
  · simp only [List.length_cons]
    split <;> omega
  · omega

theorem lettersLength_plain (text : List Char) :
    lettersLength (plain text) = lettersLength text := by
  match text with
  | [] => rfl
  | [c] =>
    cases seen : isPlain c with
    | true => rw [plain_cons_of_isPlain seen]; rfl
    | false =>
      have none : ∀ c ∈ hidden, lettersLength [] = lettersLength [c] := by decide
      rw [plain_cons_of_not seen]
      exact none c (mem_hidden seen)
  | a :: b :: rest =>
    cases seen : isPlain a with
    | true =>
      rw [plain_cons_of_isPlain seen]
      cases second : isPlain b with
      | true => rw [plain_cons_of_isPlain second]; rfl
      | false =>
        have none : ∀ c ∈ hidden, ∀ pair ∈ pairsBeforeQuote, pair.2 ≠ c.toLower := by decide
        have noPair : pairsBeforeQuote.contains (a.toLower, b.toLower) = false := by
          rw [List.contains_eq_mem, decide_eq_false_iff_not]
          intro member
          exact none b (mem_hidden second) _ member rfl
        rw [plain_cons_of_not second]
        simp only [lettersLength, noPair, Bool.false_eq_true, if_false]
    | false =>
      have none : ∀ c ∈ hidden, (∀ pair ∈ pairsBeforeQuote, pair.1 ≠ c.toLower) ∧
          lettersBeforeQuote.contains c.toLower = false := by decide
      obtain ⟨noPair, noLetter⟩ := none a (mem_hidden seen)
      have noPair : pairsBeforeQuote.contains (a.toLower, b.toLower) = false := by
        rw [List.contains_eq_mem, decide_eq_false_iff_not]
        intro member
        exact noPair _ member rfl
      rw [plain_cons_of_not seen]
      simp only [lettersLength, noPair, noLetter, Bool.false_eq_true, if_false]

theorem isTripled_plain (text : List Char) : isTripled (plain text) = isTripled text := by
  have quoteSeen : ∀ c, isQuote c = true → isPlain c = true :=
    fun _ => isPlain_of_holds (by decide)
  match text with
  | [] => rfl
  | [a] => cases seen : isPlain a <;> simp [plain, seen, isTripled]
  | [a, b] =>
    cases seen : isPlain a <;> cases second : isPlain b <;> simp [plain, seen, second, isTripled]
  | a :: b :: c :: rest =>
    by_cases tripled : isQuote a = true ∧ a = b ∧ a = c
    · obtain ⟨quote, rfl, rfl⟩ := tripled
      rw [plain_cons_of_isPlain (quoteSeen a quote), plain_cons_of_isPlain (quoteSeen a quote),
        plain_cons_of_isPlain (quoteSeen a quote)]
      rfl
    · have notTripled : ∀ other, isTripled (a :: b :: c :: other) = false := by
        intro other
        rw [← Bool.not_eq_true]
        intro holds
        simp only [isTripled, Bool.and_eq_true, beq_iff_eq] at holds
        exact tripled ⟨holds.1.1, holds.1.2, holds.2⟩
      rw [notTripled]
      cases seen : isPlain a <;> cases second : isPlain b <;> cases third : isPlain c <;>
        simp only [plain, List.takeWhile_cons, seen, second, third, if_true, if_false,
          Bool.false_eq_true, notTripled] <;> rfl

theorem openQuote_plain (text : List Char) : openQuote (plain text) = openQuote text := by
  have letters := lettersLength_plain text
  have within := lettersLength_le_length (plain text)
  rw [letters] at within
  unfold openQuote
  rw [letters, ← plain_drop within]
  generalize text.drop (lettersLength text) = behind
  cases behind with
  | nil => rfl
  | cons quote rest =>
    cases seen : isPlain quote with
    | true =>
      have same := isTripled_plain (quote :: rest)
      rw [plain_cons_of_isPlain seen] at same ⊢
      simp only [same]
    | false =>
      have noQuote : isQuote quote = false := eq_false_of_hidden (by decide) seen
      have notTripled : isTripled (quote :: rest) = false := by
        rw [← isTripled_plain, plain_cons_of_not seen]
        rfl
      rw [plain_cons_of_not seen]
      simp [noQuote, notTripled]

/-- The text has no edge, and behind an `=` or a `:` it has another `=` or nothing. -/
def isSolid : List Char → Bool
  | [] => true
  | c :: rest =>
    !isEdge c && ((c != '=' && c != ':') || rest.isEmpty || rest.head? == some '=') && isSolid rest

/-- Whether a solid text stands at the front shows in the ink. -/
theorem isPrefixOf_ink {front : List Char} (solid : isSolid front = true) (text : List Char) :
    front.isPrefixOf (ink text) = front.isPrefixOf text := by
  induction front generalizing text with
  | nil => rfl
  | cons x more ih =>
    rw [isSolid, Bool.and_eq_true, Bool.and_eq_true, Bool.not_eq_true'] at solid
    obtain ⟨⟨noEdge, goesOn⟩, solidMore⟩ := solid
    cases text with
    | nil => rfl
    | cons c rest =>
      unfold ink
      split
      · next edge =>
        have different : (x == c) = false := by
          rw [← Bool.not_eq_true, beq_iff_eq]
          rintro rfl
          rw [noEdge] at edge
          cases edge
        simp [List.isPrefixOf, different]
      · split
        · next single =>
          rw [Bool.and_eq_true, bne_iff_ne] at single
          by_cases same : x = c
          · subst same
            cases more with
            | nil => simp [List.isPrefixOf]
            | cons y more =>
              have equals : y = '=' := by
                have colon : (x != '=' && x != ':') = false := by
                  rcases Bool.or_eq_true_iff.1 single.1 with equals | colon
                  · simp [bne, equals]
                  · simp [bne, colon]
                simpa [colon] using goesOn
              subst equals
              cases rest with
              | nil => simp [List.isPrefixOf]
              | cons d rest =>
                have different : ('=' == d) = false := by
                  rw [← Bool.not_eq_true, beq_iff_eq]
                  rintro rfl
                  exact single.2 rfl
                simp [List.isPrefixOf, different]
          · have different : (x == c) = false := by
              rw [← Bool.not_eq_true, beq_iff_eq]
              exact same
            simp [List.isPrefixOf, different]
        · rw [List.isPrefixOf, List.isPrefixOf, ih solidMore]

private theorem isSolid_of_mem_operators : ∀ op ∈ operators, isSolid op.toList = true ∨
    ∃ c, isStop c = true ∧ op.toList = [c] := by
  have cases : ∀ op ∈ operators, isSolid op.toList = true ∨
      (op.toList.head?.any isStop = true ∧ op.toList.tail = []) := by decide
  intro op member
  refine (cases op member).imp id ?_
  rintro ⟨stop, alone⟩
  cases text : op.toList with
  | nil =>
    rw [text] at stop
    cases stop
  | cons c rest =>
    rw [text] at stop alone
    exact ⟨c, stop, by rw [show rest = [] from alone]⟩

theorem isEdge_of_isStop {c : Char} (stop : isStop c = true) : isEdge c = true := by
  simp [isEdge, stop]

theorem operator_of_isStop {c : Char} (stop : isStop c = true) (rest : List Char) :
    operator (c :: rest) = 1 := by
  simp only [isStop, Bool.or_eq_true, beq_iff_eq] at stop
  rcases stop with ((rfl | rfl) | rfl) | rfl <;> rfl

theorem operator_ink {text : List Char} (noStop : text.head?.any isStop = false) :
    operator (ink text) = operator text := by
  rw [operator, operator]
  rw [List.find?_congr]
  intro op member
  rcases isSolid_of_mem_operators op member with solid | ⟨c, stop, single⟩
  · exact isPrefixOf_ink solid text
  · have unread : ∀ other : List Char, other.head? ≠ some c → [c].isPrefixOf other = false := by
      intro other different
      cases other with
      | nil => rfl
      | cons d rest =>
        have differs : c ≠ d := fun same => different (by rw [same]; rfl)
        simp [List.isPrefixOf, differs]
    have behind : text.head? ≠ some c := by
      intro head
      rw [head, Option.any_some, stop] at noStop
      cases noStop
    have inked : (ink text).head? ≠ some c := by
      cases text with
      | nil => simp
      | cons d rest =>
        unfold ink
        split
        · simp
        · split <;> exact behind
    rw [single, unread _ behind, unread _ inked]

theorem number_congr {a b : List Char} (same : ink a = ink b) : number a = number b := by
  rw [← number_plain a, plain_congr same, number_plain]

theorem name_congr {a b : List Char} (same : ink a = ink b) : name a = name b := by
  rw [← name_plain a, plain_congr same, name_plain]

theorem openQuote_congr {a b : List Char} (same : ink a = ink b) : openQuote a = openQuote b := by
  rw [← openQuote_plain a, plain_congr same, openQuote_plain]

theorem operator_congr {a b : List Char} (same : ink a = ink b) (heads : a.head? = b.head?) :
    operator a = operator b := by
  cases stop : a.head?.any isStop with
  | false => rw [← operator_ink stop, same, operator_ink (heads ▸ stop)]
  | true =>
    obtain ⟨c, head, isStop⟩ := (Option.any_eq_true _ _).1 stop
    obtain ⟨more, rfl⟩ := List.head?_eq_some_iff.1 head
    obtain ⟨more', rfl⟩ := List.head?_eq_some_iff.1 (heads ▸ head)
    rw [operator_of_isStop isStop, operator_of_isStop isStop]

/-- No rule for layout applies at the front: it is code. -/
structure IsCode (text : List Char) : Prop where
  continuation : continuation text = 0
  lineBreak : lineBreak text = 0
  space : space text = 0
  comment : comment text = 0

def firstOf (rules : List (Kind × (List Char → Nat))) (text : List Char) : Kind × Nat :=
  match rules.find? fun rule => rule.2 text != 0 with
  | some rule => (rule.1, rule.2 text)
  | none => (.stray, 1)

theorem firstOf_cons (rule : Kind × (List Char → Nat)) (rules : List (Kind × (List Char → Nat)))
    (text : List Char) : firstOf (rule :: rules) text =
      if rule.2 text ≠ 0 then (rule.1, rule.2 text) else firstOf rules text := by
  by_cases applies : rule.2 text = 0
  · simp [firstOf, applies]
  · have holds : (rule.2 text != 0) = true := by simp [applies]
    simp only [firstOf, List.find?_cons, holds]
    rw [if_pos applies]

theorem first_of_isCode {text : List Char} (code : IsCode text) : first text =
    if string text ≠ 0 then (.string, string text)
    else if openQuote text ≠ 0 then (.openQuote, openQuote text)
    else if number text ≠ 0 then (.number, number text)
    else if name text ≠ 0 then (.name, name text)
    else if operator text ≠ 0 then (.operator, operator text)
    else (.stray, 1) := by
  show firstOf rules text = _
  simp only [rules, firstOf_cons, code.continuation, code.lineBreak, code.space, code.comment,
    ne_eq, not_true_eq_false, if_false]
  rfl

theorem first_string_iff {text : List Char} (code : IsCode text) {length : Nat} :
    first text = (.string, length) ↔ string text = length ∧ length ≠ 0 := by
  rw [first_of_isCode code]
  by_cases found : string text = 0
  · rw [if_neg (by simp [found])]
    constructor
    · intro read
      split at read
      · cases read
      · split at read
        · cases read
        · split at read
          · cases read
          · split at read <;> cases read
    · rintro ⟨rfl, some⟩
      exact absurd found some
  · rw [if_pos found]
    constructor
    · intro read
      cases read
      exact ⟨rfl, found⟩
    · rintro ⟨rfl, _⟩
      rfl

def Kind.isInk : Kind → Bool
  | .number | .name | .operator | .stray => true
  | _ => false

theorem string_eq_zero {text : List Char} (noQuote : openQuote text = 0) : string text = 0 := by
  unfold openQuote at noQuote
  unfold string
  generalize text.drop (lettersLength text) = behind at noQuote ⊢
  cases behind with
  | nil => rfl
  | cons quote rest =>
    have plain : isQuote quote = false := by
      rw [← Bool.not_eq_true]
      intro isQuote
      simp only [isQuote, if_true] at noQuote
      split at noQuote <;> omega
    simp [quoted, plain]

/-- What is read at the front depends only on the ink and on the first character, unless it is a
string. -/
theorem first_congr_of_isInk {a b : List Char} {kind : Kind} {length : Nat} (codeA : IsCode a)
    (codeB : IsCode b) (same : ink a = ink b) (heads : a.head? = b.head?)
    (read : first a = (kind, length)) (isInk : kind.isInk = true) : first b = (kind, length) := by
  rw [first_of_isCode codeA] at read
  have noString : string a = 0 := by
    by_cases none : string a = 0
    · exact none
    · rw [if_pos none] at read
      cases read
      cases isInk
  rw [if_neg (by simp [noString])] at read
  have noQuote : openQuote a = 0 := by
    by_cases none : openQuote a = 0
    · exact none
    · rw [if_pos none] at read
      cases read
      cases isInk
  rw [if_neg (by simp [noQuote])] at read
  rw [openQuote_congr same] at noQuote
  rw [first_of_isCode codeB, if_neg (by simp [string_eq_zero noQuote]),
    if_neg (by simp [noQuote]), ← number_congr same, ← name_congr same, ← operator_congr same heads]
  exact read

end Lexeme

end DeferredDefaults
