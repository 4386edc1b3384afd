import DeferredDefaults.Text.Identifier

/-!
Lexemes: the pieces into which a text falls before layout is known. Every kind has a rule that
says how many characters at the front of a text form such a piece, zero when none do; the rules
are tried in a fixed order and the first that applies decides. A character that no rule takes is a
piece of its own, so the pieces of a text always concatenate to it.
-/

set_option autoImplicit false
set_option relaxedAutoImplicit false

namespace DeferredDefaults

inductive Lexeme.Kind where
  /-- A backslash and the line break after it. -/
  | continuation
  | lineBreak
  | space
  | comment
  | string
  /-- The quotes of a string that is not closed. -/
  | openQuote
  | number
  | name
  | operator
  /-- A character that no rule takes. -/
  | stray
deriving DecidableEq, Repr

structure Lexeme where
  kind : Lexeme.Kind
  text : List Char
deriving DecidableEq, Repr

namespace Lexeme

/-- The length of the line break at the front. A carriage return takes a line feed along. -/
def lineBreak : List Char → Nat
  | '\r' :: '\n' :: _ => 2
  | '\r' :: _ => 1
  | '\n' :: _ => 1
  | _ => 0

def isLineEnd (c : Char) : Bool := c == '\r' || c == '\n'

def isSpace (c : Char) : Bool := c == ' ' || c == '\t' || c == '\x0c'

def space (text : List Char) : Nat := (text.takeWhile isSpace).length

/-- The length of the continuation at the front. -/
def continuation : List Char → Nat
  | '\\' :: rest => match lineBreak rest with
    | 0 => 0
    | length + 1 => length + 2
  | _ => 0

def comment : List Char → Nat
  | '#' :: rest => 1 + (rest.takeWhile fun c => !isLineEnd c).length
  | _ => 0

def isQuote (c : Char) : Bool := c == '"' || c == '\''

def pairsBeforeQuote : List (Char × Char) := [('r', 'b'), ('b', 'r'), ('r', 'f'), ('f', 'r')]

def lettersBeforeQuote : List Char := ['r', 'b', 'f', 'u']

/-- The number of letters at the front that may stand before a string's quotes. Two such letters
are taken together whether quotes follow or not. -/
def lettersLength : List Char → Nat
  | a :: b :: _ =>
    if pairsBeforeQuote.contains (a.toLower, b.toLower) then 2
    else if lettersBeforeQuote.contains a.toLower then 1
    else 0
  | [a] => if lettersBeforeQuote.contains a.toLower then 1 else 0
  | [] => 0

/-- What is left of a string after three quotes `quote`, the three closing ones included. A
backslash takes the character after it along. -/
def longTail (quote : Char) : (escaped : Bool) → List Char → Option Nat
  | _, [] => none
  | true, _ :: rest => (longTail quote false rest).map (· + 1)
  | false, c :: rest =>
    if c = '\\' then (longTail quote true rest).map (· + 1)
    else if [quote, quote, quote].isPrefixOf (c :: rest) then some 3
    else (longTail quote false rest).map (· + 1)

/-- What is left of a string after one quote `quote`, the closing one included. A backslash takes
the character after it along, also the end of a row. -/
def shortTail (quote : Char) : (escaped : Bool) → List Char → Option Nat
  | _, [] => none
  | true, _ :: rest => (shortTail quote false rest).map (· + 1)
  | false, c :: rest =>
    if c = '\\' then (shortTail quote true rest).map (· + 1)
    else if c = quote then some 1
    else if isLineEnd c then none
    else (shortTail quote false rest).map (· + 1)

def isTripled : List Char → Bool
  | a :: b :: c :: _ => isQuote a && a == b && a == c
  | _ => false

/-- The length of the quoted text at the front. Three quotes that are never closed are read as an
empty string and a quote. -/
def quoted : List Char → Nat
  | [] => 0
  | quote :: rest =>
    if isQuote quote then
      let long := if isTripled (quote :: rest) then longTail quote false (rest.drop 2) else none
      match long with
      | some length => length + 3
      | none => match shortTail quote false rest with
        | some length => length + 1
        | none => 0
    else 0

/-- The length of the string at the front, with the letters before its quotes. -/
def string (text : List Char) : Nat :=
  match quoted (text.drop (lettersLength text)) with
  | 0 => 0
  | length + 1 => lettersLength text + length + 1

/-- The length of the opening quotes at the front, with the letters before them. -/
def openQuote (text : List Char) : Nat :=
  match text.drop (lettersLength text) with
  | [] => 0
  | quote :: rest =>
    if isTripled (quote :: rest) then lettersLength text + 3
    else if isQuote quote then lettersLength text + 1
    else 0

def digitGroups (isDigit : Char → Bool) : List Char → Nat
  | '_' :: digit :: rest => if isDigit digit then digitGroups isDigit rest + 2 else 0
  | digit :: rest => if isDigit digit then digitGroups isDigit rest + 1 else 0
  | [] => 0

def decimalDigits : List Char → Nat
  | digit :: rest => if digit.isDigit then digitGroups Char.isDigit rest + 1 else 0
  | [] => 0

def isHexDigit (c : Char) : Bool :=
  c.isDigit || ('a' ≤ c && c ≤ 'f') || ('A' ≤ c && c ≤ 'F')

def isOctalDigit (c : Char) : Bool := '0' ≤ c && c ≤ '7'

def isBinaryDigit (c : Char) : Bool := c == '0' || c == '1'

def radixDigits (letter : Char) : Option (Char → Bool) :=
  match letter.toLower with
  | 'x' => some isHexDigit
  | 'o' => some isOctalDigit
  | 'b' => some isBinaryDigit
  | _ => none

def radixNumber : List Char → Nat
  | '0' :: letter :: rest => match radixDigits letter with
    | none => 0
    | some isDigit => match digitGroups isDigit rest with
      | 0 => 0
      | length + 1 => length + 3
  | _ => 0

def exponent : List Char → Nat
  | letter :: rest =>
    if letter = 'e' ∨ letter = 'E' then
      let sign := match rest with
        | c :: _ => if c = '+' ∨ c = '-' then 1 else 0
        | [] => 0
      match decimalDigits (rest.drop sign) with
      | 0 => 0
      | length + 1 => sign + length + 2
    else 0
  | [] => 0

/-- The length of a decimal number without exponent: digits and perhaps a point with digits, or a
point with digits. -/
def mantissa (text : List Char) : Nat :=
  match decimalDigits text with
  | 0 => match text with
    | '.' :: rest => match decimalDigits rest with
      | 0 => 0
      | length + 1 => length + 2
    | _ => 0
  | whole + 1 => match text.drop (whole + 1) with
    | '.' :: rest => whole + 2 + decimalDigits rest
    | _ => whole + 1

/-- The length of the decimal number at the front, with exponent and imaginary letter. -/
def decimalNumber (text : List Char) : Nat :=
  match mantissa text with
  | 0 => 0
  | length + 1 =>
    let scaled := length + 1 + exponent (text.drop (length + 1))
    match text.drop scaled with
    | letter :: _ => if letter = 'j' ∨ letter = 'J' then scaled + 1 else scaled
    | [] => scaled

def number (text : List Char) : Nat :=
  match radixNumber text with
  | 0 => decimalNumber text
  | length + 1 => length + 1

/-- The length of the name at the front. -/
def name : List Char → Nat
  | c :: rest =>
    if Text.Identifier.isStart c || c == '_' then
      1 + (rest.takeWhile Text.Identifier.isInner).length
    else 0
  | [] => 0

def operators : List String :=
  ["**=", "//=", ">>=", "<<=", "...",
    "!=", "%=", "&=", "**", "*=", "+=", "-=", "->", "//", "/=",
    ":=", "<<", "<=", "==", ">=", ">>", "@=", "^=", "|=",
    "(", ")", "[", "]", "\x7b", "\x7d", ":", ",", ";", ".",
    "+", "-", "*", "/", "|", "&", "<", ">", "=", "%", "~", "^", "@", "!"]

def operator (text : List Char) : Nat :=
  match operators.find? fun op => op.toList.isPrefixOf text with
  | some op => op.toList.length
  | none => 0

def rules : List (Kind × (List Char → Nat)) :=
  [(.continuation, continuation), (.lineBreak, lineBreak), (.space, space), (.comment, comment),
    (.string, string), (.openQuote, openQuote), (.number, number), (.name, name),
    (.operator, operator)]

/-- The kind and the length of the first lexeme: the first rule that applies decides. -/
def first (text : List Char) : Kind × Nat :=
  match rules.find? fun rule => rule.2 text != 0 with
  | some rule => (rule.1, rule.2 text)
  | none => (.stray, 1)

/-- The lexemes of a text whose first `skip` characters belong to the lexeme before them. -/
def splitFrom : (skip : Nat) → List Char → List Lexeme
  | _, [] => []
  | skip + 1, _ :: rest => splitFrom skip rest
  | 0, c :: rest =>
    let lead := first (c :: rest)
    ⟨lead.1, c :: rest.take (lead.2 - 1)⟩ :: splitFrom (lead.2 - 1) rest

def split (text : List Char) : List Lexeme := splitFrom 0 text

private theorem splitFrom_eq (skip : Nat) (text : List Char) :
    splitFrom skip text = split (text.drop skip) := by
  induction text generalizing skip with
  | nil => cases skip <;> simp [splitFrom, split]
  | cons c rest ih =>
    cases skip with
    | zero => rfl
    | succ skip => simp [splitFrom, ih]

theorem split_nil : split [] = [] := rfl

/-- The first lexeme is what the rules say, and the others are those of the rest. -/
theorem split_cons (c : Char) (rest : List Char) :
    split (c :: rest) =
      ⟨(first (c :: rest)).1, c :: rest.take ((first (c :: rest)).2 - 1)⟩ ::
        split (rest.drop ((first (c :: rest)).2 - 1)) := by
  simp only [split, splitFrom]
  rw [splitFrom_eq, split]

theorem flatMap_text_split (text : List Char) : (split text).flatMap Lexeme.text = text := by
  generalize size : text.length = n
  induction n using Nat.strongRecOn generalizing text with
  | ind n ih =>
    cases text with
    | nil => rfl
    | cons c rest =>
      rw [split_cons, List.flatMap_cons]
      have shorter : (rest.drop ((first (c :: rest)).2 - 1)).length < n := by
        simp only [← size, List.length_drop, List.length_cons]
        omega
      rw [ih _ shorter _ rfl]
      simp

end Lexeme

end DeferredDefaults
