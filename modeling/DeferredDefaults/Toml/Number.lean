import DeferredDefaults.Toml.Text

/-!
Numbers, dates and times of a TOML document. Only whether they are well formed matters: integers
must fit in 64 bits, a positive decimal must not exceed the largest binary one, and dates and times
must exist.
-/

set_option autoImplicit false
set_option relaxedAutoImplicit false

namespace DeferredDefaults.Toml

/-- A run of digits with single underscores between them. The underscores are left out. -/
def digitRun (isDigit : Char → Bool) : List Char → List Char × List Char
  | '_' :: digit :: rest =>
    if isDigit digit then
      let (digits, rest) := digitRun isDigit rest
      (digit :: digits, rest)
    else ([], '_' :: digit :: rest)
  | digit :: rest =>
    if isDigit digit then
      let (digits, rest) := digitRun isDigit rest
      (digit :: digits, rest)
    else ([], digit :: rest)
  | [] => ([], [])

def digits (isDigit : Char → Bool) : Reads (List Char)
  | digit :: rest =>
    if isDigit digit then
      let (digits, rest) := digitRun isDigit rest
      some (digit :: digits, rest)
    else none
  | [] => none

def numeral (base : Nat) (digits : List Char) : Nat :=
  digits.foldl (fun value digit => value * base + (hexDigit? digit).getD 0) 0

def sign : List Char → Bool × List Char
  | '-' :: rest => (true, rest)
  | '+' :: rest => (false, rest)
  | text => (false, text)

def decimalDigits : Reads (List Char)
  | '0' :: rest => some (['0'], rest)
  | text => digits Char.isDigit text

def basedInteger (base : Nat) (isDigit : Char → Bool) : Reads Unit := fun text => do
  let (digits, rest) ← digits isDigit text
  if numeral base digits < Nat.pow 2 63 then some ((), rest) else none

def integer : Reads Unit
  | '0' :: 'x' :: rest => basedInteger 16 (fun c => (hexDigit? c).isSome) rest
  | '0' :: 'o' :: rest => basedInteger 8 (fun c => '0' ≤ c && c ≤ '7') rest
  | '0' :: 'b' :: rest => basedInteger 2 (fun c => c == '0' || c == '1') rest
  | text => do
    let (negative, rest) := sign text
    let (digits, rest) ← decimalDigits rest
    let value := numeral 10 digits
    if value < Nat.pow 2 63 ∨ (negative = true ∧ value = Nat.pow 2 63) then some ((), rest) else none

/-- The part of a decimal behind the point. Nothing is read where there is no point. -/
def fraction : Reads (List Char)
  | '.' :: rest => digits Char.isDigit rest
  | text => some ([], text)

def exponent : Reads Int
  | letter :: text =>
    if letter = 'e' ∨ letter = 'E' then do
      let (negative, rest) := sign text
      let (digits, rest) ← digits Char.isDigit rest
      let value : Int := numeral 10 digits
      return (if negative then -value else value, rest)
    else some (0, letter :: text)
  | [] => some (0, [])

/-- The least number that is not below any binary number of double precision, nor rounds to one. -/
def tooLarge : Nat := Nat.pow 2 1024 - Nat.pow 2 970

/-- The decimal with these digits and this exponent exceeds every binary number of double
precision. Far from the border the number of digits decides. -/
def exceeds (digits : List Char) (exponent : Int) : Bool :=
  let significant := digits.dropWhile (· == '0')
  let size := (significant.length : Int) + exponent
  if significant.isEmpty || size < 300 then false
  else if 320 < size then true
  else
    let value := numeral 10 significant
    if 0 ≤ exponent then tooLarge ≤ value * Nat.pow 10 exponent.toNat
    else tooLarge * Nat.pow 10 (-exponent).toNat ≤ value

def decimal : Reads Unit := fun text => do
  let (negative, rest) := sign text
  let (whole, behindWhole) ← decimalDigits rest
  let (part, behindPart) ← fraction behindWhole
  let (exponent, rest) ← exponent behindPart
  if rest.length = behindWhole.length then none
  else if !negative && exceeds (whole ++ part) (exponent - part.length) then none
  else some ((), rest)

def word? (word : String) (text : List Char) : Option (List Char) :=
  if word.toList.isPrefixOf text then some (text.drop word.toList.length) else none

def specialFloat : Reads Unit := fun text =>
  let (_, rest) := sign text
  ((word? "inf" rest).or (word? "nan" rest)).map fun rest => ((), rest)

def fixedDigits : (count : Nat) → Reads Nat
  | 0, text => some (0, text)
  | count + 1, digit :: rest => do
    if digit.isDigit then
      let (value, rest) ← fixedDigits count rest
      some ((digit.toNat - '0'.toNat) * 10 ^ count + value, rest)
    else none
  | _ + 1, [] => none

def twoDigits (least most : Nat) : Reads Nat := fun text => do
  let (value, rest) ← fixedDigits 2 text
  if least ≤ value ∧ value ≤ most then some (value, rest) else none

def char? (c : Char) : List Char → Option (List Char)
  | [] => none
  | first :: rest => if first = c then some rest else none

def isLeapYear (year : Nat) : Bool := year % 4 == 0 && (year % 100 != 0 || year % 400 == 0)

def daysOfMonth (year month : Nat) : Nat :=
  if month = 2 then (if isLeapYear year then 29 else 28)
  else if month = 4 ∨ month = 6 ∨ month = 9 ∨ month = 11 then 30
  else 31

def date : Reads Unit := fun text => do
  let (year, rest) ← fixedDigits 4 text
  let (month, rest) ← twoDigits 1 12 (← char? '-' rest)
  let (_, rest) ← twoDigits 1 (daysOfMonth year month) (← char? '-' rest)
  return ((), rest)

def secondFraction : Reads Unit
  | '.' :: rest =>
    let digits := rest.takeWhile Char.isDigit
    if digits.isEmpty then none else some ((), rest.drop digits.length)
  | text => some ((), text)

def time : Reads Unit := fun text => do
  let (_, rest) ← twoDigits 0 23 text
  let (_, rest) ← twoDigits 0 59 (← char? ':' rest)
  let (_, rest) ← twoDigits 0 60 (← char? ':' rest)
  secondFraction rest

/-- The offset of a time from universal time, if there is one. -/
def offset (text : List Char) : List Char :=
  match text with
  | 'Z' :: rest => rest
  | 'z' :: rest => rest
  | mark :: rest =>
    if mark = '+' ∨ mark = '-' then
      let read := do
        let (_, rest) ← twoDigits 0 23 rest
        let (_, rest) ← twoDigits 0 59 (← char? ':' rest)
        return rest
      read.getD text
    else text
  | [] => []

def moment : Reads Unit := fun text =>
  match date text with
  | none => time text
  | some (_, rest) =>
    let timed := match rest with
      | mark :: rest => if mark = 'T' ∨ mark = 't' ∨ mark = ' ' then time rest else none
      | [] => none
    match timed with
    | some (_, rest) => some ((), offset rest)
    | none => some ((), rest)

end DeferredDefaults.Toml
