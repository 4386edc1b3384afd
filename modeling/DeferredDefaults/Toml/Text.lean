/-!
Strings, keys, comments and line ends of a TOML document. Every reader takes the characters that are
left and gives back what it has read with those behind it, or nothing if they are malformed.
-/

set_option autoImplicit false
set_option relaxedAutoImplicit false

namespace DeferredDefaults.Toml

abbrev Reads (α : Type) := List Char → Option (α × List Char)

def isSpace (c : Char) : Bool := c == ' ' || c == '\t'

def skipSpace (text : List Char) : List Char := text.dropWhile isSpace

def isPlain (c : Char) : Bool := c == '\t' || (32 ≤ c.toNat && c.toNat ≠ 127)

def lineBreak? : List Char → Option (List Char)
  | '\n' :: rest => some rest
  | '\r' :: '\n' :: rest => some rest
  | _ => none

def lineEnd? : List Char → Option (List Char)
  | [] => some []
  | text => lineBreak? text

def skipComment : List Char → List Char
  | '#' :: rest => rest.dropWhile isPlain
  | text => text

/-- The text behind the space, the comment and the line end that follow a value or a header. -/
def restOfLine? (text : List Char) : Option (List Char) := lineEnd? (skipComment (skipSpace text))

/-- The text without space, line breaks and comments at its front. A comment must have a line break
behind it. -/
def skipFiller? : (comment : Bool) → List Char → Option (List Char)
  | false, [] => some []
  | true, [] => none
  | _, '\n' :: rest => skipFiller? false rest
  | _, '\r' :: '\n' :: rest => skipFiller? false rest
  | true, c :: rest => if isPlain c then skipFiller? true rest else none
  | false, c :: rest =>
    if isSpace c then skipFiller? false rest
    else if c = '#' then skipFiller? true rest
    else some (c :: rest)

def hexDigit? (c : Char) : Option Nat :=
  if '0' ≤ c ∧ c ≤ '9' then some (c.toNat - '0'.toNat)
  else if 'a' ≤ c ∧ c ≤ 'f' then some (c.toNat - 'a'.toNat + 10)
  else if 'A' ≤ c ∧ c ≤ 'F' then some (c.toNat - 'A'.toNat + 10)
  else none

def codePoint? (digits : List Char) : Option Char := do
  let point ← digits.foldlM (fun point digit => (hexDigit? digit).map (point * 16 + ·)) 0
  if point < 0xD800 ∨ (0xE000 ≤ point ∧ point < 0x110000) then some (Char.ofNat point) else none

def escapeLetter? (letter : Char) : Option Char :=
  match letter with
  | 'b' => some '\x08'
  | 't' => some '\t'
  | 'n' => some '\n'
  | 'f' => some '\x0c'
  | 'r' => some '\r'
  | '"' => some '"'
  | '\\' => some '\\'
  | _ => none

def pushChar (c : Option Char) (read : Option (List Char × List Char)) :
    Option (List Char × List Char) := do
  let c ← c
  let (text, rest) ← read
  return (c :: text, rest)

def basicString : Reads (List Char)
  | [] => none
  | '"' :: rest => some ([], rest)
  | '\\' :: 'u' :: a :: b :: c :: d :: rest =>
    pushChar (codePoint? [a, b, c, d]) (basicString rest)
  | '\\' :: 'U' :: a :: b :: c :: d :: e :: f :: g :: h :: rest =>
    pushChar (codePoint? [a, b, c, d, e, f, g, h]) (basicString rest)
  | '\\' :: letter :: rest => pushChar (escapeLetter? letter) (basicString rest)
  | c :: rest => if isPlain c && c != '\\' then pushChar (some c) (basicString rest) else none

def literalString : Reads (List Char)
  | [] => none
  | '\'' :: rest => some ([], rest)
  | c :: rest => if isPlain c then pushChar (some c) (literalString rest) else none

/-- Where a string in three double quotes is after a backslash at the end of a line. -/
inductive Folding where
  /-- Not behind such a backslash. -/
  | none
  /-- Before the line break, which must follow. -/
  | before
  /-- Behind the line break: all space is passed over. -/
  | behind
deriving DecidableEq, Repr

/-- A string in three double quotes, behind the first three. The string may end with one or two
quotes of its own. -/
def longBasicString : Folding → Reads (List Char)
  | .before, '\n' :: rest => longBasicString .behind rest
  | .before, '\r' :: '\n' :: rest => longBasicString .behind rest
  | .before, c :: rest => if isSpace c then longBasicString .before rest else none
  | .behind, ' ' :: rest => longBasicString .behind rest
  | .behind, '\t' :: rest => longBasicString .behind rest
  | .behind, '\n' :: rest => longBasicString .behind rest
  | .behind, '\r' :: '\n' :: rest => longBasicString .behind rest
  | _, [] => none
  | _, '"' :: '"' :: '"' :: '"' :: '"' :: rest => some (['"', '"'], rest)
  | _, '"' :: '"' :: '"' :: '"' :: rest => some (['"'], rest)
  | _, '"' :: '"' :: '"' :: rest => some ([], rest)
  | _, '\n' :: rest => pushChar (some '\n') (longBasicString .none rest)
  | _, '\r' :: '\n' :: rest => pushChar (some '\n') (longBasicString .none rest)
  | _, '\\' :: 'u' :: a :: b :: c :: d :: rest =>
    pushChar (codePoint? [a, b, c, d]) (longBasicString .none rest)
  | _, '\\' :: 'U' :: a :: b :: c :: d :: e :: f :: g :: h :: rest =>
    pushChar (codePoint? [a, b, c, d, e, f, g, h]) (longBasicString .none rest)
  | _, '\\' :: '\n' :: rest => longBasicString .behind rest
  | _, '\\' :: '\r' :: '\n' :: rest => longBasicString .behind rest
  | _, '\\' :: letter :: rest =>
    if isSpace letter then longBasicString .before rest
    else pushChar (escapeLetter? letter) (longBasicString .none rest)
  | _, c :: rest =>
    if isPlain c && c != '\\' then pushChar (some c) (longBasicString .none rest) else none

/-- A string in three single quotes, behind the first three. The string may end with one or two
quotes of its own. -/
def longLiteralString : Reads (List Char)
  | [] => none
  | '\'' :: '\'' :: '\'' :: '\'' :: '\'' :: rest => some (['\'', '\''], rest)
  | '\'' :: '\'' :: '\'' :: '\'' :: rest => some (['\''], rest)
  | '\'' :: '\'' :: '\'' :: rest => some ([], rest)
  | '\n' :: rest => pushChar (some '\n') (longLiteralString rest)
  | '\r' :: '\n' :: rest => pushChar (some '\n') (longLiteralString rest)
  | c :: rest => if isPlain c then pushChar (some c) (longLiteralString rest) else none

def skipLineBreak (text : List Char) : List Char := (lineBreak? text).getD text

/-- A string value. A line break directly behind three quotes does not count. -/
def stringValue : Reads (List Char)
  | '"' :: '"' :: '"' :: rest => longBasicString .none (skipLineBreak rest)
  | '"' :: rest => basicString rest
  | '\'' :: '\'' :: '\'' :: rest => longLiteralString (skipLineBreak rest)
  | '\'' :: rest => literalString rest
  | _ => none

def isBareKey (c : Char) : Bool := c.isAlphanum || c == '_' || c == '-'

def keyPart : Reads String
  | '"' :: rest => (basicString rest).map fun (text, rest) => (String.ofList text, rest)
  | '\'' :: rest => (literalString rest).map fun (text, rest) => (String.ofList text, rest)
  | text =>
    let bare := text.takeWhile isBareKey
    if bare.isEmpty then none else some (String.ofList bare, text.dropWhile isBareKey)

/-- A key of at most `limit` parts with points between them, and the space around it. -/
def keyParts : (limit : Nat) → Reads (List String)
  | 0, _ => none
  | limit + 1, text => do
    let (part, rest) ← keyPart (skipSpace text)
    match skipSpace rest with
    | '.' :: rest => do
      let (parts, rest) ← keyParts limit rest
      return (part :: parts, rest)
    | rest => return ([part], rest)

/-- Keys have fewer parts than this, and values are nested less deep. -/
def depthLimit : Nat := 80

def key : Reads (List String × String) := fun text => do
  let (parts, rest) ← keyParts (depthLimit - 1) text
  let last ← parts.getLast?
  return ((parts.dropLast, last), rest)

end DeferredDefaults.Toml
