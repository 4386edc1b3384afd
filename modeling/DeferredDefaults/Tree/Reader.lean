import DeferredDefaults.Tree
import DeferredDefaults.Tree.Row

/-!
Reading a tree from tokens. Rows are taken one by one; a header waits for the indent of its block,
an indent opens the block, and a dedent closes it and puts the finished statement behind those that
stood before its header.
-/

set_option autoImplicit false
set_option relaxedAutoImplicit false

namespace DeferredDefaults

namespace Header

/-- The type parameters between the name and the parenthesis, and what follows them. -/
def typeParameters (start : Position) : List Token → Except Fault (List Token × List Token)
  | [] => .ok ([], [])
  | opening :: rest =>
    if opening.isOp "[" then
      match Cut.atClose 0 rest with
      | some cut => .ok (opening :: cut.before ++ [cut.token], cut.after)
      | none => .error (.parse .unclosedTypeParameters start)
    else .ok ([], opening :: rest)

/-- The parameter list and the tail that follow the name and the type parameters. The header ends
with the first colon outside brackets behind the list. -/
def signature (start : Position) :
    List Token → Except Fault (Token × Parameters × List Token × List Token)
  | [] => .error (.parse .expectedParameterList start)
  | opening :: rest =>
    if opening.isOp "(" then
      match Cut.atClose 0 rest with
      | none => .error (.parse .unclosedParameterList start)
      | some list => match Cut.atOp ":" 0 list.after with
        | none => .error (.parse .expectedColon start)
        | some tail => do
          let parameters ← Parameters.read start list.before
          return (opening, parameters, list.token :: tail.before ++ [tail.token], tail.after)
    else .error (.parse .expectedParameterList start)

/-- Reads a line that starts a function. The tokens behind the colon come back on their own. -/
def read (first : Token) (more : List Token) : Except Fault (Header × List Token) :=
  let isAsync := first.isName "async"
  let keywords := if isAsync then first :: more.take 1 else [first]
  match if isAsync then more.drop 1 else more with
  | [] => .error (.parse .expectedFunctionName first.start)
  | name :: rest =>
    if name.kind ≠ .name then .error (.parse .expectedFunctionName first.start)
    else do
      let (types, rest) ← typeParameters first.start rest
      let (opening, parameters, tail, behind) ← signature first.start rest
      return (⟨name.text, isAsync, keywords ++ name :: types ++ [opening], parameters, tail⟩,
        behind)

end Header

namespace Line

def startsFunction : List Token → Bool
  | [] => false
  | first :: rest =>
    first.isName "def" || (first.isName "async" && rest.head?.any fun second => second.isName "def")

def endsWithColon (line : List Token) : Bool :=
  (line.reverse.find? fun token => !token.isTrivia && token.kind != .newline).any
    fun last => last.isOp ":"

end Line

inductive Opener where
  | compound (header : List Token)
  | function (header : Header)
deriving DecidableEq, Repr

namespace Opener

def close (margin : Margin) (body : List Stmt) : Opener → Stmt
  | compound header => .compound header margin body
  | function header => .function header margin body

end Opener

structure Frame where
  opener : Opener
  margin : Margin
  /-- The statements in front of its header, in the same body. -/
  before : List Stmt

structure Reader where
  /-- The open blocks, the innermost first. -/
  frames : List Frame := []
  /-- The statements of the innermost block. -/
  body : List Stmt := []
  /-- The header that waits for its block, and the trivia behind it. -/
  waiting : Option (Opener × List Token) := none
  /-- Where the last token read begins. -/
  last : Position := .origin

namespace Reader

def push (reader : Reader) (stmt : Stmt) : Reader := { reader with body := reader.body ++ [stmt] }

/-- Reads a logical line: a function, a header with a block, or a simple statement. -/
def line (reader : Reader) (first : Token) (more : List Token) : Except Fault Reader :=
  if Line.startsFunction (first :: more) then do
    let (header, behind) ← Header.read first more
    if behind.any fun token => !token.isTrivia && token.kind != .newline then
      return reader.push (.inlineFunction header behind)
    else
      let header := { header with tail := header.tail ++ behind }
      return { reader with waiting := some (.function header, []) }
  else if Line.endsWithColon (first :: more) then
    .ok { reader with waiting := some (.compound (first :: more), []) }
  else .ok (reader.push (.simple (first :: more)))

def statement (reader : Reader) : Row → Except Fault Reader
  | .trivia first more => .ok (reader.push (.trivia (first :: more)))
  | .line first more => reader.line first more
  | .indent token => .error (.parse .unexpectedIndent token.start)
  | .dedent token => match reader.frames with
    | [] => .error (.parse .unexpectedBlockEnd token.start)
    | frame :: frames => .ok { reader with
        frames := frames
        body := frame.before ++ [frame.opener.close frame.margin reader.body] }
  | .stop token => .error (.parse .unexpectedBlockEnd token.start)
  | .broken _ fault => .error fault

def block (reader : Reader) (opener : Opener) (leading : List Token) :
    Row → Except Fault Reader
  | .trivia first more =>
    .ok { reader with waiting := some (opener, leading ++ first :: more) }
  | .indent token => .ok { reader with
      frames := ⟨opener, ⟨leading, some token⟩, reader.body⟩ :: reader.frames
      body := []
      waiting := none }
  | row => .error (.parse .expectedBlock row.start)

def step (reader : Reader) (row : Row) : Except Fault Reader := do
  let next ← match reader.waiting with
    | some (opener, leading) => reader.block opener leading row
    | none => reader.statement row
  return { next with last := row.lastStart }

def finish (reader : Reader) : Except Fault (List Stmt) :=
  match reader.waiting, reader.frames with
  | some _, _ => .error (.parse .expectedBlock reader.last)
  | none, _ :: _ => .error (.parse .unexpectedInputEndInBlock reader.last)
  | none, [] => .ok reader.body

def atStop (reader : Reader) : Row → Bool
  | .stop _ => reader.waiting.isNone && reader.frames.isEmpty
  | _ => false

def run (reader : Reader) : List Row → Except Fault (List Stmt)
  | [] => reader.finish
  | row :: rest =>
    if reader.atStop row then .ok reader.body
    else do
      let next ← reader.step row
      next.run rest

end Reader

def Program.ofTokens (tokens : List Token) : Except Fault Program := do
  return ⟨← Reader.run {} (Row.ofTokens tokens)⟩

end DeferredDefaults
