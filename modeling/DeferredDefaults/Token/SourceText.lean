import DeferredDefaults.Fault
import DeferredDefaults.Token

/-!
The text of a list of tokens, laid out by their positions. Indentation is restored from the indent
tokens, gaps between columns become spaces, and a jump to a later row outside a line break becomes
backslash continuations. Positions must not go back.
-/

set_option autoImplicit false
set_option relaxedAutoImplicit false

namespace DeferredDefaults

structure SourceText where
  /-- The indentations of the open blocks, the innermost first. -/
  indents : List String := []
  /-- The place behind the last token. -/
  last : Position := .origin
  /-- A row has ended and no indentation has been written since. -/
  lineStart : Bool := false
deriving DecidableEq, Repr

namespace SourceText

/-- The indentation in front of a token. A token that stands left of it gets none. -/
def lead (writer : SourceText) (token : Token) : List Char × SourceText :=
  match writer.lineStart, writer.indents with
  | true, indent :: _ =>
    let width := indent.toList.length
    if width ≤ token.start.col then
      (indent.toList,
        { writer with lineStart := false, last := ⟨writer.last.row, width⟩ })
    else ([], { writer with lineStart := false })
  | _, _ => ([], writer)

/-- The continuations and spaces between two places. -/
def gap (last start : Position) : List Char :=
  let column := if last.row < start.row then 0 else last.col
  (List.replicate (start.row - last.row) ['\\', '\n']).flatten ++
    List.replicate (start.col - column) ' '

/-- The gap in front of a token and its text. -/
def place (writer : SourceText) (token : Token) : Except Fault (List Char × SourceText) :=
  if token.start < writer.last then .error (.overlap token.start)
  else
    let last := if token.isBreak then token.stop.nextRow else token.stop
    .ok (gap writer.last token.start ++ token.text.toList, { writer with last := last })

def step (writer : SourceText) (token : Token) : Except Fault (List Char × SourceText) :=
  match token.kind with
  | .indent => .ok ([], { writer with indents := token.text :: writer.indents })
  | .dedent => .ok ([], { writer with indents := writer.indents.tail, last := token.stop })
  | .newline | .nl => { writer with lineStart := true }.place token
  | _ => do
    let (indent, led) := writer.lead token
    let (text, next) ← led.place token
    return (indent ++ text, next)

/-- The text of tokens up to the end marker. -/
def run (writer : SourceText) : List Token → Except Fault (List Char)
  | [] => .ok []
  | token :: rest =>
    if token.kind = .endMarker then .ok []
    else do
      let (text, next) ← writer.step token
      let others ← next.run rest
      return text ++ others

end SourceText

def sourceText (tokens : List Token) : Except Fault String :=
  (SourceText.run {} tokens).map String.ofList

end DeferredDefaults
