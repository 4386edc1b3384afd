import DeferredDefaults.Fault
import DeferredDefaults.Token
import DeferredDefaults.Token.Lexeme

/-!
Layout turns lexemes into tokens. It keeps the place in the text, the depth of open brackets, the
widths of the open blocks and the indentation of the current line, and adds the tokens that open
and close blocks and end lines. One lexeme is one step; a text is tokenized by stepping through its
lexemes and closing what is still open at the end.
-/

set_option autoImplicit false
set_option relaxedAutoImplicit false

namespace DeferredDefaults

/-- What layout knows between two lexemes. -/
structure Layout where
  /-- The place of the next lexeme. -/
  cursor : Position := .origin
  /-- The number of brackets that are open. -/
  depth : Nat := 0
  /-- The widths of the open blocks, the innermost first. -/
  blocks : List Nat := []
  /-- No code has appeared since the last logical line ended. -/
  atLineStart : Bool := true
  /-- The logical line that has begun holds code. -/
  lineHasCode : Bool := false
  /-- The space at the start of the current line. -/
  margin : List Char := []
deriving DecidableEq, Repr

namespace Layout

/-- The width of indentation: a tab goes on to the next multiple of eight and a form feed starts
over. -/
def width (margin : List Char) : Nat :=
  margin.foldl (fun width c =>
    if c = '\t' then (width / 8 + 1) * 8 else if c = '\x0c' then 0 else width + 1) 0

def top (layout : Layout) : Nat := layout.blocks.headD 0

def tokenAt (layout : Layout) (kind : Kind) (text : List Char) : Token :=
  ⟨kind, String.ofList text, layout.cursor, layout.cursor.advance text⟩

def past (layout : Layout) (text : List Char) : Layout :=
  { layout with cursor := layout.cursor.advance text }

def dedentAt (place : Position) : Token := ⟨.dedent, "", place, place⟩

/-- Opens or closes blocks so that the innermost one has the width of the current line. A line may
return only to a width that is still open. -/
def settle (layout : Layout) : Except Fault (List Token × Layout) :=
  let width := width layout.margin
  if layout.top < width then
    let indent : Token :=
      ⟨.indent, String.ofList layout.margin, ⟨layout.cursor.row, 0⟩, layout.cursor⟩
    .ok ([indent], { layout with blocks := width :: layout.blocks })
  else
    let closed := layout.blocks.takeWhile (width < ·)
    let kept := layout.blocks.dropWhile (width < ·)
    if kept.headD 0 = width then
      .ok (closed.map fun _ => dedentAt layout.cursor, { layout with blocks := kept })
    else
      .error (.lex .unmatchedUnindent layout.cursor)

/-- A line break ends a logical line only outside brackets and only when the line has code. The
token stays on its own row. -/
def lineBreak (layout : Layout) (text : List Char) : Token × Layout :=
  let kind := if 0 < layout.depth ∨ layout.lineHasCode = false then Kind.nl else Kind.newline
  let token : Token :=
    ⟨kind, String.ofList text, layout.cursor, layout.cursor.right text.length⟩
  let atLineStart := layout.atLineStart || kind == .newline
  (token,
    { layout with
      cursor := layout.cursor.nextRow
      atLineStart := atLineStart
      lineHasCode := layout.lineHasCode && kind != .newline
      margin := if atLineStart then [] else layout.margin })

def codeKind : Lexeme.Kind → Kind
  | .string => .string
  | .number => .number
  | .name => .name
  | .operator => .op
  | _ => .stray

def code (layout : Layout) (kind : Kind) (text : List Char) :
    Except Fault (List Token × Layout) := do
  let (blocks, settled) ← if layout.atLineStart then layout.settle else .ok ([], layout)
  let token := settled.tokenAt kind text
  return (blocks ++ [token],
    { settled.past text with
      depth := Token.depthAfter settled.depth token
      atLineStart := false
      lineHasCode := true })

def step (layout : Layout) (lexeme : Lexeme) : Except Fault (List Token × Layout) :=
  match lexeme.kind with
  | .space =>
    let margin :=
      if layout.atLineStart && layout.cursor.col == 0 then lexeme.text else layout.margin
    .ok ([], { layout with margin := margin, cursor := layout.cursor.right lexeme.text.length })
  | .continuation => .ok ([], { layout with cursor := layout.cursor.nextRow })
  | .lineBreak =>
    let (token, next) := layout.lineBreak lexeme.text
    .ok ([token], next)
  | .comment => .ok ([layout.tokenAt .comment lexeme.text], layout.past lexeme.text)
  | .openQuote => .error (.lex .unterminatedString layout.cursor)
  | kind => layout.code (codeKind kind) lexeme.text

/-- The tokens after the last lexeme: the end of a line that has none, the end of every open block,
and the end marker. -/
def finish (layout : Layout) : Except Fault (List Token) :=
  if 0 < layout.depth then .error (.lex .openBracketAtEnd layout.cursor)
  else
    let lineEnd : List Token :=
      if layout.lineHasCode then [⟨.newline, "", layout.cursor, layout.cursor.right 1⟩] else []
    let place : Position :=
      if layout.lineHasCode then layout.cursor.nextRow else ⟨layout.cursor.row, 0⟩
    .ok (lineEnd ++ layout.blocks.map (fun _ => dedentAt place) ++
      [⟨.endMarker, "", place, place⟩])

/-- The tokens of all lexemes, and of the end. -/
def run (layout : Layout) : List Lexeme → Except Fault (List Token)
  | [] => layout.finish
  | lexeme :: rest => do
    let (tokens, next) ← layout.step lexeme
    let others ← next.run rest
    return tokens ++ others

end Layout

def tokenize (source : String) : Except Fault (List Token) :=
  Layout.run {} (Lexeme.split source.toList)

end DeferredDefaults
