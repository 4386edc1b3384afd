import DeferredDefaults.Options
import DeferredDefaults.Tree

/-!
Printing a tree. Tokens keep their layout: gaps between tokens of one row become spaces, and a jump
to a later row inside a line becomes backslash continuations. Text that does not come from tokens
(the wrapper of a late default, the lines of a prologue, the import) leaves the place as it is.
-/

set_option autoImplicit false
set_option relaxedAutoImplicit false

namespace DeferredDefaults

structure Page where
  text : String := ""
  /-- Nothing has been printed on the current line. -/
  atLineStart : Bool := true
  /-- The place behind the last token of the current line. -/
  cursor : Option Position := none
deriving DecidableEq, Repr

namespace Page

def write (page : Page) (text : String) : Page :=
  { page with
    text := page.text ++ text
    atLineStart := match text.toList.getLast? with
      | some last => last == '\n'
      | none => page.atLineStart }

def moveTo (page : Page) (cursor : Option Position) : Page := { page with cursor := cursor }

/-- A page knows whether its text ends within a line, and writing keeps that knowledge. -/
theorem atLineStart_write {page : Page}
    (knows : page.atLineStart = page.text.toList.getLast?.all (· == '\n')) (text : String) :
    (page.write text).atLineStart = (page.write text).text.toList.getLast?.all (· == '\n') := by
  cases last : text.toList.getLast? with
  | none => simp [write, last, knows]
  | some c => simp [write, last]

def freshLine (page : Page) : Page :=
  if page.atLineStart then page else (page.write "\n").moveTo none

/-- The continuations and spaces in front of a token that starts at `start`. -/
def padding (cursor : Option Position) (start : Position) : String :=
  match cursor with
  | none => String.ofList (List.replicate start.col ' ')
  | some last =>
    if last.row < start.row then
      String.ofList ((List.replicate (start.row - last.row) ['\\', '\n']).flatten ++
        List.replicate start.col ' ')
    else String.ofList (List.replicate (start.col - last.col) ' ')

def padTo (page : Page) (start : Position) : Page := page.write (padding page.cursor start)

/-- Prints a token. Layout tokens have no text of their own. -/
def token (page : Page) (token : Token) : Page :=
  if token.isLayout then page
  else ((page.padTo token.start).write token.text).moveTo
    (if token.isBreak then none else some token.stop)

def tokens (page : Page) (tokens : List Token) : Page := tokens.foldl Page.token page

/-- Prints a logical line at an indentation. -/
def line (page : Page) (indent : String) : List Token → Page
  | [] => page
  | first :: rest =>
    ((page.freshLine.write indent).moveTo (some first.start)).tokens (first :: rest)

def addedLine (page : Page) (indent text : String) : Page :=
  (page.freshLine.write (indent ++ text ++ "\n")).moveTo none

/-- Prints the comma behind an argument. Only a tuple keeps it. -/
def comma (page : Page) (tuple : Bool) : Option Token → Page
  | none => page
  | some comma =>
    if tuple then page.token comma
    else if page.cursor.isSome then page.moveTo (some comma.stop)
    else page

def argument (page : Page) (tuple : Bool) (argument : Argument) : Page :=
  (page.tokens argument.value).comma tuple argument.comma

/-- The wrapper and the lambda in front of the expression of a late default. -/
def lambdaText (options : Options) (deferred : Deferred) : String :=
  let names := if deferred.dependencies.isEmpty then ""
    else " " ++ ", ".intercalate deferred.dependencies
  let space := if deferred.call.gap.head?.any fun first => first.kind == .nl then "" else " "
  options.wrapperName ++ "(lambda" ++ names ++ ":" ++ space

/-- Prints what stands between the marker and its parenthesis. -/
def gap (page : Page) (call : MarkerCall) : Page :=
  if call.gap.isEmpty then page
  else ((page.moveTo (some call.name.stop)).tokens call.gap).padTo call.opening.start

/-- Prints a late default: the wrapper around a lambda over the names it reads. -/
def deferred (page : Page) (options : Options) (deferred : Deferred) : Page :=
  let call := deferred.call
  let tuple := deferred.isTuple
  let opened := (((page.padTo call.name.start).write (lambdaText options deferred)).gap call).moveTo
    (some call.opening.stop)
  let listed := call.args.foldl (argument · tuple) (if tuple then opened.write "(" else opened)
  let ended := listed.tokens call.trailing
  (if tuple then ended.write ")" else ended).token call.closing

def default (page : Page) (options : Options) : Option ParameterDefault → Page
  | none => page
  | some ⟨eq, .expression tokens⟩ => (page.token eq).tokens tokens
  | some ⟨eq, .deferred deferred⟩ => (page.token eq).deferred options deferred

def item (options : Options) (page : Page) : ParameterItem → Page
  | .separator value => (page.token value.token).tokens value.suffix
  | .parameter value =>
    ((((page.tokens value.stars).token value.name).tokens value.hint).default options
      value.default).tokens value.suffix

/-- Prints the header of a function at an indentation. -/
def header (page : Page) (options : Options) (indent : String) (header : Header) : Page :=
  (header.parameters.items.foldl (item options)
    ((page.line indent header.head).tokens header.parameters.leading)).tokens header.tail

def assignmentLine (options : Options) (resolution : Resolution) : String :=
  "if isinstance(" ++ resolution.name ++ ", " ++ options.wrapperName ++ "): " ++ resolution.name ++
    " = " ++ resolution.name ++ "(" ++ ", ".intercalate resolution.dependencies ++ ")"

def prologueLines (options : Options) (resolutions : List Resolution) : List String :=
  match options.prologue with
  | .evaluator => [options.evaluatorName ++ "(locals())"]
  | .assignments => resolutions.map (assignmentLine options)

def isSilent (options : Options) : Stmt → Bool
  | .prologue resolutions => (prologueLines options resolutions).isEmpty
  | _ => false

/-- The line of a suite that may stay on its header's line, because nothing is printed beside it. -/
def inlineLine? (options : Options) (body : List Stmt) : Option (List Token) :=
  match body.filter fun stmt => !isSilent options stmt with
  | [.simple line] => some line
  | _ => none

/-- The indentation that a suite gets below its header when it cannot stay on the header's line. -/
def innerIndent : String := "    "

mutual

def statement (options : Options) (indent : String) : Stmt → Page → Page
  | .trivia tokens, page => page.tokens tokens
  | .simple line, page => page.line indent line
  | .compound first margin body, page =>
    let led := (page.line indent first).tokens margin.leading
    match margin.indent with
    | some inner => statements options inner.text body led
    | none => (statements options (indent ++ innerIndent) body led).freshLine
  | .function first margin body, page =>
    let headed := page.header options indent first
    match margin.indent with
    | some inner => statements options inner.text body (headed.tokens margin.leading)
    | none => match inlineLine? options body with
      | some line => headed.tokens line
      | none =>
        (statements options (indent ++ innerIndent) body
          (((headed.write "\n").moveTo none).tokens margin.leading)).freshLine
  | .inlineFunction first line, page => (page.header options indent first).tokens line
  | .prologue resolutions, page =>
    (prologueLines options resolutions).foldl (addedLine · indent) page
  | .runtimeImport, page => page.addedLine indent options.importLine

def statements (options : Options) (indent : String) : List Stmt → Page → Page
  | [], page => page
  | stmt :: rest, page => statements options indent rest (statement options indent stmt page)

end

end Page

def Program.render (options : Options) (program : Program) : String :=
  (Page.statements options "" program.body {}).text

end DeferredDefaults
