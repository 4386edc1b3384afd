import DeferredDefaults.Page
import DeferredDefaults.Proofs.Token.Yield

/-!
What a tree says, token by token and places aside: the tokens of its text, every late default as a
call of the wrapper on a lambda, the lines that have been added, and an indent and a dedent around
every block. A suite on its header's line becomes a block only if it cannot stay there.
-/

set_option autoImplicit false
set_option relaxedAutoImplicit false

namespace DeferredDefaults

def listing : List String → List (Kind × String)
  | [] => []
  | name :: rest => (.name, name) :: rest.flatMap fun other => [(.op, ","), (.name, other)]

/-- The expression of a late default: its only argument without the comma, or all arguments with
their commas in parentheses. -/
def Deferred.body (deferred : Deferred) : List (Kind × String) :=
  if deferred.isTuple then
    (.op, "(") :: gist (deferred.call.args.flatMap Argument.tokens) ++ [(.op, ")")]
  else gist (deferred.call.args.flatMap Argument.value)

/-- A late default: the wrapper around a lambda over the names it reads. The bracket that closes the
marker call closes the call of the wrapper. -/
def Deferred.linear (options : Options) (deferred : Deferred) : List (Kind × String) :=
  [(.name, options.wrapperName), (.op, "("), (.name, "lambda")] ++ listing deferred.dependencies ++
    (.op, ":") :: deferred.body ++ gist [deferred.call.closing]

def ParameterDefault.linear (options : Options) (default : ParameterDefault) :
    List (Kind × String) :=
  gist [default.eq] ++ match default.value with
    | .expression tokens => gist tokens
    | .deferred value => value.linear options

def ParameterItem.linear (options : Options) : ParameterItem → List (Kind × String)
  | .separator value => gist (value.token :: value.suffix)
  | .parameter value =>
    gist (value.stars ++ value.name :: value.hint) ++
      (value.default.map (ParameterDefault.linear options)).getD [] ++ gist value.suffix

def Header.linear (options : Options) (header : Header) : List (Kind × String) :=
  gist (header.head ++ header.parameters.leading) ++
    header.parameters.items.flatMap (ParameterItem.linear options) ++ gist header.tail

/-- The tokens of a line that does not come from the text, without the end marker behind it. -/
def lineGist (text : String) : List (Kind × String) :=
  match tokenize text with
  | .ok tokens => (gist tokens).dropLast
  | .error _ => []

def blockGist (body : List (Kind × String)) : List (Kind × String) :=
  (.indent, "") :: body ++ [(.dedent, "")]

mutual

/-- What a statement says. -/
def Stmt.linear (options : Options) : Stmt → List (Kind × String)
  | .trivia _ => []
  | .simple line => gist line
  | .compound header _ body => gist header ++ blockGist (bodyLinear options body)
  | .function header margin body => header.linear options ++
    match margin.indent with
    | some _ => blockGist (bodyLinear options body)
    | none => match Page.inlineLine? options body with
      | some line => gist line
      | none => (.newline, "") :: blockGist (bodyLinear options body)
  | .inlineFunction header line => header.linear options ++ gist line
  | .prologue resolutions => (Page.prologueLines options resolutions).flatMap lineGist
  | .runtimeImport => lineGist options.importLine

def bodyLinear (options : Options) : List Stmt → List (Kind × String)
  | [] => []
  | stmt :: rest => stmt.linear options ++ bodyLinear options rest

end

def Program.linear (options : Options) (program : Program) : List (Kind × String) :=
  bodyLinear options program.body ++ [(.endMarker, "")]

end DeferredDefaults
