import DeferredDefaults.Tree.Parameters

/-!
The tree of a source text: statements, nested in blocks. Only what late defaults need is taken
apart; all else stays as tokens, and every token is kept. Two kinds of statement do not come from
the text: the prologue, which resolves the late defaults of a function, and the import of the names
that the generated code uses.
-/

set_option autoImplicit false
set_option relaxedAutoImplicit false

namespace DeferredDefaults

/-- What stands between a header and the statements of its block. -/
structure Margin where
  /-- Comment and blank lines before the first indented line. -/
  leading : List Token
  /-- The indent token, or nothing for a block made from a suite on the header's own line. -/
  indent : Option Token
deriving DecidableEq, Repr

namespace Margin

def tokens (margin : Margin) : List Token := margin.leading ++ margin.indent.toList

def inline : Margin := ⟨[], none⟩

end Margin

/-- The header of a function. -/
structure Header where
  name : String
  isAsync : Bool
  /-- From the first keyword to the opening parenthesis. -/
  head : List Token
  parameters : Parameters
  /-- From the closing parenthesis to the colon, and for a block to the end of the line. -/
  tail : List Token
deriving DecidableEq, Repr

namespace Header

def tokens (header : Header) : List Token := header.head ++ header.parameters.tokens ++ header.tail

end Header

/-- How one late default is resolved when its function is entered. -/
structure Resolution where
  name : String
  dependencies : List String
deriving DecidableEq, Repr

inductive Stmt where
  /-- Comment and blank lines between statements. -/
  | trivia (tokens : List Token)
  /-- One logical line. -/
  | simple (line : List Token)
  /-- A header that is not a function's, and its block. -/
  | compound (header : List Token) (margin : Margin) (body : List Stmt)
  /-- A function with a block. -/
  | function (header : Header) (margin : Margin) (body : List Stmt)
  /-- A function with its suite on the header's own line. -/
  | inlineFunction (header : Header) (line : List Token)
  /-- Resolves the late defaults of the function whose body it stands in. -/
  | prologue (resolutions : List Resolution)
  /-- Imports the names that generated code uses. -/
  | runtimeImport
deriving Repr

namespace Stmt

def isTrivia : Stmt → Bool
  | trivia _ => true
  | _ => false

end Stmt

/-- The tree of a whole text. -/
structure Program where
  body : List Stmt
deriving Repr

namespace Line

def significant (line : List Token) : List Token := line.filter Token.isSignificant

/-- The token is a string that evaluates to text: no bytes and no formatted string. -/
def isTextLiteral (token : Token) : Bool :=
  token.kind == .string &&
    (token.text.toList.takeWhile Char.isAlpha).all fun c => c.toLower != 'b' && c.toLower != 'f'

def unwrap? : List Token → Option (List Token)
  | [] => none
  | first :: rest =>
    if first.isOp "(" && (rest.getLast?.any fun last => last.isOp ")") then some rest.dropLast
    else none

def unwrapped : (limit : Nat) → List Token → List Token
  | 0, tokens => tokens
  | limit + 1, tokens => match unwrap? tokens with
    | some inner => unwrapped limit inner
    | none => tokens

/-- The line is a docstring: string literals alone, in any number of parentheses. -/
def isDocstring (line : List Token) : Bool :=
  let code := significant line
  let inner := unwrapped code.length code
  !inner.isEmpty && inner.all isTextLiteral

def isFutureImport (line : List Token) : Bool :=
  match significant line with
  | first :: second :: third :: _ =>
    first.isName "from" && second.isName "__future__" && third.isName "import"
  | _ => false

end Line

namespace Stmt

def isDocstring : Stmt → Bool
  | simple line => Line.isDocstring line
  | _ => false

def isFutureImport : Stmt → Bool
  | simple line => Line.isFutureImport line
  | _ => false

end Stmt

mutual

/-- The tokens of a statement, in order. Statements that do not come from the text have none. -/
def Stmt.tokens : Stmt → List Token
  | .trivia tokens => tokens
  | .simple line => line
  | .compound header margin body => header ++ margin.tokens ++ bodyTokens body
  | .function header margin body => header.tokens ++ margin.tokens ++ bodyTokens body
  | .inlineFunction header line => header.tokens ++ line
  | .prologue _ => []
  | .runtimeImport => []

def bodyTokens : List Stmt → List Token
  | [] => []
  | stmt :: rest => stmt.tokens ++ bodyTokens rest

end

namespace Parameter

/-- The default of the parameter is an ordinary expression that is one call of `marker`. -/
def isMarked (marker : String) (parameter : Parameter) : Bool :=
  match parameter.default with
  | some ⟨_, .expression tokens⟩ => MarkerCall.isCall marker tokens
  | _ => false

end Parameter

def Header.markerCount (marker : String) (header : Header) : Nat :=
  header.parameters.list.countP (Parameter.isMarked marker)

mutual

def Stmt.markerCount (marker : String) : Stmt → Nat
  | .compound _ _ body => bodyMarkerCount marker body
  | .function header _ body => header.markerCount marker + bodyMarkerCount marker body
  | .inlineFunction header _ => header.markerCount marker
  | .trivia _ | .simple _ | .prologue _ | .runtimeImport => 0

def bodyMarkerCount (marker : String) : List Stmt → Nat
  | [] => 0
  | stmt :: rest => stmt.markerCount marker + bodyMarkerCount marker rest

end

namespace Program

def markerCount (marker : String) (program : Program) : Nat := bodyMarkerCount marker program.body

def tokens (program : Program) : List Token := bodyTokens program.body

end Program

end DeferredDefaults
