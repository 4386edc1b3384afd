import DeferredDefaults.Fault
import DeferredDefaults.Token

/-!
Rows: the tokens of a text gathered into logical lines, runs of trivia between them, and the tokens
that open and close blocks. A line that is cut off becomes a broken row, which carries the fault.
-/

set_option autoImplicit false
set_option relaxedAutoImplicit false

namespace DeferredDefaults

/-- A group of tokens between two places where a statement may begin. -/
inductive Row where
  /-- Comment and blank lines. -/
  | trivia (first : Token) (more : List Token)
  /-- A logical line with the token that ends it. -/
  | line (first : Token) (more : List Token)
  | indent (token : Token)
  | dedent (token : Token)
  /-- The end marker. -/
  | stop (token : Token)
  /-- A line without an end. -/
  | broken (first : Token) (fault : Fault)
deriving DecidableEq, Repr

namespace Row

def tokens : Row → List Token
  | trivia first more => first :: more
  | line first more => first :: more
  | indent token => [token]
  | dedent token => [token]
  | stop token => [token]
  | broken first _ => [first]

def start : Row → Position
  | trivia first _ => first.start
  | line first _ => first.start
  | indent token => token.start
  | dedent token => token.start
  | stop token => token.start
  | broken first _ => first.start

def lastStart (row : Row) : Position := ((row.tokens.getLast?).map Token.start).getD row.start

/-- A row that has begun. The tokens behind its first are kept in reverse. -/
inductive Begun where
  | nothing
  | trivia (first : Token) (reversed : List Token)
  | line (first : Token) (reversed : List Token)
deriving DecidableEq, Repr

/-- The run of trivia that ends here, if one has begun. -/
def Begun.ended : Begun → List Row
  | trivia first reversed => [.trivia first reversed.reverse]
  | _ => []

def Begun.addTrivia (token : Token) : Begun → Begun
  | trivia first reversed => .trivia first (token :: reversed)
  | _ => .trivia token []

/-- The rows of a list of tokens, when a row has begun. Nothing is read past the end marker. -/
def gather : Begun → List Token → List Row
  | .line first reversed, [] =>
    [.broken first (.parse .unexpectedInputEnd (reversed.head?.getD first).start)]
  | begun, [] => begun.ended
  | .line first reversed, token :: rest => match token.kind with
    | .newline => .line first (token :: reversed).reverse :: gather .nothing rest
    | .indent | .dedent | .endMarker =>
      [.broken first (.parse .unexpectedLineEnd token.start)]
    | _ => gather (.line first (token :: reversed)) rest
  | begun, token :: rest => match token.kind with
    | .comment | .nl => gather (begun.addTrivia token) rest
    | .indent => begun.ended ++ .indent token :: gather .nothing rest
    | .dedent => begun.ended ++ .dedent token :: gather .nothing rest
    | .endMarker => begun.ended ++ [.stop token]
    | .newline => begun.ended ++ .line token [] :: gather .nothing rest
    | _ => begun.ended ++ gather (.line token []) rest

def ofTokens (tokens : List Token) : List Row := gather .nothing tokens

end Row

end DeferredDefaults
