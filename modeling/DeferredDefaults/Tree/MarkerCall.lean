import DeferredDefaults.Tree.Items

/-!
A call of the marker that takes up a whole expression: the marker's name, comments and line breaks,
and one pair of parentheses around the arguments.
-/

set_option autoImplicit false
set_option relaxedAutoImplicit false

namespace DeferredDefaults

/-- An argument with the comma behind it, if there is one. -/
structure Argument where
  value : List Token
  comma : Option Token
deriving DecidableEq, Repr

def Argument.tokens (argument : Argument) : List Token := argument.value ++ argument.comma.toList

structure MarkerCall where
  name : Token
  /-- Comments and line breaks between the name and the parenthesis. -/
  gap : List Token
  opening : Token
  args : List Argument
  /-- Comments and line breaks behind the last comma. -/
  trailing : List Token
  closing : Token
deriving DecidableEq, Repr

namespace MarkerCall

def inner (call : MarkerCall) : List Token := call.args.flatMap Argument.tokens ++ call.trailing

def tokens (call : MarkerCall) : List Token :=
  call.name :: call.gap ++ call.opening :: call.inner ++ [call.closing]

def position (call : MarkerCall) : Position := call.name.start

/-- The arguments between the parentheses. What follows the last comma is an argument unless it is
trivia alone. -/
def arguments (pieces : Pieces) : List Argument × List Token :=
  let ended := pieces.ended.map fun piece => (⟨piece.value, some piece.comma⟩ : Argument)
  if pieces.last.all Token.isTrivia then (ended, pieces.last)
  else (ended ++ [⟨pieces.last, none⟩], [])

/-- Reads tokens that are exactly one call of `marker`. -/
def ofTokens? (marker : String) : List Token → Option MarkerCall
  | [] => none
  | name :: rest =>
    if name.isName marker then
      match rest.dropWhile Token.isTrivia with
      | [] => none
      | opening :: inner =>
        if opening.isOp "(" then
          match Cut.atClose 0 inner with
          | some ⟨body, closing, []⟩ =>
            let arguments := arguments (Pieces.ofTokens {} body)
            some ⟨name, rest.takeWhile Token.isTrivia, opening, arguments.1, arguments.2, closing⟩
          | _ => none
        else none
    else none

/-- The tokens are exactly one call of `marker`. -/
def isCall (marker : String) (tokens : List Token) : Bool := (ofTokens? marker tokens).isSome

end MarkerCall

end DeferredDefaults
