import DeferredDefaults.Token

/-!
Lists inside brackets: where a bracket closes, where an operator stands outside brackets, and which
commas separate the items of a parameter or argument list. Commas inside brackets belong to an
inner expression, and commas between `lambda` and its `:` to the parameters of the lambda.
-/

set_option autoImplicit false
set_option relaxedAutoImplicit false

namespace DeferredDefaults

structure Cut where
  before : List Token
  token : Token
  after : List Token
deriving DecidableEq, Repr

namespace Cut

def tokens (cut : Cut) : List Token := cut.before ++ cut.token :: cut.after

def push (token : Token) (cut : Cut) : Cut := { cut with before := token :: cut.before }

@[simp] theorem tokens_push (token : Token) (cut : Cut) :
    (cut.push token).tokens = token :: cut.tokens := rfl

/-- Cuts at the bracket that closes the one in front of the list, with `depth` more open. -/
def atClose : (depth : Nat) → List Token → Option Cut
  | _, [] => none
  | depth, token :: rest =>
    if token.opensBracket then (atClose (depth + 1) rest).map (push token)
    else if token.closesBracket then
      match depth with
      | 0 => some ⟨[], token, rest⟩
      | depth + 1 => (atClose depth rest).map (push token)
    else (atClose depth rest).map (push token)

/-- Cuts at the first operator `op` outside brackets, `depth` of them being open. -/
def atOp (op : String) : (depth : Nat) → List Token → Option Cut
  | _, [] => none
  | depth, token :: rest =>
    if depth = 0 ∧ token.isOp op then some ⟨[], token, rest⟩
    else (atOp op (token.depthAfter depth) rest).map (push token)

theorem atClose_cons (depth : Nat) (token : Token) (rest : List Token) :
    atClose depth (token :: rest) =
      if depth = 0 ∧ token.closesBracket then some ⟨[], token, rest⟩
      else (atClose (token.depthAfter depth) rest).map (push token) := by
  by_cases opens : token.opensBracket = true
  · simp [atClose, Token.depthAfter, opens, Token.closesBracket_of_opensBracket opens]
  · by_cases closes : token.closesBracket = true
    · cases depth <;> simp [atClose, Token.depthAfter, opens, closes]
    · simp [atClose, Token.depthAfter, opens, closes]

theorem tokens_atClose {depth : Nat} {list : List Token} {cut : Cut}
    (found : atClose depth list = some cut) : cut.tokens = list := by
  induction list generalizing depth cut with
  | nil => simp [atClose] at found
  | cons token rest ih =>
    rw [atClose_cons] at found
    split at found
    · cases found; rfl
    · obtain ⟨tail, tailFound, rfl⟩ := Option.map_eq_some_iff.1 found
      rw [tokens_push, ih tailFound]

theorem tokens_atOp {op : String} {depth : Nat} {list : List Token} {cut : Cut}
    (found : atOp op depth list = some cut) : cut.tokens = list := by
  induction list generalizing depth cut with
  | nil => simp [atOp] at found
  | cons token rest ih =>
    unfold atOp at found
    split at found
    · cases found; rfl
    · obtain ⟨tail, tailFound, rfl⟩ := Option.map_eq_some_iff.1 found
      rw [tokens_push, ih tailFound]

end Cut

/-- What a list has open: brackets, and outside brackets the lambdas whose `:` is still to come. -/
structure Splitter where
  depth : Nat := 0
  lambdas : Nat := 0
deriving DecidableEq, Repr

namespace Splitter

def separates (splitter : Splitter) (token : Token) : Bool :=
  splitter.depth == 0 && splitter.lambdas == 0 && token.isOp ","

/-- What is open after the next token. -/
def after (splitter : Splitter) (token : Token) : Splitter :=
  if token.opensBracket || token.closesBracket then
    { splitter with depth := token.depthAfter splitter.depth }
  else if splitter.depth = 0 then
    if token.isName "lambda" then { splitter with lambdas := splitter.lambdas + 1 }
    else if token.isOp ":" then { splitter with lambdas := splitter.lambdas - 1 }
    else splitter
  else splitter

/-- For every token, whether it separates two items. -/
def flags (splitter : Splitter) : List Token → List Bool
  | [] => []
  | token :: rest => splitter.separates token :: flags (splitter.after token) rest

def separators (tokens : List Token) : List Nat :=
  ((flags {} tokens).zipIdx.filter Prod.fst).map Prod.snd

end Splitter

structure Piece where
  value : List Token
  comma : Token
deriving DecidableEq, Repr

namespace Piece

def tokens (piece : Piece) : List Token := piece.value ++ [piece.comma]

end Piece

/-- A list cut into its items: those with a comma behind them, and what follows the last comma. -/
structure Pieces where
  ended : List Piece
  last : List Token
deriving DecidableEq, Repr

namespace Pieces

def tokens (pieces : Pieces) : List Token := pieces.ended.flatMap Piece.tokens ++ pieces.last

def push (token : Token) : Pieces → Pieces
  | ⟨[], last⟩ => ⟨[], token :: last⟩
  | ⟨piece :: ended, last⟩ => ⟨{ piece with value := token :: piece.value } :: ended, last⟩

def separate (comma : Token) (pieces : Pieces) : Pieces :=
  { pieces with ended := ⟨[], comma⟩ :: pieces.ended }

@[simp] theorem tokens_push (token : Token) (pieces : Pieces) :
    (pieces.push token).tokens = token :: pieces.tokens := by
  obtain ⟨ended, last⟩ := pieces
  cases ended with
  | nil => rfl
  | cons piece ended => simp [push, tokens, Piece.tokens]

@[simp] theorem tokens_separate (comma : Token) (pieces : Pieces) :
    (pieces.separate comma).tokens = comma :: pieces.tokens := by
  simp [separate, tokens, Piece.tokens]

/-- Cuts a list at its separating commas. -/
def ofTokens (splitter : Splitter) : List Token → Pieces
  | [] => ⟨[], []⟩
  | token :: rest =>
    let others := ofTokens (splitter.after token) rest
    if splitter.separates token then others.separate token else others.push token

@[simp] theorem tokens_ofTokens (splitter : Splitter) (list : List Token) :
    (ofTokens splitter list).tokens = list := by
  induction list generalizing splitter with
  | nil => rfl
  | cons token rest ih =>
    rw [ofTokens]
    split <;> simp [ih]

end Pieces

end DeferredDefaults
