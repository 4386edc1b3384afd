import DeferredDefaults.Position

/-!
Tokens: the units of a source text that carry meaning or layout, each with its text and the places
where it starts and stops.
-/

set_option autoImplicit false
set_option relaxedAutoImplicit false

namespace DeferredDefaults

inductive Kind where
  | name
  | number
  | string
  /-- An operator or a delimiter. -/
  | op
  | comment
  /-- The end of a logical line. -/
  | newline
  /-- A line break that ends no logical line: a blank line, a comment line, inside brackets. -/
  | nl
  | indent
  | dedent
  | endMarker
  /-- A character that starts no lexeme. -/
  | stray
deriving DecidableEq, Repr, Inhabited

/-- A unit of source text. -/
structure Token where
  kind : Kind
  text : String
  start : Position
  stop : Position
deriving DecidableEq, Repr, Inhabited

namespace Token

def isOp (token : Token) (op : String) : Bool := token.kind == .op && token.text == op

theorem isOp_iff {token : Token} {op : String} :
    token.isOp op = true ↔ token.kind = .op ∧ token.text = op := by
  simp [isOp]

def isName (token : Token) (name : String) : Bool := token.kind == .name && token.text == name

/-- Comments and line breaks that end no logical line carry no syntax. -/
def isTrivia (token : Token) : Bool := token.kind == .comment || token.kind == .nl

def isBreak (token : Token) : Bool := token.kind == .newline || token.kind == .nl

/-- Indents, dedents and the end marker carry layout and no text of a line. -/
def isLayout (token : Token) : Bool :=
  token.kind == .indent || token.kind == .dedent || token.kind == .endMarker

def isSignificant (token : Token) : Bool :=
  !(token.isTrivia || token.kind == .newline || token.isLayout)

def opensBracket (token : Token) : Bool :=
  token.isOp "(" || token.isOp "[" || token.isOp "\x7b"

def closesBracket (token : Token) : Bool :=
  token.isOp ")" || token.isOp "]" || token.isOp "\x7d"

/-- The depth of open brackets after a token. A closing bracket too many is passed over. -/
def depthAfter (depth : Nat) (token : Token) : Nat :=
  if token.opensBracket then depth + 1 else if token.closesBracket then depth - 1 else depth

theorem closesBracket_of_opensBracket {token : Token} (opens : token.opensBracket = true) :
    token.closesBracket = false := by
  simp only [opensBracket, closesBracket, isOp, Bool.or_eq_true, Bool.and_eq_true,
    beq_iff_eq] at opens ⊢
  rcases opens with (⟨_, text⟩ | ⟨_, text⟩) | ⟨_, text⟩ <;> simp [text]

theorem opensBracket_of_closesBracket {token : Token} (closes : token.closesBracket = true) :
    token.opensBracket = false := by
  rw [← Bool.not_eq_true]
  intro opens
  rw [closesBracket_of_opensBracket opens] at closes
  cases closes

theorem isOp_of_isTrivia {token : Token} (trivia : token.isTrivia = true) (op : String) :
    token.isOp op = false := by
  simp only [isTrivia, Bool.or_eq_true, beq_iff_eq] at trivia
  rcases trivia with kind | kind <;> simp [isOp, kind]

theorem isName_of_isTrivia {token : Token} (trivia : token.isTrivia = true) (name : String) :
    token.isName name = false := by
  simp only [isTrivia, Bool.or_eq_true, beq_iff_eq] at trivia
  rcases trivia with kind | kind <;> simp [isName, kind]

theorem depthAfter_of_isTrivia {token : Token} (trivia : token.isTrivia = true) (depth : Nat) :
    depthAfter depth token = depth := by
  simp [depthAfter, opensBracket, closesBracket, isOp_of_isTrivia trivia]

end Token

end DeferredDefaults
