/-!
Places in a text. Rows are counted from one and columns from zero, in characters. A row ends with
a carriage return, a line feed or both in this order.
-/

set_option autoImplicit false
set_option relaxedAutoImplicit false

namespace DeferredDefaults

/-- A row and a column of a text. -/
structure Position where
  row : Nat
  col : Nat
deriving DecidableEq, Repr, Inhabited

namespace Position

def origin : Position := ⟨1, 0⟩

/-- Rows compare first, then columns. -/
instance : LT Position := ⟨fun p q => p.row < q.row ∨ (p.row = q.row ∧ p.col < q.col)⟩

instance (p q : Position) : Decidable (p < q) :=
  inferInstanceAs (Decidable (p.row < q.row ∨ (p.row = q.row ∧ p.col < q.col)))

theorem lt_iff {p q : Position} :
    p < q ↔ p.row < q.row ∨ (p.row = q.row ∧ p.col < q.col) := Iff.rfl

def nextRow (p : Position) : Position := ⟨p.row + 1, 0⟩

/-- The place `count` columns further on the row. -/
def right (p : Position) (count : Nat) : Position := ⟨p.row, p.col + count⟩

def advance (p : Position) : List Char → Position
  | [] => p
  | '\r' :: '\n' :: rest => advance p.nextRow rest
  | c :: rest => if c = '\r' ∨ c = '\n' then advance p.nextRow rest else advance (p.right 1) rest

def render (p : Position) : String := toString p.row ++ ":" ++ toString p.col

end Position

end DeferredDefaults
