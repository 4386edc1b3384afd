import DeferredDefaults.Token

/-!
The sigil of a late default is an `=` with a `>` directly behind it. Marking replaces the `>` of
every sigil by a name, the marker, so that the tokens read as an ordinary default that calls the
marker. The marker stands one column behind the place of the `>`, the token after it directly
behind the marker, and the rest of the row moves along. A column is a machine word: `fits` says for
which tokens, however inconsistent, every sum of columns is one.
-/

set_option autoImplicit false
set_option relaxedAutoImplicit false

namespace DeferredDefaults

structure Shift where
  row : Nat
  delta : Int
deriving DecidableEq, Repr

namespace Shift

/-- The place of `p` after the move. Other rows stay, and no column goes below zero. -/
def place (shift : Shift) (p : Position) : Position :=
  if p.row = shift.row then ⟨p.row, ((p.col : Int) + shift.delta).toNat⟩ else p

/-- A token after the move of its row. A token on another row ends the move. -/
def move (shift : Option Shift) (token : Token) : Token × Option Shift :=
  match shift with
  | none => (token, none)
  | some shift =>
    if token.start.row = shift.row then
      ({ token with start := shift.place token.start, stop := shift.place token.stop }, some shift)
    else (token, none)

end Shift

namespace Sigil

def isSigil (eq gt : Token) : Bool := eq.isOp "=" && gt.isOp ">" && gt.start == eq.stop

/-- The marker that takes the place of `gt` on a row that has moved by `offset`. Where tokens go
back on their row the sum can be negative: it is then no column, and `fits` fails. -/
def markerAt (marker : String) (gt : Token) (offset : Int) : Token :=
  let start : Position := ⟨gt.start.row, ((gt.start.col : Int) + offset + 1).toNat⟩
  ⟨.name, marker, start, start.right marker.toList.length⟩

/-- The move of the row behind a marker: its next token follows the marker directly. -/
def shiftBehind (marker : Token) : List Token → Option Shift
  | next :: _ =>
    if next.start.row = marker.start.row then
      some ⟨marker.start.row, (marker.stop.col : Int) - next.start.col⟩
    else none
  | [] => none

/-- Marks the sigils of a list of tokens whose row has moved by `shift`, `count` sigils having been
marked before. Every token comes with the number of sigils marked up to it. -/
def markFrom (marker : String) (shift : Option Shift) (count : Nat) :
    List Token → List (Token × Nat)
  | [] => []
  | [token] => [((Shift.move shift token).1, count)]
  | token :: next :: rest =>
    let moved := Shift.move shift token
    if isSigil token next then
      let name := markerAt marker next ((moved.2.map Shift.delta).getD 0)
      (moved.1, count + 1) :: (name, count + 1) ::
        markFrom marker (shiftBehind name rest) (count + 1) rest
    else
      (moved.1, count) :: markFrom marker moved.2 count (next :: rest)

/-- Marks every sigil, with the number of sigils marked up to each token. -/
def markCounting (marker : String) (tokens : List Token) : List (Token × Nat) :=
  markFrom marker none 0 tokens

def mark (marker : String) (tokens : List Token) : List Token :=
  (markCounting marker tokens).map Prod.fst

/-- The columns of the token are those of a signed machine word. -/
def inWord (token : Token) : Bool :=
  token.start.col < Nat.pow 2 63 && token.stop.col < Nat.pow 2 63

/-- All columns of the tokens are machine words, before marking and after it, and no sum that places
a marker is negative. -/
def fits (marker : String) (shift : Option Shift) : List Token → Bool
  | [] => true
  | [token] => inWord token && inWord (Shift.move shift token).1
  | token :: next :: rest =>
    let moved := Shift.move shift token
    inWord token && inWord moved.1 &&
      if isSigil token next then
        let offset := (moved.2.map Shift.delta).getD 0
        let name := markerAt marker next offset
        decide (0 ≤ (next.start.col : Int) + offset) && inWord next && inWord name &&
          fits marker (shiftBehind name rest) rest
      else fits marker moved.2 (next :: rest)

theorem length_markFrom (marker : String) (shift : Option Shift) (count : Nat)
    (tokens : List Token) : (markFrom marker shift count tokens).length = tokens.length := by
  fun_induction markFrom marker shift count tokens with
  | case1 => rfl
  | case2 => rfl
  | case3 _ _ _ _ _ _ _ _ ih => simp [ih]
  | case4 _ _ _ _ _ _ _ ih => simpa using ih

end Sigil

end DeferredDefaults
