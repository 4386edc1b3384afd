import DeferredDefaults.Sigil

/-!
Marking from left to right. Marking looks at two tokens at a time, and behind a sigil at the token
after it. The same marks come from a scan that looks at one token at a time and remembers the token
before it and how the row goes on.
-/

set_option autoImplicit false
set_option relaxedAutoImplicit false

namespace DeferredDefaults.Sigil

inductive Pending where
  | moved (shift : Option Shift)
  /-- The next token on the row follows this marker directly. -/
  | behind (marker : Token)

def Pending.shift (pending : Pending) (token : Token) : Option Shift :=
  match pending with
  | .moved shift => shift
  | .behind marker => shiftBehind marker [token]

def isMarked (previous : Option Token) (token : Token) : Bool :=
  previous.any fun eq => isSigil eq token

def scan (marker : String) (previous : Option Token) (pending : Pending) :
    List Token → List Token
  | [] => []
  | token :: rest =>
    if isMarked previous token then
      let name := markerAt marker token (((pending.shift token).map Shift.delta).getD 0)
      name :: scan marker (some token) (.behind name) rest
    else
      let moved := Shift.move (pending.shift token) token
      moved.1 :: scan marker (some token) (.moved moved.2) rest

private theorem scan_behind (marker : String) (previous : Option Token) (name : Token)
    (tokens : List Token) :
    scan marker previous (.behind name) tokens =
      scan marker previous (.moved (shiftBehind name tokens)) tokens := by
  cases tokens with
  | nil => rfl
  | cons token rest => rfl

theorem isSigil_of_isSigil {eq gt : Token} (sigil : isSigil eq gt = true) (next : Token) :
    isSigil gt next = false := by
  simp only [isSigil, Token.isOp, Bool.and_eq_true, beq_iff_eq] at sigil
  have text : gt.text = ">" := sigil.1.2.2
  simp [isSigil, Token.isOp, text]

private theorem map_fst_markFrom (marker : String) :
    (tokens : List Token) → (shift : Option Shift) → (count : Nat) → (previous : Option Token) →
    (∀ token ∈ tokens.head?, isMarked previous token = false) →
    (markFrom marker shift count tokens).map Prod.fst = scan marker previous (.moved shift) tokens
  | [], _, _, _, _ => rfl
  | [token], shift, count, previous, plain => by
    have unmarked := plain token rfl
    simp only [markFrom, List.map_cons, List.map_nil, scan, unmarked, Bool.false_eq_true, if_false]
    rfl
  | token :: next :: rest, shift, count, previous, plain => by
    have unmarked := plain token rfl
    by_cases sigil : isSigil token next = true
    · have marked : isMarked (some token) next = true := sigil
      have behind : ∀ other ∈ rest.head?, isMarked (some next) other = false :=
        fun other _ => isSigil_of_isSigil sigil other
      simp only [markFrom, sigil, if_true, List.map_cons, scan, unmarked, marked,
        Bool.false_eq_true, if_false, scan_behind]
      rw [map_fst_markFrom marker rest _ _ (some next) behind]
      rfl
    · have behind : ∀ other ∈ (next :: rest).head?, isMarked (some token) other = false := by
        intro other member
        cases member
        simpa [isMarked] using sigil
      have others := map_fst_markFrom marker (next :: rest) (Shift.move shift token).2 count
        (some token) behind
      conv => rhs; rw [scan]
      simp only [markFrom, sigil, if_false, Bool.false_eq_true, List.map_cons, unmarked]
      rw [others]
      rfl

theorem mark_eq_scan (marker : String) (tokens : List Token) :
    mark marker tokens = scan marker none (.moved none) tokens :=
  map_fst_markFrom marker tokens none 0 none fun _ _ => rfl

/-- Every sigil is followed by a token that `select` picks. -/
def followedBy (select : Token → Bool) : List Token → Bool
  | eq :: gt :: rest =>
    (!isSigil eq gt || rest.head?.any select) && followedBy select (gt :: rest)
  | _ => true

theorem select_of_followedBy {select : Token → Bool} {tokens front back : List Token}
    {eq gt next : Token} (holds : followedBy select tokens = true)
    (split : tokens = front ++ eq :: gt :: next :: back) (sigil : isSigil eq gt = true) :
    select next = true := by
  induction front generalizing tokens with
  | nil =>
    rw [split, List.nil_append, followedBy, sigil, Bool.and_eq_true] at holds
    simpa using holds.1
  | cons token front ih =>
    have shorter : followedBy select (front ++ eq :: gt :: next :: back) = true := by
      rw [split, List.cons_append] at holds
      cases front with
      | nil =>
        rw [List.nil_append, followedBy, Bool.and_eq_true] at holds
        exact holds.2
      | cons second front =>
        rw [List.cons_append, followedBy, Bool.and_eq_true] at holds
        exact holds.2
    exact ih shorter rfl

end DeferredDefaults.Sigil
