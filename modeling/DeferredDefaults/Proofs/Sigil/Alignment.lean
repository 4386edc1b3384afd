import DeferredDefaults.Proofs.Sigil.Scan
import DeferredDefaults.Proofs.Token.Spacing

/-!
How far marking has moved a row. The place behind the last token before marking and the place
behind it after marking are on one row, and their columns differ by the move that is pending. So a
token that does not follow a marker keeps its distance to the token in front of it.
-/

set_option autoImplicit false
set_option relaxedAutoImplicit false

namespace DeferredDefaults.Sigil

/-- The places behind the last token, before marking and after it, fit the pending move. -/
structure Aligned (pending : Pending) (old new : Position) : Prop where
  row : new.row = old.row
  col : match pending with
    | .moved none => new.col = old.col
    | .moved (some shift) => shift.row ≤ old.row ∧
        (if shift.row = old.row then (new.col : Int) = old.col + shift.delta
          else new.col = old.col)
    | .behind marker => marker.start.row = old.row ∧ marker.stop = new

def Pending.step (pending : Pending) (token : Token) : Token × Option Shift :=
  Shift.move (pending.shift token) token

variable {pending : Pending} {old new : Position} {token : Token}

theorem step_unmoved (moved : ∀ shift, pending.shift token = some shift →
    token.start.row ≠ shift.row) : pending.step token = (token, none) := by
  unfold Pending.step Shift.move
  split
  · rfl
  · next shift found => rw [if_neg (moved shift found)]

theorem kind_step (pending : Pending) (token : Token) :
    (pending.step token).1.kind = token.kind ∧ (pending.step token).1.text = token.text ∧
      (pending.step token).1.start.row = token.start.row ∧
      (pending.step token).1.stop.row = token.stop.row := by
  have placeRow : ∀ (shift : Shift) (p : Position), (shift.place p).row = p.row := by
    intro shift p
    unfold Shift.place
    split <;> rfl
  unfold Pending.step Shift.move
  split
  · exact ⟨rfl, rfl, rfl, rfl⟩
  · split
    · exact ⟨rfl, rfl, placeRow _ _, placeRow _ _⟩
    · exact ⟨rfl, rfl, rfl, rfl⟩

/-- A marked token is the marker or one of the tokens, at another place. -/
theorem mem_mark {marker : String} {tokens : List Token} :
    ∀ token ∈ mark marker tokens, (token.kind = .name ∧ token.text = marker) ∨
      ∃ origin ∈ tokens, token.kind = origin.kind ∧ token.text = origin.text := by
  rw [mark_eq_scan]
  generalize none = previous
  generalize Pending.moved none = pending
  induction tokens generalizing previous pending with
  | nil => exact List.forall_mem_nil _
  | cons first rest ih =>
    have others : ∀ previous pending, ∀ token ∈ scan marker previous pending rest,
        (token.kind = .name ∧ token.text = marker) ∨
          ∃ origin ∈ first :: rest, token.kind = origin.kind ∧ token.text = origin.text := by
      intro previous pending token member
      refine (ih previous pending token member).imp_right ?_
      rintro ⟨origin, isOrigin, same⟩
      exact ⟨origin, List.mem_cons_of_mem _ isOrigin, same⟩
    rw [scan]
    split
    · exact List.forall_mem_cons.2 ⟨.inl ⟨rfl, rfl⟩, others _ _⟩
    · obtain ⟨kind, text, -⟩ := kind_step pending first
      exact List.forall_mem_cons.2
        ⟨.inr ⟨first, List.mem_cons_self, kind, text⟩, others _ _⟩

/-- What moving a token does to its places. -/
structure Moves (pending : Pending) (old new : Position) (token : Token) : Prop where
  ahead : new ≤ (pending.step token).1.start
  /-- A token on a later row stays where it is. -/
  later : old.row < token.start.row → (pending.step token).1.start = token.start
  /-- A token keeps its distance to what is in front of it, unless that is a marker. -/
  near : ∀ shift, pending = .moved shift →
    ((pending.step token).1.start = new ↔ token.start = old)
  /-- A token on the row of a marker follows it directly. -/
  behind : ∀ marker, pending = .behind marker → token.start.row = old.row →
    (pending.step token).1.start = new
  starts : Aligned (.moved (pending.step token).2) token.start (pending.step token).1.start
  stops : Aligned (.moved (pending.step token).2) token.stop (pending.step token).1.stop
  /-- The move behind the token is that of its row. -/
  row : ∀ shift, (pending.step token).2 = some shift → shift.row = token.start.row

private theorem Aligned.moves_of_unmoved (aligned : Aligned pending old new)
    (ahead : old ≤ token.start) (unmoved : pending.step token = (token, none))
    (sameCol : old.row = token.start.row → ∃ shift, pending = .moved shift ∧ new.col = old.col)
    (notBehind : ∀ marker, pending = .behind marker → token.start.row ≠ old.row) :
    Moves pending old new token := by
  have row := aligned.row
  have start : (pending.step token).1.start = token.start := by rw [unmoved]
  rw [Position.le_iff] at ahead
  have reached : new ≤ token.start := by
    rw [Position.le_iff]
    rcases ahead with later | ⟨same, right⟩
    · omega
    · obtain ⟨_, _, col⟩ := sameCol same
      omega
  refine ⟨by rwa [start], fun _ => start, fun shift _ => ?_, fun marker found same => ?_, ?_, ?_, ?_⟩
  · rw [start, Position.ext_iff', Position.ext_iff']
    by_cases same : old.row = token.start.row
    · obtain ⟨_, _, col⟩ := sameCol same
      omega
    · omega
  · exact absurd same (notBehind marker found)
  · rw [unmoved]
    exact ⟨rfl, rfl⟩
  · rw [unmoved]
    exact ⟨rfl, rfl⟩
  · intro shift found
    rw [unmoved] at found
    cases found

private theorem step_moved {shift : Shift} (found : pending.shift token = some shift)
    (row : shift.row = token.start.row) (within : 0 ≤ (token.start.col : Int) + shift.delta)
    (forward : token.start ≤ token.stop) :
    (pending.step token).1.start = ⟨token.start.row, ((token.start.col : Int) + shift.delta).toNat⟩ ∧
      (pending.step token).2 = some shift ∧
      Aligned (.moved (pending.step token).2) token.start (pending.step token).1.start ∧
      Aligned (.moved (pending.step token).2) token.stop (pending.step token).1.stop := by
  have step : pending.step token =
      ({ token with start := shift.place token.start, stop := shift.place token.stop },
        some shift) := by
    rw [Pending.step, found, Shift.move, if_pos row.symm]
  rw [Position.le_iff] at forward
  rw [step]
  refine ⟨?_, rfl, ⟨?_, ?_⟩, ?_, ?_⟩
  · simp only [Shift.place, if_pos row.symm]
  · simp only [Shift.place, if_pos row.symm]
  · simp only [Shift.place, if_pos row.symm, if_pos row]
    omega
  · simp only [Shift.place]
    split <;> rfl
  · simp only [Shift.place]
    refine ⟨by omega, ?_⟩
    by_cases same : token.stop.row = shift.row
    · rw [if_pos same, if_pos same.symm]
      simp only
      omega
    · rw [if_neg same, if_neg (Ne.symm same)]

theorem Aligned.moves (aligned : Aligned pending old new) (ahead : old ≤ token.start)
    (forward : token.start ≤ token.stop) : Moves pending old new token := by
  have sameRow := aligned.row
  have reach := ahead
  rw [Position.le_iff] at reach
  cases pending with
  | moved shift =>
    cases shift with
    | none =>
      refine aligned.moves_of_unmoved ahead (step_unmoved fun shift found => by cases found) ?_ nofun
      intro _
      exact ⟨none, rfl, aligned.col⟩
    | some shift =>
      obtain ⟨notLater, col⟩ := aligned.col
      by_cases row : shift.row = token.start.row
      · have here : shift.row = old.row := by omega
        rw [if_pos here] at col
        have found : (Pending.moved (some shift)).shift token = some shift := rfl
        obtain ⟨start, next, starts, stops⟩ := step_moved found row (by omega) forward
        refine ⟨?_, fun later => by omega, fun _ _ => ?_, nofun, starts, stops, ?_⟩
        · rw [start, Position.le_iff]
          simp only
          omega
        · rw [start, Position.ext_iff', Position.ext_iff']
          simp only
          omega
        · intro other found
          rw [next] at found
          cases found
          exact row
      · refine aligned.moves_of_unmoved ahead (step_unmoved ?_) ?_ nofun
        · intro other found
          cases found
          exact Ne.symm row
        · intro same
          rw [if_neg (by omega)] at col
          exact ⟨some shift, rfl, col⟩
  | behind marker =>
    obtain ⟨markerRow, markerStop⟩ := aligned.col
    by_cases row : token.start.row = marker.start.row
    · have found : (Pending.behind marker).shift token =
          some ⟨marker.start.row, (marker.stop.col : Int) - token.start.col⟩ := by
        simp only [Pending.shift, shiftBehind, if_pos row]
      obtain ⟨start, next, starts, stops⟩ := step_moved found row.symm (by simp only; omega) forward
      have place : ((Pending.behind marker).step token).1.start = new := by
        rw [start, Position.ext_iff', ← markerStop]
        simp only
        rw [markerStop]
        omega
      refine ⟨by rw [place]; exact Position.le_refl _, fun later => by omega, nofun,
        fun _ _ _ => place, starts, stops, ?_⟩
      intro other moved
      rw [next] at moved
      cases moved
      exact row.symm
    · have unmoved : (Pending.behind marker).step token = (token, none) := by
        apply step_unmoved
        intro shift found
        simp only [Pending.shift, shiftBehind, if_neg row] at found
        cases found
      exact aligned.moves_of_unmoved ahead unmoved (fun same => by omega) fun _ _ => by omega

theorem Moves.length (moves : Moves pending old new token) {count : Nat}
    (stop : token.stop = token.start.right count) :
    (pending.step token).1.stop = (pending.step token).1.start.right count := by
  have startRow := moves.starts.row
  have stopRow := moves.stops.row
  have startCol := moves.starts.col
  have stopCol := moves.stops.col
  have row := moves.row
  rw [stop] at stopRow stopCol
  rw [Position.ext_iff']
  simp only [Position.right] at stopRow stopCol ⊢
  cases shift : (pending.step token).2 with
  | none =>
    rw [shift] at startCol stopCol
    simp only at startCol stopCol
    omega
  | some move =>
    have here := row move shift
    rw [shift] at startCol stopCol
    simp only [here, if_true] at startCol stopCol
    omega

/-- A marker stands one column behind the `=`, and what follows it is aligned with its end. -/
theorem Aligned.marks {shift : Option Shift} (aligned : Aligned (.moved shift) old new)
    (here : ∀ move, shift = some move → move.row = old.row) {gt : Token} (start : gt.start = old)
    (stop : gt.stop = old.right 1) (marker : String) :
    let name := markerAt marker gt ((shift.map Shift.delta).getD 0)
    name.start = new.right 1 ∧ name.stop = name.start.right marker.toList.length ∧
      Aligned (.behind name) gt.stop name.stop := by
  have sameRow := aligned.row
  have place : (markerAt marker gt ((shift.map Shift.delta).getD 0)).start = new.right 1 := by
    rw [Position.ext_iff']
    simp only [markerAt, start, Position.right]
    cases shift with
    | none =>
      have col : new.col = old.col := aligned.col
      simp only [Option.map_none, Option.getD_none]
      omega
    | some move =>
      obtain ⟨_, col⟩ := aligned.col
      rw [if_pos (here move rfl)] at col
      simp only [Option.map_some, Option.getD_some]
      omega
  refine ⟨place, rfl, ?_, ?_, rfl⟩
  · rw [stop]
    simp only [markerAt, start, Position.right]
  · rw [stop]
    simp only [markerAt, start, Position.right]

end DeferredDefaults.Sigil
