import DeferredDefaults.Proofs.Sigil.Stability

/-!
Marking touches only sigils. In any list of tokens the second half of every sigil becomes the
marker and all else keeps its kind and its text. In the tokens of a text, moreover, no token leaves
its row, nothing in front of the first sigil of a row moves, and behind it the distances stay: only
the marker has a column between itself and its `=`, and what follows it begins where it ends.
-/

set_option autoImplicit false
set_option relaxedAutoImplicit false

namespace DeferredDefaults.Sigil

def isMarkedAt (tokens : List Token) : (index : Nat) → Bool
  | 0 => false
  | index + 1 => (tokens[index]?).any fun eq => (tokens[index + 1]?).any fun gt => isSigil eq gt

/-- The number of sigils that marking finds. -/
def markedCount (marker : String) (tokens : List Token) : Nat :=
  ((markCounting marker tokens).getLast?.map Prod.snd).getD 0

/-- What a list of tokens and the list that marking makes of it have in common. -/
structure Confined (marker : String) (tokens marked : List Token) : Prop where
  length : marked.length = tokens.length
  count : markedCount marker tokens = (List.range tokens.length).countP (isMarkedAt tokens)
  /-- The second halves of sigils become the marker, all else keeps its kind and text. -/
  marks : ∀ (index : Nat) (token new : Token),
    tokens[index]? = some token → marked[index]? = some new →
    if isMarkedAt tokens index then
      new.kind = .name ∧ new.text = marker ∧ new.stop = new.start.right marker.toList.length
    else new.kind = token.kind ∧ new.text = token.text
  /-- A marker stands one column behind its `=`. -/
  places : ∀ (index : Nat) (eq gt new name : Token),
    tokens[index]? = some eq → tokens[index + 1]? = some gt → isSigil eq gt = true →
    marked[index]? = some new → marked[index + 1]? = some name →
    eq.stop.row = eq.start.row → name.start = new.stop.right 1

/-- How the tokens of a text and the marked ones stand to each other. -/
structure KeepsPlaces (tokens marked : List Token) : Prop where
  /-- No token leaves its row. -/
  rows : ∀ (index : Nat) (token new : Token),
    tokens[index]? = some token → marked[index]? = some new →
    new.start.row = token.start.row ∧ new.stop.row = token.stop.row
  /-- A token with no sigil in front of it on its row stays where it is. -/
  still : ∀ (index : Nat) (token : Token), tokens[index]? = some token →
    (∀ (earlier : Nat) (gt : Token), earlier ≤ index → isMarkedAt tokens earlier = true →
      tokens[earlier]? = some gt → gt.start.row ≠ token.start.row) →
    marked[index]? = some token
  /-- A token on one row keeps its width, unless it is replaced. -/
  widths : ∀ (index : Nat) (token new : Token),
    tokens[index]? = some token → marked[index]? = some new →
    isMarkedAt tokens index = false → token.stop.row = token.start.row →
    (new.stop.col : Int) - new.start.col = token.stop.col - token.start.col
  /-- Neighbours on a row keep their distance, except around the marker. -/
  gaps : ∀ (index : Nat) (token next new newNext : Token),
    tokens[index]? = some token → tokens[index + 1]? = some next →
    marked[index]? = some new → marked[index + 1]? = some newNext →
    next.start.row = token.stop.row →
    if isMarkedAt tokens (index + 1) then newNext.start = new.stop.right 1
    else if isMarkedAt tokens index then newNext.start = new.stop
    else (newNext.start.col : Int) - new.stop.col = next.start.col - token.stop.col

variable {marker : String} {fresh : Bool} {previous last : Option Token} {pending : Pending}
  {old new : Position} {token next : Token} {front rest tokens : List Token}

/-- What becomes of a token, and how its row goes on. -/
def Pending.mark (marker : String) (previous : Option Token) (pending : Pending) (token : Token) :
    Token × Pending :=
  if isMarked previous token then
    let name := markerAt marker token (((pending.shift token).map Shift.delta).getD 0)
    (name, .behind name)
  else ((pending.step token).1, .moved (pending.step token).2)

theorem Pending.mark_marked (marked : isMarked previous token = true) :
    pending.mark marker previous token =
      (markerAt marker token (((pending.shift token).map Shift.delta).getD 0),
        .behind (markerAt marker token (((pending.shift token).map Shift.delta).getD 0))) := by
  rw [mark, if_pos marked]

theorem Pending.mark_unmarked (unmarked : isMarked previous token = false) :
    pending.mark marker previous token =
      ((pending.step token).1, .moved (pending.step token).2) := by
  rw [mark, if_neg (by simp [unmarked])]

private theorem isLayout_of_isOp {op : String} (isOp : token.isOp op = true) :
    token.isLayout = false := by
  rw [← Bool.not_eq_true]
  intro isLayout
  rw [isOp_of_isLayout isLayout] at isOp
  cases isOp

private theorem scan_cons (marker : String) (previous : Option Token) (pending : Pending)
    (token : Token) (rest : List Token) : scan marker previous pending (token :: rest) =
      (pending.mark marker previous token).1 ::
        scan marker (some token) (pending.mark marker previous token).2 rest := by
  rw [scan, Pending.mark]
  split <;> rfl

private theorem length_scan (marker : String) (previous : Option Token) (pending : Pending)
    (tokens : List Token) : (scan marker previous pending tokens).length = tokens.length := by
  induction tokens generalizing previous pending with
  | nil => rfl
  | cons token rest ih => rw [scan_cons, List.length_cons, ih, List.length_cons]

def Pending.behindAll (marker : String) : Option Token → Pending → List Token → Pending
  | _, pending, [] => pending
  | previous, pending, token :: rest =>
    behindAll marker (some token) (pending.mark marker previous token).2 rest

private theorem getLast?_cons_or (token : Token) (front : List Token) (previous : Option Token) :
    (token :: front).getLast?.or previous = front.getLast?.or (some token) := by
  cases front with
  | nil => rfl
  | cons next front => simp [List.getLast?_cons]

private theorem scan_append (marker : String) (previous : Option Token) (pending : Pending)
    (front rest : List Token) : scan marker previous pending (front ++ rest) =
      scan marker previous pending front ++
        scan marker (front.getLast?.or previous) (pending.behindAll marker previous front) rest := by
  induction front generalizing previous pending with
  | nil => rfl
  | cons token front ih =>
    rw [List.cons_append, scan_cons, scan_cons, ih, Pending.behindAll, getLast?_cons_or,
      List.cons_append]

private theorem behindAll_append (marker : String) (previous : Option Token) (pending : Pending)
    (front : List Token) (token : Token) :
    pending.behindAll marker previous (front ++ [token]) =
      ((pending.behindAll marker previous front).mark marker (front.getLast?.or previous) token).2 := by
  induction front generalizing previous pending with
  | nil => rfl
  | cons first front ih =>
    rw [List.cons_append, Pending.behindAll, ih, Pending.behindAll, getLast?_cons_or]

def Pending.row? : Pending → Option Nat
  | .moved shift => shift.map Shift.row
  | .behind marker => some marker.start.row

private theorem step_of_row? (other : pending.row? ≠ some token.start.row) :
    pending.step token = (token, none) := by
  refine step_unmoved fun shift found row => other ?_
  cases pending with
  | moved pendingShift =>
    rw [show pendingShift = some shift from found, Pending.row?, Option.map_some, row]
  | behind name =>
    simp only [Pending.shift, shiftBehind] at found
    split at found
    · next same => rw [Pending.row?, same]
    · cases found

private theorem row?_step {row : Nat}
    (moved : (Pending.moved (pending.step token).2).row? = some row) :
    pending.row? = some row := by
  unfold Pending.step Shift.move at moved
  split at moved
  · cases moved
  · next shift found =>
    split at moved
    · cases pending with
      | moved pendingShift =>
        rw [show pendingShift = some shift from found]
        exact moved
      | behind name =>
        simp only [Pending.shift, shiftBehind] at found
        split at found
        · cases found
          exact moved
        · cases found
    · cases moved

private theorem exists_sigil_of_row? {row : Nat}
    (moved : (Pending.behindAll marker none (.moved none) front).row? = some row) :
    ∃ before gt after, front = before ++ gt :: after ∧
      isMarked before.getLast? gt = true ∧ gt.start.row = row := by
  induction front using List.reverseRecOn with
  | nil => cases moved
  | append_singleton front token ih =>
    rw [behindAll_append, Option.or_none, Pending.mark] at moved
    split at moved
    · next marked =>
      exact ⟨front, token, [], rfl, marked, by simpa [Pending.row?, markerAt] using moved⟩
    · obtain ⟨before, gt, after, rfl, marked, onRow⟩ := ih (row?_step moved)
      exact ⟨before, gt, after ++ [token], by simp, marked, onRow⟩

theorem Tracks.mark (tracks : Tracks fresh previous last pending old new)
    (inOrder : Token.InOrder fresh old (token :: rest)) :
    ∃ fresh' old' new', Tracks fresh' (some token) (some (pending.mark marker previous token).1)
        (pending.mark marker previous token).2 old' new' ∧ Token.InOrder fresh' old' rest := by
  cases isLayout : token.isLayout with
  | true =>
    obtain ⟨isFresh, row, others⟩ := (Token.inOrder_layout isLayout).1 inOrder
    obtain ⟨unmarked, -, unmoved, -⟩ := tracks.still isFresh row
    rw [Pending.mark_unmarked unmarked, unmoved]
    exact ⟨fresh, old, new, tracks.layout isFresh isLayout row, others⟩
  | false =>
    obtain ⟨fills, ahead, others⟩ := (Token.inOrder_token isLayout).1 inOrder
    rw [Pending.mark]
    split
    · next marked =>
      obtain ⟨rfl, -, -, behind⟩ := tracks.marks fills marked (rfl : markerAt marker token _ = _)
      obtain ⟨eq, -, -, isGreater, -⟩ := isMarked_iff.1 marked
      rw [Token.isOp, Bool.and_eq_true, beq_iff_eq] at isGreater
      simp only [isGreater.1, Bool.false_and, Bool.false_or] at others
      exact ⟨_, _, _, behind, others⟩
    · exact ⟨_, _, _, tracks.step fills ahead, others⟩

private theorem Tracks.behindAll (marker : String)
    (tracks : Tracks fresh previous last pending old new)
    (inOrder : Token.InOrder fresh old (front ++ rest)) :
    ∃ fresh' last' old' new', Tracks fresh' (front.getLast?.or previous) last'
        (pending.behindAll marker previous front) old' new' ∧ Token.InOrder fresh' old' rest := by
  induction front generalizing fresh previous last pending old new with
  | nil => exact ⟨fresh, last, old, new, tracks, inOrder⟩
  | cons token front ih =>
    obtain ⟨_, _, _, behind, others⟩ := tracks.mark inOrder
    rw [getLast?_cons_or]
    exact ih behind others

private theorem row_le_of_inOrder (inOrder : Token.InOrder fresh old (token :: rest)) :
    old.row ≤ token.start.row := by
  cases isLayout : token.isLayout with
  | true => exact ((Token.inOrder_layout isLayout).1 inOrder).2.1
  | false =>
    have ahead := ((Token.inOrder_token isLayout).1 inOrder).2.1
    rw [Position.le_iff] at ahead
    omega

private theorem Aligned.gap {shift : Option Shift} (aligned : Aligned (.moved shift) old new)
    (ahead : old ≤ token.start) (onRow : token.start.row = old.row) :
    (((Pending.moved shift).step token).1.start.col : Int) - new.col =
      token.start.col - old.col := by
  rw [Position.le_iff] at ahead
  have col := aligned.col
  unfold Pending.step Shift.move Pending.shift
  cases shift with
  | none => simp only at col ⊢; omega
  | some shift =>
    simp only at col ⊢
    by_cases row : token.start.row = shift.row
    · rw [if_pos row]
      rw [if_pos (by omega)] at col
      simp only [Shift.place, if_pos row]
      omega
    · rw [if_neg row]
      rw [if_neg (by omega)] at col
      simp only
      omega

private theorem Tracks.gap_layout (tracks : Tracks fresh previous last pending old new)
    (inOrder : Token.InOrder fresh old (token :: next :: rest)) (isLayout : token.isLayout = true) :
    isMarked previous token = false ∧ isMarked (some token) next = false ∧
      (pending.mark marker previous token).1 = token ∧
      ((pending.mark marker previous token).2.mark marker (some token) next).1 = next := by
  obtain ⟨isFresh, row, others⟩ := (Token.inOrder_layout isLayout).1 inOrder
  obtain ⟨unmarked, -, unmoved, -⟩ := tracks.still isFresh row
  obtain ⟨apart, -, unmovedNext, -⟩ :=
    (tracks.layout isFresh isLayout row).still isFresh (row_le_of_inOrder others)
  have mark : pending.mark marker previous token = (token, .moved none) := by
    rw [Pending.mark_unmarked unmarked, unmoved]
  rw [mark, Pending.mark_unmarked apart, unmovedNext]
  exact ⟨unmarked, apart, rfl, rfl⟩

private theorem Tracks.gap_marked (marker : String)
    (tracks : Tracks fresh previous last pending old new)
    (inOrder : Token.InOrder fresh old (token :: next :: rest))
    (onRow : next.start.row = token.stop.row) (marked : isMarked previous token = true) :
    isMarked (some token) next = false ∧
      ((pending.mark marker previous token).2.mark marker (some token) next).1.start =
        (pending.mark marker previous token).1.stop := by
  obtain ⟨eq, found, -, isGreater, -⟩ := isMarked_iff.1 marked
  have apart : isMarked (some token) next = false := by
    rw [found] at marked
    exact isSigil_of_isSigil marked next
  have isLayout : token.isLayout = false := isLayout_of_isOp isGreater
  obtain ⟨fills, ahead, others⟩ := (Token.inOrder_token isLayout).1 inOrder
  obtain ⟨rfl, -, -, behind⟩ := tracks.marks fills marked (rfl : markerAt marker token _ = _)
  have kind := (Token.isOp_iff.1 isGreater).1
  have noBreak : token.isBreak = false := by simp [Token.isBreak, kind]
  simp only [kind, Bool.false_and, Bool.false_or] at others
  have noLayout : next.isLayout = false := by
    rw [← Bool.not_eq_true]
    exact fun isLayout => Bool.false_ne_true ((Token.inOrder_layout isLayout).1 others).1
  obtain ⟨fillsNext, aheadNext, -⟩ := (Token.inOrder_token noLayout).1 others
  refine ⟨apart, ?_⟩
  rw [Pending.mark_marked marked, Pending.mark_unmarked apart]
  have moves := behind.aligned.moves aheadNext fillsNext.forward
  refine (moves.behind _ rfl ?_).trans (by simp [Token.behind, Token.isBreak, markerAt])
  rw [Token.behind, noBreak, onRow]
  rfl

/-- Behind any other token the distance stays, except in front of a marker. -/
private theorem Tracks.gap_unmarked (tracks : Tracks fresh previous last pending old new)
    (inOrder : Token.InOrder fresh old (token :: next :: rest))
    (onRow : next.start.row = token.stop.row) (isLayout : token.isLayout = false)
    (unmarked : isMarked previous token = false) {moved movedNext : Token × Pending}
    (isMoved : pending.mark marker previous token = moved)
    (isMovedNext : moved.2.mark marker (some token) next = movedNext) :
    if isMarked (some token) next then movedNext.1.start = moved.1.stop.right 1
    else (movedNext.1.start.col : Int) - moved.1.stop.col = next.start.col - token.stop.col := by
  obtain ⟨fills, ahead, others⟩ := (Token.inOrder_token isLayout).1 inOrder
  have behind := tracks.step fills ahead
  rw [Pending.mark_unmarked unmarked] at isMoved
  subst isMoved
  have noBreak : token.isBreak = false := by
    rw [← Bool.not_eq_true]
    intro isBreak
    have reached := row_le_of_inOrder others
    rw [Token.behind, if_pos isBreak] at reached
    simp only [Position.nextRow] at reached
    omega
  have noBreakMoved : (pending.step token).1.isBreak = false := by
    rw [Token.isBreak, (kind_step pending token).1]
    exact noBreak
  simp only [Token.behind, noBreak, noBreakMoved, Bool.false_eq_true, if_false] at behind others
  cases apart : isMarked (some token) next with
  | true =>
    obtain ⟨-, -, -, isGreater, -⟩ := isMarked_iff.1 apart
    obtain ⟨fillsNext, -⟩ := (Token.inOrder_token (isLayout_of_isOp isGreater)).1 others
    rw [Pending.mark_marked apart] at isMovedNext
    subst isMovedNext
    exact (behind.marks fillsNext apart rfl).2.1
  | false =>
    rw [Pending.mark_unmarked apart] at isMovedNext
    subst isMovedNext
    cases nextLayout : next.isLayout with
    | true =>
      obtain ⟨isFresh, row, -⟩ := (Token.inOrder_layout nextLayout).1 others
      obtain ⟨-, -, unmoved, sameStop⟩ := behind.still isFresh row
      rw [unmoved, sameStop]
      rfl
    | false =>
      obtain ⟨-, aheadNext, -⟩ := (Token.inOrder_token nextLayout).1 others
      exact behind.aligned.gap aheadNext onRow

private theorem Tracks.width (tracks : Tracks fresh previous last pending old new)
    (inOrder : Token.InOrder fresh old (token :: rest)) (row : token.stop.row = token.start.row) :
    ((pending.step token).1.stop.col : Int) - (pending.step token).1.start.col =
      token.stop.col - token.start.col := by
  cases isLayout : token.isLayout with
  | true =>
    obtain ⟨isFresh, reached, -⟩ := (Token.inOrder_layout isLayout).1 inOrder
    rw [(tracks.still isFresh reached).2.2.1]
  | false =>
    obtain ⟨fills, ahead, -⟩ := (Token.inOrder_token isLayout).1 inOrder
    have forward := fills.forward
    have moves := tracks.aligned.moves ahead forward
    rw [Position.le_iff] at forward
    have stop : token.stop = token.start.right (token.stop.col - token.start.col) := by
      rw [Position.ext_iff']
      simp only [Position.right]
      omega
    rw [moves.length stop]
    simp only [Position.right]
    omega

private theorem exists_reached {index : Nat} (found : tokens[index]? = some token) :
    ∃ front rest, tokens = front ++ token :: rest ∧ front.length = index := by
  obtain ⟨within, rfl⟩ := List.getElem?_eq_some_iff.1 found
  exact ⟨tokens.take index, tokens.drop (index + 1), by simp, by simp; omega⟩

private theorem isMarkedAt_append (front : List Token) (token : Token) (rest : List Token) :
    isMarkedAt (front ++ token :: rest) front.length = isMarked front.getLast? token := by
  induction front using List.reverseRecOn with
  | nil => rfl
  | append_singleton front eq =>
    rw [List.length_append, List.length_singleton, isMarkedAt, List.append_assoc,
      List.getElem?_append_right (Nat.le_refl _), List.getElem?_append_right (Nat.le_succ _)]
    simp [isMarked]

private theorem mark_append (marker : String) (front : List Token) (token : Token)
    (rest : List Token) :
    mark marker (front ++ token :: rest) = scan marker none (.moved none) front ++
      scan marker front.getLast? ((Pending.moved none).behindAll marker none front)
        (token :: rest) := by
  rw [mark_eq_scan, scan_append, Option.or_none]

private theorem getElem?_mark_append (marker : String) (front : List Token) (token : Token)
    (rest : List Token) : (mark marker (front ++ token :: rest))[front.length]? =
      some (((Pending.moved none).behindAll marker none front).mark marker front.getLast? token).1 := by
  rw [mark_append, List.getElem?_append_right (by rw [length_scan]), length_scan, Nat.sub_self,
    scan_cons]
  rfl

private theorem getElem?_mark_append_succ (marker : String) (front : List Token)
    (token next : Token) (rest : List Token) :
    (mark marker (front ++ token :: next :: rest))[front.length + 1]? =
      some ((((Pending.moved none).behindAll marker none front).mark marker front.getLast?
        token).2.mark marker (some token) next).1 := by
  rw [mark_append, List.getElem?_append_right (by rw [length_scan]; omega), length_scan,
    Nat.add_sub_cancel_left, scan_cons, scan_cons]
  rfl

private theorem keepsPlaces_mark (marker : String) (inOrder : Token.InOrder true .origin tokens) :
    KeepsPlaces tokens (mark marker tokens) where
  rows := by
    intro index token new found isNew
    obtain ⟨front, rest, rfl, rfl⟩ := exists_reached found
    obtain ⟨_, _, _, _, -, others⟩ := tracks_initial.behindAll marker inOrder
    rw [getElem?_mark_append, Option.some.injEq] at isNew
    rw [← isNew, Pending.mark]
    split
    · next marked =>
      obtain ⟨eq, -, -, isGreater, -⟩ := isMarked_iff.1 marked
      have fills := ((Token.inOrder_token (isLayout_of_isOp isGreater)).1 others).1
      have stop := fills.stop_of_isOp (by decide : Lexeme.isLineEnd '>' = false) isGreater
      rw [stop]
      exact ⟨rfl, rfl⟩
    · exact (kind_step _ token).2.2
  still := by
    intro index token found noSigil
    obtain ⟨front, rest, rfl, rfl⟩ := exists_reached found
    have unmarked : isMarked front.getLast? token = false := by
      rw [← isMarkedAt_append front token rest, ← Bool.not_eq_true]
      exact fun marked => noSigil _ token (Nat.le_refl _) marked found rfl
    rw [getElem?_mark_append, Pending.mark_unmarked unmarked, step_of_row?]
    intro moved
    obtain ⟨before, gt, after, rfl, marked, onRow⟩ := exists_sigil_of_row? moved
    rw [List.append_assoc, List.cons_append] at noSigil
    refine noSigil before.length gt (by simp) ?_ (by simp) onRow
    rw [isMarkedAt_append]
    exact marked
  widths := by
    intro index token new found isNew unmarked row
    obtain ⟨front, rest, rfl, rfl⟩ := exists_reached found
    obtain ⟨_, _, _, _, tracks, others⟩ := tracks_initial.behindAll marker inOrder
    rw [isMarkedAt_append] at unmarked
    rw [getElem?_mark_append, Option.some.injEq, Pending.mark_unmarked unmarked] at isNew
    rw [← isNew]
    exact tracks.width others row
  gaps := by
    intro index token next new newNext found foundNext isNew isNewNext onRow
    obtain ⟨front, rest, rfl, rfl⟩ := exists_reached found
    obtain ⟨next, rest, rfl⟩ : ∃ next' rest', rest = next' :: rest' := by
      cases rest with
      | nil => simp at foundNext
      | cons next rest => exact ⟨next, rest, rfl⟩
    obtain rfl : next = _ := by simpa using foundNext
    obtain ⟨_, _, _, _, tracks, others⟩ := tracks_initial.behindAll marker inOrder
    have behind := isMarkedAt_append (front ++ [token]) next rest
    rw [List.append_assoc, List.singleton_append, List.length_append, List.length_singleton,
      List.getLast?_concat] at behind
    rw [behind, isMarkedAt_append]
    rw [getElem?_mark_append, Option.some.injEq] at isNew
    rw [getElem?_mark_append_succ, Option.some.injEq] at isNewNext
    rw [Option.or_none] at tracks
    cases isLayout : token.isLayout with
    | true =>
      obtain ⟨unmarked, apart, same, sameNext⟩ := tracks.gap_layout others isLayout
      rw [same] at isNew
      rw [sameNext] at isNewNext
      simp [unmarked, apart, ← isNew, ← isNewNext]
    | false =>
      cases marked : isMarked front.getLast? token with
      | true =>
        obtain ⟨apart, start⟩ := tracks.gap_marked marker others onRow marked
        simp [apart, ← isNew, ← isNewNext, start]
      | false =>
        simpa [← isNew, ← isNewNext] using
          tracks.gap_unmarked others onRow isLayout marked rfl rfl

def sigils : (previous : Option Token) → List Token → Nat
  | _, [] => 0
  | previous, token :: rest => (if isMarked previous token then 1 else 0) + sigils (some token) rest

private theorem countP_isMarkedAt (token : Token) (rest : List Token) :
    (List.range rest.length).countP (fun index => isMarkedAt (token :: rest) (index + 1)) =
      sigils (some token) rest := by
  induction rest generalizing token with
  | nil => rfl
  | cons next rest ih =>
    rw [List.length_cons, List.range_succ_eq_map, List.countP_cons, List.countP_map, sigils, ← ih,
      Nat.add_comm]
    rfl

private theorem getLast?_cons_getD (pair : Token × Nat) (pairs : List (Token × Nat)) (count : Nat) :
    ((pair :: pairs).getLast?.map Prod.snd).getD count =
      (pairs.getLast?.map Prod.snd).getD pair.2 := by
  rw [List.getLast?_cons]
  cases pairs.getLast? <;> rfl

private theorem getLast?_markFrom (marker : String) :
    (tokens : List Token) → (shift : Option Shift) → (count : Nat) → (previous : Option Token) →
    (∀ token ∈ tokens.head?, isMarked previous token = false) →
    ((markFrom marker shift count tokens).getLast?.map Prod.snd).getD count =
      count + sigils previous tokens
  | [], _, _, _, _ => rfl
  | [token], shift, count, previous, plain => by
    rw [sigils, plain token rfl]
    rfl
  | token :: next :: rest, shift, count, previous, plain => by
    have unmarked := plain token rfl
    by_cases sigil : isSigil token next = true
    · have marked : isMarked (some token) next = true := sigil
      have behind : ∀ other ∈ rest.head?, isMarked (some next) other = false :=
        fun other _ => isSigil_of_isSigil sigil other
      rw [markFrom, if_pos sigil, getLast?_cons_getD, getLast?_cons_getD,
        getLast?_markFrom marker rest _ _ (some next) behind, sigils, sigils, unmarked, marked]
      simp only [Bool.false_eq_true, if_true, if_false]
      omega
    · have apart : isMarked (some token) next = false := by simpa [isMarked] using sigil
      have behind : ∀ other ∈ (next :: rest).head?, isMarked (some token) other = false := by
        rintro other ⟨⟩
        exact apart
      have whole : sigils previous (token :: next :: rest) = sigils (some token) (next :: rest) := by
        rw [sigils, unmarked, if_neg (by simp), Nat.zero_add]
      rw [markFrom, if_neg sigil, getLast?_cons_getD,
        getLast?_markFrom marker (next :: rest) _ _ (some token) behind, whole]

private theorem markedCount_eq (marker : String) (tokens : List Token) :
    markedCount marker tokens = (List.range tokens.length).countP (isMarkedAt tokens) := by
  have counted : markedCount marker tokens = 0 + sigils none tokens :=
    getLast?_markFrom marker tokens none 0 none fun _ _ => rfl
  rw [counted, Nat.zero_add]
  cases tokens with
  | nil => rfl
  | cons token rest =>
    have first : isMarkedAt (token :: rest) 0 = false := rfl
    rw [List.length_cons, List.range_succ_eq_map, List.countP_cons, List.countP_map, first, sigils,
      ← countP_isMarkedAt, Nat.add_comm]
    rfl

private theorem start_of_isSigil {eq gt : Token} (sigil : isSigil eq gt = true) :
    gt.start = eq.stop := by
  simp only [isSigil, Bool.and_eq_true, beq_iff_eq] at sigil
  exact sigil.2

private theorem start_markerAt {shift : Option Shift} (sigil : isSigil token next = true)
    (row : token.stop.row = token.start.row)
    (column : 0 ≤ (next.start.col : Int) + ((Shift.move shift token).2.map Shift.delta).getD 0) :
    (markerAt marker next (((Shift.move shift token).2.map Shift.delta).getD 0)).start =
      (Shift.move shift token).1.stop.right 1 := by
  rw [start_of_isSigil sigil] at column
  rw [markerAt, start_of_isSigil sigil]
  cases shift with
  | none => simp [Shift.move, Position.right]
  | some shift =>
    by_cases moves : token.start.row = shift.row
    · simp only [Shift.move, if_pos moves, Option.map_some, Option.getD_some] at column ⊢
      simp only [Shift.place, row, if_pos moves, Position.right, Position.mk.injEq, true_and]
      omega
    · simp [Shift.move, if_neg moves, Position.right]

private theorem places_markFrom {shift : Option Shift} (count : Nat)
    (within : fits marker shift tokens = true) {index : Nat} {eq gt new name : Token}
    (found : tokens[index]? = some eq) (foundNext : tokens[index + 1]? = some gt)
    (sigil : isSigil eq gt = true) (row : eq.stop.row = eq.start.row)
    (isNew : ((markFrom marker shift count tokens).map Prod.fst)[index]? = some new)
    (isName : ((markFrom marker shift count tokens).map Prod.fst)[index + 1]? = some name) :
    name.start = new.stop.right 1 := by
  revert isNew isName
  fun_induction markFrom marker shift count tokens generalizing index with
  | case1 => cases found
  | case2 => cases foundNext
  | case3 shift count token next rest moved joins start =>
    rename_i ih
    intro isNew isName
    rw [fits, if_pos joins] at within
    simp only [Bool.and_eq_true, decide_eq_true_eq] at within
    obtain ⟨-, ⟨⟨column, -⟩, -⟩, others⟩ := within
    cases index with
    | zero =>
      cases found
      cases foundNext
      cases isNew
      cases isName
      exact start_markerAt sigil row column
    | succ index =>
      cases index with
      | zero =>
        -- The `>` of one sigil is no `=` of another.
        cases found
        rw [isSigil_of_isSigil joins gt] at sigil
        cases sigil
      | succ index => exact ih others found foundNext isNew isName
  | case4 shift count token next rest moved apart ih =>
    intro isNew isName
    rw [fits, if_neg apart] at within
    simp only [Bool.and_eq_true] at within
    cases index with
    | zero =>
      cases found
      cases foundNext
      exact absurd sigil apart
    | succ index => exact ih within.2 found foundNext isNew isName

/-- Marking replaces the second halves of sigils, counts them, and keeps the kinds and texts of all
else. -/
private theorem confined_mark (places : ∀ (index : Nat) (eq gt new name : Token),
      tokens[index]? = some eq → tokens[index + 1]? = some gt → isSigil eq gt = true →
      (mark marker tokens)[index]? = some new → (mark marker tokens)[index + 1]? = some name →
      eq.stop.row = eq.start.row → name.start = new.stop.right 1) :
    Confined marker tokens (mark marker tokens) where
  length := by rw [mark, List.length_map, markCounting, length_markFrom]
  count := markedCount_eq marker tokens
  marks := by
    intro index token new found isNew
    obtain ⟨front, rest, rfl, rfl⟩ := exists_reached found
    rw [getElem?_mark_append, Option.some.injEq] at isNew
    rw [isMarkedAt_append, ← isNew, Pending.mark]
    split
    · exact ⟨rfl, rfl, rfl⟩
    · obtain ⟨kind, text, -⟩ := kind_step (Pending.behindAll marker none (.moved none) front) token
      exact ⟨kind, text⟩
  places := places

private theorem KeepsPlaces.places {marked : List Token} (keeps : KeepsPlaces tokens marked)
    {index : Nat} {eq gt new name : Token} (found : tokens[index]? = some eq)
    (foundNext : tokens[index + 1]? = some gt) (sigil : isSigil eq gt = true)
    (isNew : marked[index]? = some new) (isName : marked[index + 1]? = some name) :
    name.start = new.stop.right 1 := by
  have marks : isMarkedAt tokens (index + 1) = true := by
    simp [isMarkedAt, found, foundNext, sigil]
  have row : gt.start.row = eq.stop.row := by rw [start_of_isSigil sigil]
  have apart := keeps.gaps index eq gt new name found foundNext isNew isName row
  rwa [if_pos marks] at apart

private theorem mark_of_unmarked (marker : String) (unmarked : Unmarked none tokens) :
    mark marker tokens = tokens ∧ markedCount marker tokens = 0 := by
  have still := markFrom_of_unmarked marker 0 unmarked
  constructor
  · rw [mark, markCounting, still, List.map_map]
    exact List.map_id _
  · rw [markedCount, markCounting, still]
    cases last : (tokens.map fun token => (token, 0)).getLast? with
    | none => rfl
    | some pair =>
      obtain ⟨token, -, rfl⟩ := List.mem_map.1 (List.mem_of_getLast? last)
      rfl

/-- Marking touches only sigils, in any list of tokens whose columns are machine words throughout.
In the tokens of a text, moreover, the rows keep their order and distances, so that nothing is left
to mark. -/
theorem mark_confined (marker : String) (tokens : List Token) :
    (fits marker none tokens = true → Confined marker tokens (mark marker tokens)) ∧
      ∀ source, tokenize source = .ok tokens →
        Confined marker tokens (mark marker tokens) ∧ KeepsPlaces tokens (mark marker tokens) ∧
          mark marker (mark marker tokens) = mark marker tokens ∧
          markedCount marker (mark marker tokens) = 0 := by
  constructor
  · intro within
    apply confined_mark
    intro index eq gt new name found foundNext sigil isNew isName row
    exact places_markFrom 0 within found foundNext sigil row isNew isName
  · intro source tokenized
    have inOrder := inOrder_tokenize tokenized
    have keeps := keepsPlaces_mark marker inOrder
    have unmarked : Unmarked none (mark marker tokens) := by
      rw [mark_eq_scan]
      exact unmarked_scan tracks_initial inOrder
    refine ⟨confined_mark ?_, keeps, mark_of_unmarked marker unmarked⟩
    intro index eq gt new name found foundNext sigil isNew isName _
    exact keeps.places found foundNext sigil isNew isName

/-- Three sigils whose rows grow and shrink, the second in front of a string that ends on the row
of the third. -/
def crossedSource : String := "def f(a, b=>(a),  c=>    '''\n ''', d=>a):  # e\n  return a = > b\n"

/-- Tokens that no text has: the second sigil of the row stands left of what follows the first, and
the name between them goes left of its row. -/
def backwardTokens : List Token :=
  [⟨.op, "=", ⟨1, 0⟩, ⟨1, 1⟩⟩, ⟨.op, ">", ⟨1, 1⟩, ⟨1, 2⟩⟩, ⟨.name, "x", ⟨1, 100⟩, ⟨1, 101⟩⟩,
    ⟨.name, "y", ⟨1, 90⟩, ⟨1, 98⟩⟩, ⟨.op, "=", ⟨1, 98⟩, ⟨1, 99⟩⟩, ⟨.op, ">", ⟨1, 99⟩, ⟨1, 100⟩⟩]

theorem mark_confined_crossed :
    (fits "m" none backwardTokens = true ∧
      Confined "m" backwardTokens (mark "m" backwardTokens)) ∧
    ∃ tokens, tokenize crossedSource = .ok tokens ∧
      Confined "m" tokens (mark "m" tokens) ∧ markedCount "m" tokens = 3 ∧
      KeepsPlaces tokens (mark "m" tokens) ∧
      mark "m" (mark "m" tokens) = mark "m" tokens ∧ markedCount "m" (mark "m" tokens) = 0 := by
  have within : fits "m" none backwardTokens = true := by decide
  refine ⟨⟨within, (mark_confined "m" backwardTokens).1 within⟩, ?_⟩
  have three : (tokenize crossedSource).toOption.any (markedCount "m" · == 3) = true := by
    decide +kernel
  cases tokenized : tokenize crossedSource with
  | error fault =>
    rw [tokenized] at three
    cases three
  | ok tokens =>
    rw [tokenized] at three
    obtain ⟨confined, kept⟩ := (mark_confined "m" tokens).2 crossedSource tokenized
    exact ⟨tokens, rfl, confined, beq_iff_eq.1 three, kept⟩

end DeferredDefaults.Sigil
