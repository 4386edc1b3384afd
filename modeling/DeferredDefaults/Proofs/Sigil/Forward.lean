import DeferredDefaults.Proofs.Sigil.Confinement

/-!
Writing marked tokens never goes back. No move takes a token left of its row, and every token
stands at the place that writing has reached or behind it, so no distance that is written is
negative. A text that has tokens therefore always has a marked text, whatever the marker.
-/

set_option autoImplicit false
set_option relaxedAutoImplicit false

namespace DeferredDefaults

/-- The move takes no end of the token left of its row. -/
def Shift.Unclipped (shift : Option Shift) (token : Token) : Prop :=
  ∀ move, shift = some move → token.start.row = move.row →
    0 ≤ (token.start.col : Int) + move.delta ∧
      (token.stop.row = move.row → 0 ≤ (token.stop.col : Int) + move.delta)

/-- No column that marking computes is negative. -/
def Sigil.Unclipped (marker : String) : Option Shift → List Token → Prop
  | _, [] => True
  | shift, [token] => Shift.Unclipped shift token
  | shift, token :: next :: rest =>
    Shift.Unclipped shift token ∧
      let moved := (Shift.move shift token).2
      if isSigil token next then
        let offset := (moved.map Shift.delta).getD 0
        0 ≤ (next.start.col : Int) + offset ∧
          Unclipped marker (shiftBehind (markerAt marker next offset) rest) rest
      else Unclipped marker moved (next :: rest)

/-- Every token that is written stands at the place that the writer has reached or behind it. -/
def SourceText.Forward : SourceText → List Token → Prop
  | _, [] => True
  | writer, token :: rest =>
    if token.kind = .endMarker then True
    else if token.isLayout then (writer.enter token).Forward rest
    else writer.reached token ≤ token.start ∧ (writer.after token).Forward rest

private theorem SourceText.forward_of_run {writer : SourceText} {tokens : List Token}
    {text : List Char} (ran : writer.run tokens = .ok text) : writer.Forward tokens := by
  induction tokens generalizing writer text with
  | nil => trivial
  | cons token rest ih =>
    rw [Forward]
    split
    · trivial
    · next noStop =>
      cases isLayout : token.isLayout with
      | true =>
        have block : ∀ other ∈ [token], other.kind = .indent ∨ other.kind = .dedent := by
          rw [List.forall_mem_singleton]
          simpa [Token.isLayout, noStop] using isLayout
        rw [← List.singleton_append, run_blocks block] at ran
        exact ih ran
      | false =>
        obtain ⟨ahead, others, -, ranRest⟩ := run_cons_eq_ok isLayout ran
        exact ⟨ahead, ih ranRest⟩

namespace Sigil

variable {marker : String} {fresh : Bool} {previous last : Option Token} {pending : Pending}
  {old new : Position} {token : Token} {rest : List Token}

/-- The pending move leads to the place behind the last token, so no token behind it is cut off. -/
private theorem Aligned.unclipped (aligned : Aligned pending old new) (ahead : old ≤ token.start)
    (forward : token.start ≤ token.stop) : Shift.Unclipped (pending.shift token) token := by
  intro move found row
  rw [Position.le_iff] at ahead forward
  have col := aligned.col
  cases pending with
  | moved shift =>
    obtain rfl : shift = some move := found
    obtain ⟨reached, col⟩ := col
    have here : move.row = old.row := by omega
    rw [if_pos here] at col
    constructor
    · omega
    · intro stopRow
      omega
  | behind name =>
    simp only [Pending.shift, shiftBehind] at found
    split at found
    · cases found
      simp only at row ⊢
      constructor
      · omega
      · intro stopRow
        omega
    · cases found

private theorem Tracks.unclipped (tracks : Tracks fresh previous last pending old new)
    (inOrder : Token.InOrder fresh old (token :: rest)) :
    Shift.Unclipped (pending.shift token) token := by
  cases isLayout : token.isLayout with
  | true =>
    obtain ⟨isFresh, reached, -⟩ := (Token.inOrder_layout isLayout).1 inOrder
    obtain ⟨shift, rfl, resting⟩ := tracks.resting isFresh
    intro move found row
    have before := resting move found
    omega
  | false =>
    obtain ⟨fills, ahead, -⟩ := (Token.inOrder_token isLayout).1 inOrder
    exact tracks.aligned.unclipped ahead fills.forward

private theorem Tracks.unclipped_marker {shift : Option Shift}
    (tracks : Tracks fresh previous last (.moved shift) old new)
    (marked : isMarked previous token = true) :
    0 ≤ (token.start.col : Int) + (shift.map Shift.delta).getD 0 := by
  obtain ⟨eq, found, isOp, -, start⟩ := isMarked_iff.1 marked
  obtain ⟨-, stop, _, ⟨⟩, here⟩ := tracks.equals eq found isOp
  rw [start, stop]
  cases shift with
  | none => simp
  | some move =>
    obtain ⟨-, col⟩ := tracks.aligned.col
    rw [if_pos (here move rfl)] at col
    simp only [Option.map_some, Option.getD_some]
    omega

private theorem Tracks.unclipped_all (marker : String) :
    {fresh : Bool} → {previous last : Option Token} →
    {pending : Pending} → {old new : Position} → {shift : Option Shift} → (tokens : List Token) →
    Tracks fresh previous last pending old new → Token.InOrder fresh old tokens →
    (∀ token ∈ tokens.head?, isMarked previous token = false) →
    (∀ token ∈ tokens.head?, pending.shift token = shift) → Unclipped marker shift tokens
  | _, _, _, _, _, _, _, [], _, _, _, _ => trivial
  | _, _, _, _, _, _, _, [token], tracks, inOrder, _, moves => by
    rw [Unclipped, ← moves token rfl]
    exact tracks.unclipped inOrder
  | _, previous, _, pending, _, _, shift, token :: next :: rest, tracks, inOrder, plain, moves => by
    have unclipped := tracks.unclipped inOrder
    obtain ⟨_, _, _, behind, others⟩ :=
      @Tracks.mark marker _ _ _ _ _ _ _ _ tracks inOrder
    rw [Pending.mark_unmarked (plain token rfl)] at behind
    have moved : (pending.step token).2 = (Shift.move shift token).2 := by
      rw [Pending.step, moves token rfl]
    rw [moves token rfl] at unclipped
    rw [moved] at behind
    refine ⟨unclipped, ?_⟩
    by_cases sigil : isSigil token next = true
    · have marked : isMarked (some token) next = true := sigil
      simp only [if_pos sigil]
      refine ⟨behind.unclipped_marker marked, ?_⟩
      obtain ⟨_, _, _, behindMarker, others⟩ :=
        @Tracks.mark marker _ _ _ _ _ _ _ _ behind others
      rw [Pending.mark_marked marked] at behindMarker
      apply behindMarker.unclipped_all marker rest others
      · exact fun other _ => isSigil_of_isSigil sigil other
      · intro other member
        cases rest with
        | nil => cases member
        | cons first rest =>
          cases member
          rfl
    · simp only [if_neg sigil]
      apply behind.unclipped_all marker (next :: rest) others
      · rintro other ⟨⟩
        simpa [isMarked] using sigil
      · rintro other ⟨⟩
        rfl

end Sigil

/-- A text has no marked text only when it has no tokens, and then for the same reason. The marked
tokens of any other text can be written, whatever the marker: no move takes a token left of its
row, and writing never goes back. -/
theorem Expansion.markedText_total (source : String) :
    (∀ options fault, markedText options source = .error fault →
      tokenize source = .error fault ∧ ∃ cause place, fault = .lex cause place) ∧
    ∀ tokens, tokenize source = .ok tokens → ∀ marker,
      (∃ text, sourceText (Sigil.mark marker tokens) = .ok text) ∧
      Sigil.Unclipped marker none tokens ∧
      SourceText.Forward {} (Sigil.mark marker tokens) := by
  have writes : ∀ tokens, tokenize source = .ok tokens → ∀ marker,
      ∃ text, SourceText.run {} (Sigil.mark marker tokens) = .ok text := by
    intro tokens tokenized marker
    obtain ⟨written, isWritten, -⟩ := Sigil.written_mark tokenized marker
    exact ⟨_, isWritten.run_eq⟩
  constructor
  · intro options fault failed
    cases tokenized : tokenize source with
    | error reason =>
      rw [markedText, markedTokens, tokenized] at failed
      cases failed
      exact ⟨rfl, Layout.run_eq_error tokenized⟩
    | ok tokens =>
      obtain ⟨text, ran⟩ := writes tokens tokenized options.markerName
      rw [markedText, markedTokens, tokenized] at failed
      change sourceText (Sigil.mark options.markerName tokens) = _ at failed
      rw [sourceText, ran] at failed
      cases failed
  · intro tokens tokenized marker
    obtain ⟨text, ran⟩ := writes tokens tokenized marker
    refine ⟨⟨String.ofList text, ?_⟩, ?_, SourceText.forward_of_run ran⟩
    · rw [sourceText, ran]
      rfl
    · exact Sigil.tracks_initial.unclipped_all marker tokens (inOrder_tokenize tokenized)
        (fun _ _ => rfl) (fun _ _ => rfl)

/-- Rows that grow and shrink, with tabs, a continuation, a string over two rows and a comment that
no line break ends. -/
def unevenSource : String :=
  "if a:\r\n\tdef f(b,\tc=>(b),  d=>'''\n ''', e \\\n =>b):\t return b\r\ng(h => i) # j"

theorem markedText_total_uneven :
    (∃ tokens, tokenize unevenSource = .ok tokens ∧
      (∃ text, sourceText (Sigil.mark "m" tokens) = .ok text) ∧
      Sigil.Unclipped "m" none tokens ∧ SourceText.Forward {} (Sigil.mark "m" tokens)) ∧
    Expansion.markedText {} "f(a=>" = .error (.lex .openBracketAtEnd ⟨1, 5⟩) ∧
    tokenize "f(a=>" = .error (.lex .openBracketAtEnd ⟨1, 5⟩) := by
  have unclosed : Expansion.markedText {} "f(a=>" = .error (.lex .openBracketAtEnd ⟨1, 5⟩) := by
    decide +kernel
  have tokenizes : (tokenize unevenSource).isOk = true := by decide +kernel
  refine ⟨?_, unclosed, ((Expansion.markedText_total _).1 _ _ unclosed).1⟩
  cases tokenized : tokenize unevenSource with
  | error fault =>
    rw [tokenized] at tokenizes
    cases tokenizes
  | ok tokens => exact ⟨tokens, rfl, (Expansion.markedText_total _).2 tokens tokenized "m"⟩

end DeferredDefaults
