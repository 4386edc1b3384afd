import DeferredDefaults.Proofs.Expansion.Agreement
import DeferredDefaults.Proofs.Token.Edges
import DeferredDefaults.Proofs.Token.Indentation
import DeferredDefaults.Proofs.Token.Order

/-!
Marking a text once is enough. Where lines are indented by blanks, the marked tokens are placed like
those of a text, so that the marked text is read back as exactly these tokens; and it has no sigils
left, so that marking it again changes nothing.
-/

set_option autoImplicit false
set_option relaxedAutoImplicit false

namespace DeferredDefaults

private theorem Position.advance_cases (text : List Char) :
    (∀ p : Position, p.advance text = p.right text.length) ∨
      ∃ rows col, 0 < rows ∧ ∀ p : Position, p.advance text = ⟨p.row + rows, col⟩ := by
  generalize Position.origin = start
  have below : ∀ {rest : List Char}, ((∀ p : Position, p.advance rest = p.right rest.length) ∨
      ∃ rows col, 0 < rows ∧ ∀ p : Position, p.advance rest = ⟨p.row + rows, col⟩) →
      ∃ rows col, 0 < rows ∧ ∀ p : Position, p.nextRow.advance rest = ⟨p.row + rows, col⟩ := by
    rintro rest (along | ⟨rows, col, -, down⟩)
    · exact ⟨1, rest.length, by omega, fun p => by rw [along]; simp [right, nextRow]⟩
    · refine ⟨rows + 1, col, by omega, fun p => ?_⟩
      rw [down, nextRow, Nat.add_assoc, Nat.add_comm 1]
  induction start, text using Position.advance.induct with
  | case1 start => exact .inl fun p => rfl
  | case2 start rest ih => exact .inr (by simpa only [advance] using below ih)
  | case3 start c rest single lineEnd ih =>
    obtain ⟨rows, col, some, down⟩ := below ih
    refine .inr ⟨rows, col, some, fun p => ?_⟩
    rw [advance, if_pos lineEnd, down]
    exact single
  | case4 start c rest single noLineEnd ih =>
    have step : ∀ p : Position, p.advance (c :: rest) = (p.right 1).advance rest := by
      intro p
      rw [advance, if_neg noLineEnd]
      exact single
    rcases ih with along | ⟨rows, col, some, down⟩
    · refine .inl fun p => ?_
      rw [step, along, right, right, right, List.length_cons, Nat.add_assoc, Nat.add_comm 1]
    · exact .inr ⟨rows, col, some, fun p => by rw [step, down]; rfl⟩

theorem Token.Fills.forward {token : Token} (fills : token.Fills) : token.start ≤ token.stop := by
  rw [fills]
  split
  · exact .inr ⟨rfl, Nat.le_add_right _ _⟩
  · exact Position.le_advance _ _

private theorem Token.Fills.stop_row {token : Token} (fills : token.Fills)
    (isBreak : token.isBreak = true) :
    token.stop.row = token.start.row := by
  rw [fills, if_pos isBreak]
  rfl

theorem Token.Fills.stop_of_isOp {token : Token} (fills : token.Fills) {c : Char}
    (row : Lexeme.isLineEnd c = false) (isOp : token.isOp (String.singleton c) = true) :
    token.stop = token.start.right 1 := by
  rw [Token.isOp, Bool.and_eq_true, beq_iff_eq, beq_iff_eq] at isOp
  have noBreak : ¬ token.isBreak = true := by simp [Token.isBreak, isOp.1]
  rw [fills, if_neg noBreak, isOp.2, String.toList_singleton]
  exact Position.advance_of_row (List.forall_mem_singleton.2 row) _

namespace Sigil

variable {marker : String} {fresh : Bool} {columns : List Nat} {previous : Option Token}
  {pending : Pending} {old new : Position} {token : Token}

private theorem Moves.fills (moves : Moves pending old new token) (fills : token.Fills) :
    (pending.step token).1.Fills := by
  obtain ⟨kind, text, startRow, stopRow⟩ := kind_step pending token
  have sameBreak : (pending.step token).1.isBreak = token.isBreak := by
    rw [Token.isBreak, Token.isBreak, kind]
  unfold Token.Fills at fills ⊢
  rw [sameBreak, text]
  cases isBreak : token.isBreak with
  | true =>
    rw [isBreak] at fills
    exact moves.length fills
  | false =>
    simp only [isBreak, Bool.false_eq_true, if_false] at fills ⊢
    rcases Position.advance_cases token.text.toList with along | ⟨rows, col, some, down⟩
    · rw [along] at fills ⊢
      exact moves.length fills
    · rw [down] at fills ⊢
      have stopCol := moves.stops.col
      have row := moves.row
      rw [Position.ext_iff', stopRow, startRow, fills]
      refine ⟨rfl, ?_⟩
      cases shift : (pending.step token).2 with
      | none =>
        rw [shift] at stopCol
        simpa [fills] using stopCol
      | some move =>
        have here := row move shift
        rw [shift] at stopCol
        have apart : ¬ move.row = token.start.row + rows := by omega
        simpa [apart, fills] using stopCol.2

def Unmarked : (previous : Option Token) → List Token → Prop
  | _, [] => True
  | previous, token :: rest => isMarked previous token = false ∧ Unmarked (some token) rest

theorem isMarked_iff : isMarked previous token = true ↔ ∃ eq, previous = some eq ∧
    eq.isOp "=" = true ∧ token.isOp ">" = true ∧ token.start = eq.stop := by
  cases previous with
  | none => simp [isMarked]
  | some eq => simp [isMarked, isSigil, and_assoc]

theorem isOp_of_isLayout (isLayout : token.isLayout = true) (op : String) :
    token.isOp op = false := by
  simp only [Token.isLayout, Bool.or_eq_true, beq_iff_eq] at isLayout
  rcases isLayout with (kind | kind) | kind <;> simp [Token.isOp, kind]

/-- What a scan knows between two tokens, `old` and `new` being the places behind the last one
before and after marking, and `last` what has become of it. -/
structure Tracks (fresh : Bool) (previous last : Option Token) (pending : Pending)
    (old new : Position) : Prop where
  aligned : Aligned pending old new
  /-- No row moves between two lines. -/
  resting : fresh = true → ∃ shift, pending = .moved shift ∧
    ∀ move, shift = some move → move.row < old.row
  /-- Behind an `=` its row goes on. -/
  equals : ∀ eq, previous = some eq → eq.isOp "=" = true → fresh = false ∧ eq.stop = old ∧
    ∃ shift, pending = .moved shift ∧ ∀ move, shift = some move → move.row = old.row
  kept : ∀ eq, last = some eq → eq.isOp "=" = true →
    eq.stop = new ∧ ∃ source, previous = some source ∧ source.isOp "=" = true

namespace Tracks

variable {last : Option Token}

theorem still (tracks : Tracks fresh previous last pending old new) (isFresh : fresh = true)
    (row : old.row ≤ token.start.row) :
    isMarked previous token = false ∧ isMarked last token = false ∧
      pending.step token = (token, none) ∧ new = old := by
  obtain ⟨shift, rfl, moved⟩ := tracks.resting isFresh
  have unmarked : ∀ eq, previous = some eq → ¬ eq.isOp "=" = true := by
    intro eq found isOp
    have notFresh := (tracks.equals eq found isOp).1
    rw [isFresh] at notFresh
    cases notFresh
  refine ⟨?_, ?_, step_unmoved ?_, ?_⟩
  · rw [← Bool.not_eq_true, isMarked_iff]
    rintro ⟨eq, found, isOp, -⟩
    exact unmarked eq found isOp
  · rw [← Bool.not_eq_true, isMarked_iff]
    rintro ⟨eq, found, isOp, -⟩
    obtain ⟨-, source, isSource, sourceOp⟩ := tracks.kept eq found isOp
    exact unmarked source isSource sourceOp
  · rintro move rfl
    have before := moved move rfl
    omega
  · have col := tracks.aligned.col
    rw [Position.ext_iff']
    refine ⟨tracks.aligned.row, ?_⟩
    cases shift with
    | none => exact col
    | some move =>
      have before := moved move rfl
      simpa [show ¬ move.row = old.row by omega] using col.2

theorem layout (tracks : Tracks fresh previous last pending old new) (isFresh : fresh = true)
    (isLayout : token.isLayout = true) (row : old.row ≤ token.start.row) :
    Tracks fresh (some token) (some token) (.moved none) old new where
  aligned := by
    obtain ⟨-, -, -, rfl⟩ := tracks.still isFresh row
    exact ⟨rfl, rfl⟩
  resting := fun _ => ⟨none, rfl, nofun⟩
  equals := by
    rintro eq ⟨⟩ isOp
    rw [isOp_of_isLayout isLayout] at isOp
    cases isOp
  kept := by
    rintro eq ⟨⟩ isOp
    rw [isOp_of_isLayout isLayout] at isOp
    cases isOp

theorem step (tracks : Tracks fresh previous last pending old new) (fills : token.Fills)
    (ahead : old ≤ token.start) :
    Tracks ((fresh && !token.isSignificant) || token.kind == .newline) (some token)
      (some (pending.step token).1) (.moved (pending.step token).2) token.behind
      (pending.step token).1.behind := by
  have moves := tracks.aligned.moves ahead fills.forward
  obtain ⟨kind, text, -, -⟩ := kind_step pending token
  have sameOp : (pending.step token).1.isOp "=" = token.isOp "=" := by
    rw [Token.isOp, Token.isOp, kind, text]
  have ofOp : token.isOp "=" = true → token.isBreak = false ∧ token.stop = token.start.right 1 ∧
      ((fresh && !token.isSignificant) || token.kind == .newline) = false := by
    intro isOp
    refine ⟨?_, fills.stop_of_isOp (by decide : Lexeme.isLineEnd '=' = false) isOp, ?_⟩
    · rw [Token.isOp, Bool.and_eq_true, beq_iff_eq] at isOp
      simp [Token.isBreak, isOp.1]
    · rw [Token.isOp, Bool.and_eq_true, beq_iff_eq] at isOp
      simp [Token.isSignificant, Token.isTrivia, Token.isLayout, isOp.1]
  refine ⟨aligned_behind moves.stops kind moves.row fills.stop_row, ?_, ?_, ?_⟩
  · intro freshAfter
    refine ⟨_, rfl, fun move found => ?_⟩
    rw [Bool.or_eq_true, Bool.and_eq_true, beq_iff_eq] at freshAfter
    rcases freshAfter with ⟨isFresh, -⟩ | newline
    · rw [Position.le_iff] at ahead
      have reached : old.row ≤ token.start.row := by omega
      obtain ⟨-, -, unmoved, -⟩ := tracks.still isFresh reached
      rw [unmoved] at found
      cases found
    · have isBreak : token.isBreak = true := by simp [Token.isBreak, newline]
      rw [moves.row move found, Token.behind, if_pos isBreak]
      simp only [Position.nextRow, fills.stop_row isBreak]
      omega
  · rintro eq ⟨⟩ isOp
    obtain ⟨noBreak, stop, notFresh⟩ := ofOp isOp
    refine ⟨notFresh, by simp [Token.behind, noBreak], _, rfl, fun move found => ?_⟩
    rw [moves.row move found, Token.behind, noBreak, stop]
    rfl
  · rintro eq ⟨⟩ isOp
    rw [sameOp] at isOp
    have noBreak : (pending.step token).1.isBreak = false := by
      rw [Token.isBreak, kind]
      exact (ofOp isOp).1
    exact ⟨by simp [Token.behind, noBreak], token, rfl, isOp⟩

private theorem unmarked (tracks : Tracks fresh previous last pending old new)
    (noSigil : isMarked previous token = false) (ahead : old ≤ token.start)
    (forward : token.start ≤ token.stop) : isMarked last (pending.step token).1 = false := by
  have moves := tracks.aligned.moves ahead forward
  obtain ⟨kind, text, -, -⟩ := kind_step pending token
  rw [← Bool.not_eq_true, isMarked_iff]
  rintro ⟨eq, found, isOp, isGreater, start⟩
  obtain ⟨place, source, isSource, sourceOp⟩ := tracks.kept eq found isOp
  obtain ⟨-, stop, shift, isMoved, -⟩ := tracks.equals source isSource sourceOp
  have near := (moves.near shift isMoved).1 (start.trans place)
  rw [← Bool.not_eq_true, isMarked_iff] at noSigil
  refine noSigil ⟨source, isSource, sourceOp, ?_, near.trans stop.symm⟩
  rw [Token.isOp, kind, text] at isGreater
  exact isGreater

/-- The marker stands one column behind the `=`, and its row waits for the token behind it. -/
theorem marks (tracks : Tracks fresh previous last pending old new) (fills : token.Fills)
    (marked : isMarked previous token = true) {name : Token}
    (isName : name = markerAt marker token (((pending.shift token).map Shift.delta).getD 0)) :
    fresh = false ∧ name.start = new.right 1 ∧
      name.stop = name.start.right marker.toList.length ∧
      Tracks false (some token) (some name) (.behind name) token.behind name.behind := by
  obtain ⟨eq, found, isOp, isGreater, start⟩ := isMarked_iff.1 marked
  obtain ⟨notFresh, place, shift, rfl, here⟩ := tracks.equals eq found isOp
  have stop := fills.stop_of_isOp (by decide : Lexeme.isLineEnd '>' = false) isGreater
  rw [start, place] at stop
  obtain ⟨nameStart, nameStop, aligned⟩ := tracks.aligned.marks here (start.trans place) stop marker
  have sameName : name = markerAt marker token ((shift.map Shift.delta).getD 0) := isName
  rw [← sameName] at nameStart nameStop aligned
  have kind : name.kind = .name := by rw [isName]; rfl
  have nameBreak : name.isBreak = false := by simp [Token.isBreak, kind]
  rw [Token.isOp, Bool.and_eq_true, beq_iff_eq, beq_iff_eq] at isGreater
  have noBreak : token.isBreak = false := by simp [Token.isBreak, isGreater.1]
  refine ⟨notFresh, nameStart, nameStop, ?_, by rintro ⟨⟩, ?_, ?_⟩
  · simpa [Token.behind, nameBreak, noBreak] using aligned
  · rintro eq ⟨⟩ isOp
    simp [Token.isOp, isGreater.2] at isOp
  · rintro eq ⟨⟩ isOp
    simp [Token.isOp, kind] at isOp

end Tracks

private theorem fills_markerAt (identifier : Text.Identifier.isIdentifier marker.toList = true)
    (gt : Token) (offset : Int) : (markerAt marker gt offset).Fills := by
  refine (Position.advance_of_row ?_ _).symm
  intro c member
  have inner := Text.Identifier.isInner_of_isIdentifier identifier c member
  cases lineEnd : Lexeme.isLineEnd c with
  | false => rfl
  | true =>
    simp only [Lexeme.isLineEnd, Bool.or_eq_true, beq_iff_eq] at lineEnd
    rcases lineEnd with rfl | rfl <;> exact absurd inner (by decide +kernel)

theorem unmarked_scan {last : Option Token} (tracks : Tracks fresh previous last pending old new)
    {tokens : List Token} (inOrder : Token.InOrder fresh old tokens) :
    Unmarked last (scan marker previous pending tokens) := by
  induction tokens generalizing fresh previous last pending old new with
  | nil => trivial
  | cons token rest ih =>
    cases isLayout : token.isLayout with
    | true =>
      obtain ⟨isFresh, row, others⟩ := (Token.inOrder_layout isLayout).1 inOrder
      obtain ⟨unmarked, free, unmoved, -⟩ := tracks.still isFresh row
      rw [scan_unmarked unmarked, unmoved]
      exact ⟨free, ih (tracks.layout isFresh isLayout row) (isFresh ▸ others)⟩
    | false =>
      obtain ⟨fills, ahead, others⟩ := (Token.inOrder_token isLayout).1 inOrder
      cases marked : isMarked previous token with
      | true =>
        obtain ⟨rfl, -, -, next⟩ := tracks.marks fills marked rfl
        obtain ⟨eq, -, -, isGreater, -⟩ := isMarked_iff.1 marked
        rw [Token.isOp, Bool.and_eq_true, beq_iff_eq] at isGreater
        simp only [isGreater.1, Bool.false_and, Bool.false_or] at others
        simp only [scan, marked, if_true]
        refine ⟨?_, ih next others⟩
        cases last with
        | none => rfl
        | some other => simp [isMarked, isSigil, Token.isOp, markerAt]
      | false =>
        rw [scan_unmarked marked]
        exact ⟨tracks.unmarked marked ahead fills.forward, ih (tracks.step fills ahead) others⟩

private theorem head?_scan {last : Option Token}
    (tracks : Tracks fresh previous last pending old new) (isFresh : fresh = true)
    {rest : List Token} (rows : ∀ next ∈ rest.head?, old.row ≤ next.start.row) :
    (scan marker previous pending rest).head? = rest.head? := by
  cases rest with
  | nil => rfl
  | cons token rest =>
    obtain ⟨unmarked, -, unmoved, -⟩ := tracks.still isFresh (rows token rfl)
    rw [scan_unmarked unmarked, unmoved]
    rfl

private theorem placed_scan (identifier : Text.Identifier.isIdentifier marker.toList = true)
    {last : Option Token} (tracks : Tracks fresh previous last pending old new)
    {tokens : List Token} (placed : Placed fresh columns old tokens) :
    Placed fresh columns new (scan marker previous pending tokens) := by
  induction tokens generalizing fresh columns previous last pending old new with
  | nil => trivial
  | cons token rest ih =>
    cases isLayout : token.isLayout with
    | true =>
      have onRow : fresh = true ∧ old.row ≤ token.start.row := by
        rw [Placed] at placed
        cases kind : token.kind <;> simp only [kind] at placed <;> simp_all [Token.isLayout]
      obtain ⟨isFresh, row⟩ := onRow
      obtain ⟨unmarked, -, unmoved, rfl⟩ := tracks.still isFresh row
      have next := tracks.layout isFresh isLayout row
      rw [scan_unmarked unmarked, unmoved]
      -- The tokens behind one of layout begin where it ends, and stay there.
      have heads : token.stop.row = new.row → (∀ other ∈ rest.head?, other.start = token.stop) →
          ∀ other ∈ (scan marker (some token) (.moved none) rest).head?, other.start = token.stop := by
        intro stopRow starts
        rw [head?_scan next isFresh]
        · exact starts
        · intro other member
          rw [starts other member, stopRow]
      simp only [Token.isLayout, Bool.or_eq_true, beq_iff_eq] at isLayout
      rcases isLayout with (kind | kind) | kind
      · rw [Placed, kind] at placed ⊢
        obtain ⟨-, text, start, stopRow, starts, inner⟩ := placed
        exact ⟨isFresh, text, start, stopRow, heads stopRow starts, ih next inner⟩
      · rw [Placed, kind] at placed ⊢
        obtain ⟨-, stopRow, start, starts, inner⟩ := placed
        exact ⟨isFresh, stopRow, start, heads stopRow starts, ih next inner⟩
      · rw [Placed, kind] at placed ⊢
        obtain ⟨-, start, stop, rfl⟩ := placed
        exact ⟨isFresh, start, stop, rfl⟩
    | false =>
      rw [placed_token isLayout] at placed
      obtain ⟨fills, ahead, row, col, others⟩ := placed
      cases marked : isMarked previous token with
      | true =>
        obtain ⟨rfl, nameStart, -, next⟩ := tracks.marks fills marked rfl
        obtain ⟨eq, -, -, isGreater, -⟩ := isMarked_iff.1 marked
        rw [Token.isOp, Bool.and_eq_true, beq_iff_eq] at isGreater
        simp only [isGreater.1, Bool.false_and, Bool.false_or] at others
        simp only [scan, marked, if_true]
        refine (placed_token rfl).2 ⟨fills_markerAt identifier token _, ?_, by rintro ⟨⟩,
          by rintro ⟨⟩, ih next others⟩
        rw [nameStart]
        exact .inr ⟨rfl, Nat.le_add_right _ _⟩
      | false =>
        obtain ⟨kind, text, startRow, -⟩ := kind_step pending token
        have moves := tracks.aligned.moves ahead fills.forward
        have noLayout : (pending.step token).1.isLayout = false := by
          rwa [Token.isLayout, kind]
        have significant : (pending.step token).1.isSignificant = token.isSignificant := by
          simp only [Token.isSignificant, Token.isTrivia, Token.isLayout, kind]
        have placedRest := ih (tracks.step fills ahead) others
        rw [scan_unmarked marked]
        refine (placed_token noLayout).2 ⟨moves.fills fills, moves.ahead, ?_, ?_, ?_⟩
        · intro isFresh
          rw [startRow, row isFresh, tracks.aligned.row]
        · intro isFresh isSignificant
          obtain ⟨-, -, unmoved, -⟩ := tracks.still isFresh (Nat.le_of_eq (row isFresh).symm)
          rw [unmoved]
          exact col isFresh (significant ▸ isSignificant)
        · rw [significant, kind]
          exact placedRest

theorem tracks_initial : Tracks true none none (.moved none) .origin .origin where
  aligned := ⟨rfl, rfl⟩
  resting := fun _ => ⟨none, rfl, nofun⟩
  equals := nofun
  kept := nofun

theorem markFrom_of_unmarked (marker : String) (count : Nat) {tokens : List Token}
    (unmarked : Unmarked previous tokens) :
    markFrom marker none count tokens = tokens.map fun token => (token, count) := by
  induction tokens generalizing previous with
  | nil => rfl
  | cons token rest ih =>
    cases rest with
    | nil => rfl
    | cons next rest =>
      obtain ⟨-, noSigil, others⟩ := unmarked
      have isSigil : ¬ isSigil token next = true := by simpa [isMarked] using noSigil
      have later : Unmarked (some token) (next :: rest) := ⟨noSigil, others⟩
      rw [markFrom, if_neg isSigil, List.map_cons, ← ih later]
      rfl

end Sigil

/-- The token is an operator, a comment or a line break. -/
def Token.endsName (token : Token) : Bool :=
  token.kind == .op || token.kind == .comment || token.isBreak

namespace Lexeme

private theorem outside_of_operator : ∀ op ∈ operators, ∀ c ∈ op.toList.head?,
    Text.Identifier.isInner c = false ∧ isQuote c = false := by
  decide +kernel

private theorem outside_of_endsName {lexeme : Lexeme} {rest : List Lexeme}
    (reads : Reads (lexeme :: rest)) {layout : Layout}
    (ends : (layout.tokenFor lexeme).endsName = true) :
    ∀ c ∈ lexeme.text.head?, Text.Identifier.isInner c = false ∧ isQuote c = false := by
  obtain ⟨kind, text⟩ := lexeme
  obtain ⟨filled, read, -⟩ := reads
  cases kind with
  | operator =>
    obtain ⟨op, member, same⟩ := mem_operators_of_first filled read
    simp only at same
    rw [same]
    exact outside_of_operator op member
  | comment =>
    rw [((first_comment_iff filled).1 read).1]
    rintro c ⟨⟩
    decide +kernel
  | lineBreak =>
    have isBreak := ((first_lineBreak_iff filled).1 read).1
    simp only [breaks, List.mem_cons, List.not_mem_nil, or_false] at isBreak
    rcases isBreak with rfl | rfl | rfl <;> decide +kernel
  | space | continuation | openQuote | string | number | name | stray => cases ends

theorem Reads.filled {lexemes : List Lexeme} (reads : Reads lexemes) :
    ∀ lexeme ∈ lexemes, lexeme.text ≠ [] := by
  induction lexemes with
  | nil => exact List.forall_mem_nil _
  | cons lexeme rest ih => exact List.forall_mem_cons.2 ⟨reads.1, ih reads.2.2⟩

private theorem isIdentifier_of_split {text : List Char} (single : split text = [⟨.name, text⟩]) :
    Text.Identifier.isIdentifier text = true := by
  obtain ⟨filled, read, -⟩ := single ▸ reads_split text
  exact isIdentifier_of_first filled read

end Lexeme

namespace Sigil

/-- In front of operators, comments and line breaks an identifier stays a name of its own. -/
theorem clears_of_endsName {marker source : String} {tokens : List Token}
    (identifier : Text.Identifier.isIdentifier marker.toList = true)
    (tokenized : tokenize source = .ok tokens)
    (apart : followedBy Token.endsName tokens = true) : Clears marker tokens := by
  intro front eq gt next back split sigil _ c more text rest
  have ends := select_of_followedBy apart split sigil
  have member : next ∈ tokens := by simp [split]
  refine Lexeme.first_of_isIdentifier identifier ?_
  rintro _ ⟨⟩
  rcases Layout.mem_run (Lexeme.reads_split source.toList) tokenized next member with
    ⟨isLayout, -⟩ | ⟨-, empty⟩ | ⟨before, lexeme, others, -, reads, -, rfl⟩
  · simp only [Token.isLayout, Bool.or_eq_true, beq_iff_eq] at isLayout
    rcases isLayout with (kind | kind) | kind <;>
      simp [Token.endsName, Token.isBreak, kind] at ends
  · simp [empty] at text
  · rw [Layout.text_tokenFor, String.toList_ofList] at text
    exact Lexeme.outside_of_endsName reads ends c (by rw [text]; rfl)

/-- The tokens of a text that is indented by blanks, with its sigils marked, are placed and have no
sigils. -/
theorem placed_mark {marker source : String} {tokens : List Token}
    (identifier : Text.Identifier.isIdentifier marker.toList = true)
    (tokenized : tokenize source = .ok tokens)
    (blank : ∀ lexeme ∈ Lexeme.split source.toList, lexeme.usesBlanks = true)
    (continues : Lexeme.continuesLines {} (Lexeme.split source.toList) = true) :
    Placed true [] .origin (mark marker tokens) ∧ Unmarked none (mark marker tokens) := by
  have indented : Layout.Indented {} {} .origin (Lexeme.split source.toList) :=
    ⟨stage_initial.inPhase, blank, continues, Position.le_refl _, fun _ => rfl, fun _ => .inl rfl⟩
  rw [mark_eq_scan]
  exact ⟨placed_scan identifier tracks_initial
      (Layout.placed_run indented (Lexeme.reads_split source.toList) tokenized),
    unmarked_scan tracks_initial (inOrder_tokenize tokenized)⟩

end Sigil

/-- Marking a text that is indented by blanks gives a text that is read back as the marked tokens,
places included; marking it again finds no sigil and gives the same text. -/
theorem Expansion.markedText_stable {options : Options} {source : String} {tokens : List Token}
    (name : Lexeme.split options.markerName.toList = [⟨.name, options.markerName.toList⟩])
    (tokenized : tokenize source = .ok tokens)
    (blank : ∀ lexeme ∈ Lexeme.split source.toList, lexeme.usesBlanks = true)
    (continues : Lexeme.continuesLines {} (Lexeme.split source.toList) = true)
    (apart : Sigil.followedBy Token.endsName tokens = true) :
    ∃ text, markedText options source = .ok text ∧
      tokenize text = .ok (Sigil.mark options.markerName tokens) ∧
      (∀ pair ∈ Sigil.markCounting options.markerName (Sigil.mark options.markerName tokens),
        pair.2 = 0) ∧
      markedText options text = .ok text := by
  have identifier := Lexeme.isIdentifier_of_split name
  obtain ⟨placed, unmarked⟩ := Sigil.placed_mark identifier tokenized blank continues
  obtain ⟨written, isWritten, splits, _⟩ := Sigil.written_mark tokenized options.markerName
  have reread := splits identifier (Sigil.clears_of_endsName identifier tokenized apart)
  have filled := (reread ▸ Lexeme.reads_split (Lexeme.textOf written)).filled
  have synced : Synced {} {} [] {} := ⟨relay_initial, rfl, rfl, fun _ => .inr rfl⟩
  have ran := isWritten.run_placed synced filled placed
  have text : sourceText (Sigil.mark options.markerName tokens) =
      .ok (String.ofList (Lexeme.textOf written)) := by
    rw [sourceText, isWritten.run_eq]
    rfl
  have again : tokenize (String.ofList (Lexeme.textOf written)) =
      .ok (Sigil.mark options.markerName tokens) := by
    rw [tokenize, String.toList_ofList, reread, ran]
  have still := Sigil.markFrom_of_unmarked options.markerName 0 unmarked
  have same : Sigil.mark options.markerName (Sigil.mark options.markerName tokens) =
      Sigil.mark options.markerName tokens := by
    rw [Sigil.mark, Sigil.markCounting, still, List.map_map]
    exact List.map_id _
  refine ⟨_, ?_, again, ?_, ?_⟩
  · rw [markedText, markedTokens, tokenized]
    exact text
  · rw [Sigil.markCounting, still]
    intro pair member
    obtain ⟨token, -, rfl⟩ := List.mem_map.1 member
    rfl
  · rw [markedText, markedTokens, again]
    show sourceText (Sigil.mark _ _) = _
    rw [same, text]

/-- Two late defaults on a row, one of them behind a comment, in a block that is closed. -/
def crowdedSource : String :=
  "if a:\n  def f(b, c =>(b) , d=># e\n (c)): return '''d\n '''\nf(b) + \\\n  g"

theorem markedText_stable_crowded : ∃ tokens, tokenize crowdedSource = .ok tokens ∧
    Sigil.followedBy Token.endsName tokens = true ∧
    ∃ text, Expansion.markedText {} crowdedSource = .ok text ∧
      tokenize text = .ok (Sigil.mark ({} : Options).markerName tokens) ∧
      (∀ pair ∈ Sigil.markCounting ({} : Options).markerName
        (Sigil.mark ({} : Options).markerName tokens), pair.2 = 0) ∧
      Expansion.markedText {} text = .ok text := by
  have apart : (tokenize crowdedSource).toOption.any (Sigil.followedBy Token.endsName) = true := by
    decide +kernel
  cases tokenized : tokenize crowdedSource with
  | error fault =>
    rw [tokenized] at apart
    cases apart
  | ok tokens =>
    rw [tokenized] at apart
    exact ⟨tokens, rfl, apart, Expansion.markedText_stable (by decide +kernel) tokenized
      (by decide +kernel) (by decide +kernel) apart⟩

end DeferredDefaults
