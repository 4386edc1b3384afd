import DeferredDefaults.Proofs.Sigil.Alignment
import DeferredDefaults.Proofs.Token.Identifier
import DeferredDefaults.Proofs.Token.Writing

/-!
Writing a text with its sigils marked. Layout, marking and writing go through the lexemes of a text
side by side; what is written is a copy of the lexemes, with the marker for the `>` of every sigil.
-/

set_option autoImplicit false
set_option relaxedAutoImplicit false

namespace DeferredDefaults

namespace Lexeme

def equals : Lexeme := ⟨.operator, ['=']⟩

def greater : Lexeme := ⟨.operator, ['>']⟩

/-- A list of lexemes by its gaps: the lexemes that are no gaps come one by one, and the two halves
of a sigil together. -/
inductive Grouped : List Lexeme → Prop
  | ended {gap : List Lexeme} : (∀ lexeme ∈ gap, lexeme.IsGap) → Grouped gap
  | lexeme {gap : List Lexeme} {lexeme : Lexeme} {rest : List Lexeme} :
      (∀ lexeme ∈ gap, lexeme.IsGap) → lexeme.kind ≠ .space → lexeme.kind ≠ .continuation →
      (lexeme = equals → rest.head? ≠ some greater) → Grouped rest →
      Grouped (gap ++ lexeme :: rest)
  | sigil {gap rest : List Lexeme} :
      (∀ lexeme ∈ gap, lexeme.IsGap) → Grouped rest →
      Grouped (gap ++ equals :: greater :: rest)

theorem exists_gap {lexemes : List Lexeme} (reads : Reads lexemes) :
    ∃ gap rest, lexemes = gap ++ rest ∧ (∀ lexeme ∈ gap, lexeme.IsGap) ∧
      ∀ lexeme ∈ rest.head?, lexeme.kind ≠ .space ∧ lexeme.kind ≠ .continuation := by
  induction lexemes with
  | nil => exact ⟨[], [], rfl, nofun, nofun⟩
  | cons lexeme rest ih =>
    by_cases kind : lexeme.kind = .space ∨ lexeme.kind = .continuation
    · obtain ⟨gap, others, split, isGap, head⟩ := ih reads.2.2
      refine ⟨lexeme :: gap, others, by rw [split]; rfl, ?_, head⟩
      rw [List.forall_mem_cons]
      exact ⟨isGap_of_reads reads kind, isGap⟩
    · refine ⟨[], lexeme :: rest, rfl, nofun, ?_⟩
      intro other member
      cases member
      exact ⟨fun space => kind (.inl space), fun continuation => kind (.inr continuation)⟩

theorem grouped_of_reads {lexemes : List Lexeme} (reads : Reads lexemes) : Grouped lexemes := by
  generalize size : lexemes.length = n
  induction n using Nat.strongRecOn generalizing lexemes with
  | ind n ih =>
    obtain ⟨gap, rest, rfl, isGap, head⟩ := exists_gap reads
    cases rest with
    | nil =>
      rw [List.append_nil]
      exact .ended isGap
    | cons lexeme rest =>
      have readsRest := reads.drop.2.2
      rw [List.length_append, List.length_cons] at size
      obtain ⟨noSpace, noContinuation⟩ := head lexeme rfl
      by_cases sigil : lexeme = equals ∧ rest.head? = some greater
      · obtain ⟨rfl, next⟩ := sigil
        obtain ⟨others, rfl⟩ := List.head?_eq_some_iff.1 next
        rw [List.length_cons] at size
        exact .sigil isGap (ih others.length (by omega) readsRest.2.2 rfl)
      · refine .lexeme isGap noSpace noContinuation ?_ (ih rest.length (by omega) readsRest rfl)
        intro isEquals isGreater
        exact sigil ⟨isEquals, isGreater⟩

end Lexeme

namespace Sigil

def Clear (marker : String) (token : Token) : Prop :=
  ∀ c more, token.text.toList = c :: more → ∀ rest,
    Lexeme.first (marker.toList ++ c :: rest) = (.name, marker.toList.length)

/-- The marker stays a name of its own in front of every token that follows a sigil on its row. -/
def Clears (marker : String) (tokens : List Token) : Prop :=
  ∀ front eq gt next back, tokens = front ++ eq :: gt :: next :: back → isSigil eq gt = true →
    next.start.row = gt.start.row → Clear marker next

theorem Clears.drop {marker : String} {front back : List Token}
    (clears : Clears marker (front ++ back)) : Clears marker back := by
  intro front' eq gt next back' split
  apply clears (front ++ front') eq gt next back'
  rw [split, List.append_assoc]

open Lexeme (Before)

/-- Layout, marking and writing between two lexemes. -/
structure Stage (before : Before) (phase : Phase) (layout : Layout) (pending : Pending)
    (writer : SourceText) : Prop where
  inPhase : layout.InPhase phase
  rowStart : phase.rowStart = true ↔ before = .rowStart
  aligned : Aligned pending layout.cursor writer.last
  /-- Behind a marker its row waits for the next token. -/
  moved : before ≠ .marker → ∃ shift, pending = .moved shift
  marked : before = .marker → ∃ name, pending = .behind name
  /-- At the start of a row no move is pending for it. -/
  resting : before = .rowStart → ∀ shift, pending = .moved (some shift) →
    shift.row < layout.cursor.row
  /-- Within a row no indentation is written. -/
  quiet : before ≠ .rowStart → writer.lineStart = false ∨ writer.indents = []
  widths : writer.indents.map (fun indent => Layout.width indent.toList) = layout.blocks
  spaces : ∀ indent ∈ writer.indents, indent.toList.all Lexeme.isSpace = true
  margin : layout.margin.all Lexeme.isSpace = true

variable {before : Before} {phase : Phase} {layout : Layout} {pending : Pending}
  {writer : SourceText} {lexeme : Lexeme} {gap : List Lexeme} {old new : Position}

theorem margin_behind (layout : Layout) (lexeme : Lexeme)
    (spaces : layout.margin.all Lexeme.isSpace = true) :
    (layout.behind lexeme).margin.all Lexeme.isSpace = true := by
  have either : ∀ fresh : Bool,
      (if fresh then [] else layout.margin).all Lexeme.isSpace = true := by
    intro fresh
    cases fresh with
    | true => rfl
    | false => exact spaces
  unfold Layout.behind
  split
  · exact spaces
  · exact either _
  · exact spaces

theorem aligned_behind {old new : Token} {shift : Option Shift}
    (stops : Aligned (.moved shift) old.stop new.stop) (kind : new.kind = old.kind)
    (row : ∀ move, shift = some move → move.row = old.start.row)
    (onRow : old.isBreak = true → old.stop.row = old.start.row) :
    Aligned (.moved shift) old.behind new.behind := by
  have sameBreak : new.isBreak = old.isBreak := by rw [Token.isBreak, Token.isBreak, kind]
  rw [Token.behind, Token.behind, sameBreak]
  cases isBreak : old.isBreak with
  | false => exact stops
  | true =>
    have sameRow := stops.row
    have stay := onRow isBreak
    simp only [if_true, Position.nextRow]
    refine ⟨by simp only; omega, ?_⟩
    cases shift with
    | none => rfl
    | some move =>
      have here := row move rfl
      simp only
      refine ⟨by omega, ?_⟩
      rw [if_neg (by omega)]
      trivial

private theorem Stage.behind_token {entered : SourceText} {settled : Layout}
    (inPhase : (settled.behind lexeme).InPhase (phase.after lexeme))
    (moves : Moves pending old new (settled.tokenFor lexeme))
    (widths : entered.indents.map (fun indent => Layout.width indent.toList) = settled.blocks)
    (spaces : ∀ indent ∈ entered.indents, indent.toList.all Lexeme.isSpace = true)
    (margin : settled.margin.all Lexeme.isSpace = true) :
    Stage (.ofKind lexeme.kind) (phase.after lexeme) (settled.behind lexeme)
      (.moved (pending.step (settled.tokenFor lexeme)).2)
      (entered.after (pending.step (settled.tokenFor lexeme)).1) := by
  have kind := (kind_step pending (settled.tokenFor lexeme)).1
  have isBreak := settled.isBreak_tokenFor lexeme
  have ofKind : Before.ofKind lexeme.kind = .rowStart ↔ lexeme.kind = .lineBreak := by
    unfold Before.ofKind
    split <;> simp_all
  have notMarker : Before.ofKind lexeme.kind ≠ .marker := by
    unfold Before.ofKind
    split <;> simp
  refine ⟨inPhase, ?_, ?_, fun _ => ⟨_, rfl⟩, fun marker => absurd marker notMarker, ?_, ?_, ?_, ?_,
    ?_⟩
  · rw [ofKind, Phase.rowStart_after]
  · rw [Layout.cursor_behind, SourceText.last_after]
    exact aligned_behind moves.stops kind moves.row Layout.stop_row_of_isBreak
  · intro rowStart shift found
    rw [ofKind] at rowStart
    have breaks : (settled.tokenFor lexeme).isBreak = true := by rw [isBreak, rowStart]; rfl
    have onRow := Layout.stop_row_of_isBreak breaks
    have row := moves.row shift (by injection found)
    rw [Layout.cursor_behind, Token.behind, if_pos breaks]
    simp only [Position.nextRow]
    omega
  · intro within
    apply SourceText.quiet_after
    rw [Token.isBreak, kind]
    rw [Ne, ofKind] at within
    show (settled.tokenFor lexeme).isBreak = false
    rw [isBreak, beq_eq_false_iff_ne]
    exact within
  · rw [SourceText.indents_after, Layout.blocks_behind]
    exact widths
  · rw [SourceText.indents_after]
    exact spaces
  · exact margin_behind settled lexeme margin

theorem pad_eq_nil_iff {token : Token} (ahead : writer.last ≤ token.start)
    (quiet : token.isBreak = true ∨ writer.lineStart = false ∨ writer.indents = []) :
    writer.pad token = [] ↔ token.start = writer.last := by
  rw [SourceText.pad_of_quiet quiet, Lexeme.padBetween_eq_nil_iff ahead]
  simp

/-- A token that begins no logical line: its gap, and the stage behind it. -/
theorem Stage.token (stage : Stage before phase layout pending writer)
    (isGap : ∀ lexeme ∈ gap, lexeme.IsGap) (hasToken : lexeme.kind.hasToken = true)
    (notFirst : (layout.atLineStart && lexeme.kind.isCode) = false)
    {token : Token} (isToken : token = (layout.cross gap).tokenFor lexeme) :
    Moves pending layout.cursor writer.last token ∧
      Stage (.ofKind lexeme.kind) (phase.after lexeme) ((layout.cross gap).behind lexeme)
        (.moved (pending.step token).2) (writer.after (pending.step token).1) ∧
      Lexeme.Pad (writer.pad (pending.step token).1) ∧
      Lexeme.Fits before lexeme.kind gap (writer.pad (pending.step token).1) ∧
      ∀ rest lexemes,
        Written (phase.after lexeme) (writer.after (pending.step token).1) rest lexemes →
        Written phase writer ((pending.step token).1 :: rest)
          (writer.pad (pending.step token).1 ++ lexeme :: lexemes) := by
  have start : token.start = (layout.cross gap).cursor := by rw [isToken, Layout.start_tokenFor]
  have further := Layout.cursor_cross layout isGap
  have moves : Moves pending layout.cursor writer.last token := by
    apply stage.aligned.moves
    · rw [start]
      exact further.1
    · rw [isToken]
      exact Layout.start_le_stop_tokenFor _ _
  have step := kind_step pending token
  have kind : token.kind = phase.kindOf lexeme.kind := by
    rw [isToken]
    exact stage.inPhase.kind_tokenFor gap lexeme
  have nilIff : ∀ shift, pending = .moved shift →
      ((pending.step token).1.start = writer.last ↔ gap = []) := by
    intro shift moved
    rw [moves.near shift moved, start, further.2]
  refine ⟨moves, ?_, SourceText.isPad_pad stage.spaces _, ?_, ?_⟩
  · subst isToken
    refine Stage.behind_token ?_ moves ?_ stage.spaces ?_
    · exact stage.inPhase.behind gap (layout.cross gap).blocks lexeme
    · rw [Layout.blocks_cross]
      exact stage.widths
    · exact Layout.margin_cross layout isGap stage.margin
  · cases before with
    | lexeme =>
      obtain ⟨shift, moved⟩ := stage.moved (by simp)
      show gap = [] ↔ _
      rw [pad_eq_nil_iff moves.ahead (.inr (stage.quiet (by simp))), nilIff shift moved]
    | rowStart =>
      obtain ⟨shift, moved⟩ := stage.moved (by simp)
      intro lineBreak
      have isBreak : (pending.step token).1.isBreak = true := by
        rw [Token.isBreak, step.1]
        show token.isBreak = true
        rw [isToken, Layout.isBreak_tokenFor, lineBreak]
        rfl
      rw [pad_eq_nil_iff moves.ahead (.inl isBreak), nilIff shift moved]
    | marker => trivial
  · intro rest lexemes written
    refine .token hasToken ?_ (step.1.trans kind) ?_ ?_ moves.ahead written
    · rw [← stage.inPhase.fresh]
      exact notFirst
    · rw [step.2.1, isToken, Layout.text_tokenFor]
    · intro comma
      apply moves.length
      rw [Token.isOp, step.1, step.2.1, isToken] at comma
      rw [isToken]
      exact Layout.stop_of_comma comma

theorem isMarked_of_isLayout {block : Token} (isLayout : block.isLayout = true)
    (previous : Option Token) : isMarked previous block = false := by
  have noOp : ∀ op, block.isOp op = false := by
    intro op
    simp only [Token.isLayout, Bool.or_eq_true, beq_iff_eq] at isLayout
    rcases isLayout with (kind | kind) | kind <;> simp [Token.isOp, kind]
  cases previous with
  | none => rfl
  | some eq => simp [isMarked, isSigil, noOp]

private theorem isMarked_behind_isLayout {block : Token} (isLayout : block.isLayout = true)
    (token : Token) : isMarked (some block) token = false := by
  simp only [Token.isLayout, Bool.or_eq_true, beq_iff_eq] at isLayout
  rcases isLayout with (kind | kind) | kind <;> simp [isMarked, isSigil, Token.isOp, kind]

private theorem scan_still (marker : String) {blocks : List Token} {token : Token}
    {shift : Option Shift} {previous : Option Token}
    (onRow : ∀ block ∈ blocks, block.isLayout = true ∧ block.start.row = token.start.row)
    (still : ∀ move, shift = some move → move.row ≠ token.start.row)
    (unmarked : isMarked previous token = false) (rest : List Token) :
    scan marker previous (.moved shift) (blocks ++ token :: rest) =
      blocks ++ token :: scan marker (some token) (.moved none) rest := by
  have stays : ∀ other : Token, other.start.row = token.start.row →
      Shift.move shift other = (other, none) := by
    intro other row
    unfold Shift.move
    split
    · rfl
    · next move =>
      rw [if_neg]
      intro same
      exact still move rfl (same.symm.trans row)
  induction blocks generalizing previous shift with
  | nil => simp only [List.nil_append, scan, unmarked, Pending.shift, stays token rfl,
      Bool.false_eq_true, if_false]
  | cons block blocks ih =>
    rw [List.forall_mem_cons] at onRow
    obtain ⟨⟨isLayout, row⟩, others⟩ := onRow
    have behind : scan marker (some block) (.moved none) (blocks ++ token :: rest) = _ :=
      ih others (by rintro _ ⟨⟩) (isMarked_behind_isLayout isLayout token) fun _ _ => rfl
    simp only [List.cons_append, scan, isMarked_of_isLayout isLayout, Pending.shift,
      stays block row, Bool.false_eq_true, if_false, behind]

section First

variable {blocks : List Token} {settled : Layout} {token : Token}

private theorem widths_drop {indents : List String}
    (widths : indents.map (fun indent => Layout.width indent.toList) = layout.blocks)
    (returns : layout.kept.headD 0 = Layout.width layout.margin) :
    layout.closed.length ≤ indents.length ∧
      (indents.drop layout.closed.length).map (fun indent => Layout.width indent.toList) =
        layout.kept ∧
      ∀ indent ∈ indents.take layout.closed.length,
        Layout.width ((indents.drop layout.closed.length).headD "").toList <
          Layout.width indent.toList := by
  have whole : layout.closed ++ layout.kept = layout.blocks := List.takeWhile_append_dropWhile
  have dropped : (indents.drop layout.closed.length).map
      (fun indent => Layout.width indent.toList) = layout.kept := by
    rw [List.map_drop, widths, ← whole, List.drop_left]
  refine ⟨?_, dropped, ?_⟩
  · have size := congrArg List.length widths
    rw [← whole, List.length_map, List.length_append] at size
    omega
  · intro indent member
    have width : Layout.width indent.toList ∈ layout.closed := by
      have image := List.mem_map_of_mem member (f := fun indent => Layout.width indent.toList)
      rwa [List.map_take, widths, ← whole, List.take_left] at image
    rw [SourceText.width_headD, dropped, returns]
    have wider := List.all_eq_true.1 List.all_takeWhile _ width
    simpa using wider

private theorem Stage.entered (stage : Stage .rowStart phase layout pending writer)
    (isGap : ∀ lexeme ∈ gap, lexeme.IsGap)
    (isToken : token = (layout.cross gap).tokenFor lexeme) {widths : List Nat}
    {entered : SourceText}
    (same : entered.indents.map (fun indent => Layout.width indent.toList) = widths)
    (spaces : ∀ indent ∈ entered.indents, indent.toList.all Lexeme.isSpace = true) :
    Stage (.ofKind lexeme.kind) (phase.after lexeme)
      ({ layout.cross gap with blocks := widths }.behind lexeme) (.moved none)
      (entered.after token) := by
  have sameToken : { layout.cross gap with blocks := widths }.tokenFor lexeme = token := by
    rw [Layout.tokenFor_blocks, isToken]
  have moves : Moves (.moved none) token.start token.start token := by
    apply Aligned.moves ⟨rfl, rfl⟩ (Position.le_refl _)
    rw [isToken]
    exact Layout.start_le_stop_tokenFor _ _
  have behind := Stage.behind_token (stage.inPhase.behind gap widths lexeme)
    (sameToken.symm ▸ moves) same spaces (Layout.margin_cross layout isGap stage.margin)
  rwa [sameToken] at behind

/-- A token that opens or closes blocks: its margin, and the stage behind it. -/
theorem Stage.first (stage : Stage .rowStart phase layout pending writer)
    (isGap : ∀ lexeme ∈ gap, lexeme.IsGap) (isCode : lexeme.kind.isCode = true)
    (fresh : layout.atLineStart = true)
    (settles : (layout.cross gap).settle = .ok (blocks, settled))
    (isToken : token = (layout.cross gap).tokenFor lexeme) :
    Stage (.ofKind lexeme.kind) (phase.after lexeme) (settled.behind lexeme) (.moved none)
        ((blocks.foldl SourceText.enter writer).after token) ∧
      Lexeme.Pad ((blocks.foldl SourceText.enter writer).pad token) ∧
      (∀ rest lexemes,
        Written (phase.after lexeme) ((blocks.foldl SourceText.enter writer).after token) rest
          lexemes →
        Written phase writer (blocks ++ token :: rest)
          ((blocks.foldl SourceText.enter writer).pad token ++ lexeme :: lexemes)) ∧
      ∀ marker previous rest, isMarked previous token = false →
        scan marker previous pending (blocks ++ token :: rest) =
          blocks ++ token :: scan marker (some token) (.moved none) rest := by
  have start : token.start = (layout.cross gap).cursor := by rw [isToken, Layout.start_tokenFor]
  have further := (Layout.cursor_cross layout isGap).1
  obtain ⟨shift, rfl⟩ := stage.moved (by simp)
  have still : ∀ move, shift = some move → move.row ≠ token.start.row := by
    intro move found
    have rests := stage.resting rfl move (by rw [found])
    rw [start]
    rw [Position.le_iff] at further
    omega
  have unmoved : (Pending.moved shift).step token = (token, none) :=
    step_unmoved fun move found => (still move found).symm
  have ahead : writer.last ≤ token.start := by
    have forward : token.start ≤ token.stop := by
      rw [isToken]
      exact Layout.start_le_stop_tokenFor _ _
    have moves := stage.aligned.moves (start ▸ further) forward
    simpa only [unmoved] using moves.ahead
  have kind : token.kind = phase.kindOf lexeme.kind := by
    rw [isToken]
    exact stage.inPhase.kind_tokenFor gap lexeme
  have text : token.text = String.ofList lexeme.text := by rw [isToken, Layout.text_tokenFor]
  have spans : token.Spans := by
    rw [isToken]
    exact Layout.stop_of_comma
  have phaseFresh : phase.fresh = true := stage.inPhase.fresh ▸ fresh
  have phaseRow : phase.rowStart = true := stage.rowStart.2 rfl
  have margin := Layout.margin_cross layout isGap stage.margin
  have widths : writer.indents.map (fun indent => Layout.width indent.toList) =
      (layout.cross gap).blocks := by
    rw [Layout.blocks_cross]
    exact stage.widths
  rcases Layout.settle_eq_ok settles with ⟨deeper, rfl, rfl⟩ | ⟨returns, rfl, rfl⟩
  · have entered : [(layout.cross gap).opening].foldl SourceText.enter writer =
        { writer with
          indents := String.ofList (layout.cross gap).margin :: writer.indents } := rfl
    have spaces : ∀ indent ∈ String.ofList (layout.cross gap).margin :: writer.indents,
        indent.toList.all Lexeme.isSpace = true := by
      rw [List.forall_mem_cons]
      exact ⟨by rwa [String.toList_ofList], stage.spaces⟩
    rw [entered]
    refine ⟨stage.entered isGap isToken ?_ spaces, SourceText.isPad_pad spaces token, ?_,
      fun marker previous rest unmarked => scan_still marker ?_ still unmarked rest⟩
    · simp [widths]
    · intro rest lexemes written
      refine .opened isCode phaseFresh phaseRow rfl ?_ ?_ kind text spans ahead written
      · show (String.ofList (layout.cross gap).margin).toList.all Lexeme.isSpace = true
        rwa [String.toList_ofList]
      · rw [SourceText.width_headD, widths]
        show _ < Layout.width (String.ofList (layout.cross gap).margin).toList
        rw [String.toList_ofList]
        exact deeper
    · rw [List.forall_mem_singleton]
      exact ⟨rfl, start ▸ rfl⟩
  · obtain ⟨within, dropped, narrower⟩ := widths_drop widths returns
    have dedents : ∀ block ∈ (layout.cross gap).closed.map
        (fun _ => Layout.dedentAt (layout.cross gap).cursor),
        block.kind = .dedent ∧ block.text = "" ∧ block.stop = token.start := by
      rw [List.forall_mem_map]
      exact fun _ _ => ⟨rfl, rfl, start.symm⟩
    have entered := SourceText.foldl_enter_dedents
      (fun block member => ⟨(dedents block member).1, (dedents block member).2.2⟩) writer
    have spaces : ∀ indent ∈ writer.indents.drop (layout.cross gap).closed.length,
        indent.toList.all Lexeme.isSpace = true :=
      fun indent member => stage.spaces indent (List.mem_of_mem_drop member)
    rw [entered, List.length_map]
    refine ⟨stage.entered isGap isToken dropped spaces, SourceText.isPad_pad spaces token, ?_,
      fun marker previous rest unmarked => scan_still marker ?_ still unmarked rest⟩
    · intro rest lexemes written
      have written' := Written.first isCode phaseFresh phaseRow dedents
        (by rwa [List.length_map]) (by rwa [List.length_map]) kind text spans
        ahead
        (by rwa [entered, List.length_map])
      rwa [entered, List.length_map] at written'
    · rw [List.forall_mem_map]
      exact fun _ _ => ⟨rfl, start ▸ rfl⟩

end First

structure Ahead (before : Before) (layout : Layout) (previous : Option Token)
    (lexemes : List Lexeme) : Prop where
  /-- Within a row a logical line begins only behind a comment, where the row ends. -/
  fresh : layout.atLineStart = true → before = .rowStart ∨
    (before = .lexeme ∧ ∀ lexeme ∈ lexemes.head?, lexeme.kind = .lineBreak)
  /-- The `>` behind an `=` has been dealt with. -/
  plain : ∀ eq, previous = some eq → eq.isOp "=" = true →
    eq.stop = layout.cursor ∧ lexemes.head? ≠ some Lexeme.greater

/-- A logical line begins at the start of a row, or the text ends behind a comment. -/
theorem Ahead.rowStart {previous : Option Token} {rest : List Lexeme}
    (ahead : Ahead before layout previous (gap ++ rest)) (isGap : ∀ lexeme ∈ gap, lexeme.IsGap)
    (fresh : layout.atLineStart = true)
    (noBreak : ∀ lexeme ∈ rest.head?, lexeme.kind ≠ .lineBreak) :
    before = .rowStart ∨ (before = .lexeme ∧ gap = [] ∧ rest = []) := by
  rcases ahead.fresh fresh with rowStart | ⟨within, lineBreak⟩
  · exact .inl rowStart
  · cases gap with
    | nil =>
      cases rest with
      | nil => exact .inr ⟨within, rfl, rfl⟩
      | cons lexeme more => exact absurd (lineBreak lexeme rfl) (noBreak lexeme rfl)
    | cons lexeme more =>
      have kind := lineBreak lexeme rfl
      rw [List.forall_mem_cons] at isGap
      rcases isGap.1.shape with ⟨space, _⟩ | ⟨continuation, _⟩
      · rw [space] at kind
        cases kind
      · rw [continuation] at kind
        cases kind

theorem Ahead.unmarked {previous : Option Token} {rest : List Lexeme}
    (ahead : Ahead before layout previous (gap ++ lexeme :: rest))
    (isGap : ∀ lexeme ∈ gap, lexeme.IsGap) :
    isMarked previous ((layout.cross gap).tokenFor lexeme) = false := by
  cases previous with
  | none => rfl
  | some eq =>
    rw [← Bool.not_eq_true]
    intro marked
    simp only [isMarked, Option.any_some, isSigil, Bool.and_eq_true, beq_iff_eq,
      Layout.start_tokenFor] at marked
    obtain ⟨⟨isEquals, isGreater⟩, directly⟩ := marked
    obtain ⟨stop, notGreater⟩ := ahead.plain eq rfl isEquals
    rw [stop, (Layout.cursor_cross layout isGap).2] at directly
    apply notGreater
    rw [directly, Layout.eq_of_isOp isGreater]
    rfl

end Sigil

end DeferredDefaults
