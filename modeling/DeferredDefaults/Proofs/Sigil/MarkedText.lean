import DeferredDefaults.Expansion
import DeferredDefaults.Proofs.Sigil.Rewriting

/-!
The text with its sigils marked. It is always written, and it falls into the lexemes of the source
with other gaps and with the marker for the `>` of every sigil, as long as the marker stays a name
of its own in front of what follows it.
-/

set_option autoImplicit false
set_option relaxedAutoImplicit false

namespace DeferredDefaults

namespace Sigil

open Lexeme (Before)

variable {marker : String} {before : Before} {phase : Phase} {layout : Layout} {pending : Pending}
  {writer : SourceText} {previous : Option Token} {lexeme : Lexeme} {gap rest : List Lexeme}
  {tokens : List Token}

theorem scan_unmarked {token : Token} (unmarked : isMarked previous token = false)
    (others : List Token) :
    scan marker previous pending (token :: others) =
      (pending.step token).1 :: scan marker (some token) (.moved (pending.step token).2) others := by
  simp only [scan, unmarked, Bool.false_eq_true, if_false]
  rfl

private theorem scan_closing (marker : String) {blocks : List Token} {stop : Token}
    (dedents : ∀ block ∈ blocks, block.kind = .dedent ∧ block.text = "")
    (isStop : stop.kind = .endMarker ∧ stop.text = "") (previous : Option Token)
    (pending : Pending) :
    ∃ (blocks' : List Token) (stop' : Token),
      scan marker previous pending (blocks ++ [stop]) = blocks' ++ [stop'] ∧
      blocks'.length = blocks.length ∧
      (∀ block ∈ blocks', block.kind = .dedent ∧ block.text = "") ∧
      stop'.kind = .endMarker ∧ stop'.text = "" := by
  induction blocks generalizing previous pending with
  | nil =>
    have unmarked := isMarked_of_isLayout (by simp [Token.isLayout, isStop.1] : stop.isLayout = true)
      previous
    obtain ⟨kind, text, _⟩ := kind_step pending stop
    refine ⟨[], (pending.step stop).1, ?_, rfl, List.forall_mem_nil _, kind.trans isStop.1,
      text.trans isStop.2⟩
    rw [List.nil_append, scan_unmarked unmarked]
    rfl
  | cons block blocks ih =>
    rw [List.forall_mem_cons] at dedents
    obtain ⟨⟨isDedent, noText⟩, others⟩ := dedents
    have unmarked := isMarked_of_isLayout (by simp [Token.isLayout, isDedent] : block.isLayout = true)
      previous
    obtain ⟨kind, text, _⟩ := kind_step pending block
    obtain ⟨blocks', stop', scanned, size, dedents', isStop'⟩ :=
      ih others (some block) (.moved (pending.step block).2)
    refine ⟨(pending.step block).1 :: blocks', stop', ?_, by simp [size], ?_, isStop'⟩
    · rw [List.cons_append, scan_unmarked unmarked, scanned]
      rfl
    · rw [List.forall_mem_cons]
      exact ⟨⟨kind.trans isDedent, text.trans noText⟩, dedents'⟩

private theorem Stage.ended (stage : Stage before phase layout pending writer)
    (ahead : Ahead before layout previous gap) (isGap : ∀ lexeme ∈ gap, lexeme.IsGap)
    (ran : layout.run gap = .ok tokens) (marker : String) :
    ∃ pad, Lexeme.Pad pad ∧ (before = .lexeme → (gap = [] ↔ pad = [])) ∧
      Written phase writer (scan marker previous pending tokens) pad ∧
      (Lexeme.Finished gap → Lexeme.Finished pad) := by
  have finished : (layout.cross gap).finish = .ok tokens := by
    have crossed := Layout.run_gap isGap layout []
    rw [List.append_nil, ran] at crossed
    exact crossed.symm
  have closed := Layout.depth_of_finish finished
  obtain ⟨place, isFinish⟩ := Layout.finish_of_depth closed
  rw [finished, Except.ok.injEq] at isFinish
  subst isFinish
  rw [Layout.depth_cross, stage.inPhase.depth] at closed
  have size : (List.replicate (layout.cross gap).blocks.length (Layout.dedentAt place)).length =
      writer.indents.length := by
    rw [List.length_replicate, Layout.blocks_cross, ← stage.widths, List.length_map]
  have dedents : ∀ block ∈ List.replicate (layout.cross gap).blocks.length
      (Layout.dedentAt place), block.kind = .dedent ∧ block.text = "" := by
    intro block member
    rw [List.eq_of_mem_replicate member]
    exact ⟨rfl, rfl⟩
  have closing := scan_closing marker dedents
    (⟨rfl, rfl⟩ : (⟨.endMarker, "", place, place⟩ : Token).kind = .endMarker ∧ _)
  rw [Layout.lineHasCode_cross, stage.inPhase.line]
  cases fresh : phase.fresh with
  | true =>
    obtain ⟨blocks, stop, scanned, size', dedents', isStop⟩ := closing previous pending
    refine ⟨[], trivial, ?_, ?_, fun _ => nofun⟩
    · intro within
      simp only [iff_true]
      rw [← List.append_nil gap] at ahead
      rcases ahead.rowStart isGap (stage.inPhase.fresh.trans fresh) nofun with rowStart | h
      · rw [within] at rowStart
        cases rowStart
      · exact h.2.1
    · simp only [Bool.not_true, Bool.false_eq_true, if_false, List.nil_append]
      rw [scanned]
      exact .ended closed fresh dedents' (size'.trans size) isStop.1 isStop.2
  | false =>
    let line : Token :=
      ⟨.newline, "", (layout.cross gap).cursor, (layout.cross gap).cursor.right 1⟩
    have further := Layout.cursor_cross layout isGap
    have moves : Moves pending layout.cursor writer.last line :=
      stage.aligned.moves further.1 (.inr ⟨rfl, Nat.le_add_right _ _⟩)
    have unmarked : isMarked previous line = false := by
      cases previous with
      | none => rfl
      | some eq => simp [isMarked, isSigil, Token.isOp, line]
    have step := kind_step pending line
    have isBreak : (pending.step line).1.isBreak = true := by simp [Token.isBreak, step.1, line]
    obtain ⟨blocks, stop, scanned, size', dedents', isStop⟩ :=
      closing (some line) (.moved (pending.step line).2)
    refine ⟨writer.pad (pending.step line).1, SourceText.isPad_pad stage.spaces _, ?_, ?_, ?_⟩
    · intro within
      obtain ⟨shift, moved⟩ := stage.moved (by simp [within])
      rw [pad_eq_nil_iff moves.ahead (.inl isBreak), moves.near shift moved]
      exact further.2.symm
    · show Written phase writer (scan marker previous pending (line :: (_ ++ [_]))) _
      rw [scan_unmarked unmarked, scanned]
      exact .cutOff closed fresh step.1 step.2.1 moves.ahead dedents' (size'.trans size) isStop.1
        isStop.2
    · intro finished
      rw [SourceText.pad_of_quiet (.inl isBreak), Lexeme.padBetween]
      apply Lexeme.finished_padOf
      intro further
      have later : writer.last.row < (pending.step line).1.start.row := by omega
      rw [if_pos later]
      rw [stage.aligned.row, step.2.2.1] at later
      rw [moves.later later]
      exact Layout.col_cross layout isGap finished later

/-- One lexeme behind a gap: its token, what is written for it, and the stage behind it. -/
structure Chunk (marker : String) (before : Before) (phase : Phase) (layout : Layout)
    (pending : Pending) (writer : SourceText) (previous : Option Token) (gap : List Lexeme)
    (lexeme : Lexeme) (tokens : List Token) (token : Token) (others : List Token)
    (shift : Option Shift) (entered : SourceText) (pad : List Lexeme) : Prop where
  isToken : token = (layout.cross gap).tokenFor lexeme
  hasToken : lexeme.kind.hasToken = true
  split : ∃ front, tokens = front ++ token :: others
  row : ∀ move, shift = some move → move.row = token.start.row
  isPad : Lexeme.Pad pad
  fits : Lexeme.Fits before lexeme.kind gap pad
  written : ∀ lexemes,
    Written (phase.after lexeme) entered (scan marker (some token) (.moved shift) others) lexemes →
    Written phase writer (scan marker previous pending tokens) (pad ++ lexeme :: lexemes)
  /-- Behind a marker only what is on another row stands apart. -/
  close : before = .marker → tokens = token :: others ∧
    (pad = [] ↔ token.start.row = layout.cursor.row)

private theorem Stage.chunk (stage : Stage before phase layout pending writer)
    (ahead : Ahead before layout previous (gap ++ lexeme :: rest))
    (isGap : ∀ lexeme ∈ gap, lexeme.IsGap) (space : lexeme.kind ≠ .space)
    (continuation : lexeme.kind ≠ .continuation)
    (ran : layout.run (gap ++ lexeme :: rest) = .ok tokens) (marker : String) :
    ∃ token others next shift entered pad,
      Chunk marker before phase layout pending writer previous gap lexeme tokens token others shift
        entered pad ∧
      Stage (.ofKind lexeme.kind) (phase.after lexeme) next (.moved shift) entered ∧
      next.cursor = token.behind ∧ next.run rest = .ok others := by
  have unmarked := ahead.unmarked isGap
  rw [Layout.run_gap isGap] at ran
  obtain ⟨hasToken, notFirst | first⟩ := Layout.run_cons_eq_ok space continuation ran
  · obtain ⟨notFirst, others, rfl, ranRest⟩ := notFirst
    rw [Layout.atLineStart_cross] at notFirst
    obtain ⟨moves, behind, isPad, fits, written⟩ := stage.token isGap hasToken notFirst rfl
    refine ⟨_, others, _, _, _, _,
      ⟨rfl, hasToken, ⟨[], rfl⟩, moves.row, isPad, fits, ?_, ?_⟩, behind,
      Layout.cursor_behind _ _, ranRest⟩
    · intro lexemes
      rw [scan_unmarked unmarked]
      exact written _ lexemes
    · intro isMarker
      refine ⟨rfl, ?_⟩
      obtain ⟨name, rfl⟩ := stage.marked isMarker
      rw [pad_eq_nil_iff moves.ahead (.inr (stage.quiet (by simp [isMarker])))]
      constructor
      · intro directly
        rw [← (kind_step _ _).2.2.1, directly]
        exact stage.aligned.row
      · exact moves.behind name rfl
  · obtain ⟨fresh, isCode, blocks, settled, others, settles, rfl, ranRest⟩ := first
    rw [Layout.atLineStart_cross] at fresh
    have notBreak : lexeme.kind ≠ .lineBreak := by
      intro lineBreak
      rw [lineBreak] at isCode
      cases isCode
    have rowStart : before = .rowStart := by
      rcases ahead.rowStart isGap fresh (fun other member => by cases member; exact notBreak) with
        rowStart | ⟨_, _, impossible⟩
      · exact rowStart
      · cases impossible
    subst rowStart
    obtain ⟨behind, isPad, written, scanned⟩ := stage.first isGap isCode fresh settles rfl
    refine ⟨_, others, _, none, _, _, ⟨rfl, hasToken, ⟨blocks, rfl⟩, nofun, isPad, ?_, ?_, nofun⟩,
      behind, ?_, ranRest⟩
    · intro lineBreak
      exact absurd lineBreak notBreak
    · intro lexemes
      rw [scanned marker previous others unmarked]
      exact written _ lexemes
    · rw [Layout.cursor_behind, Layout.tokenFor_settle settles]

theorem lineBreak_of_comment (reads : Lexeme.Reads (lexeme :: rest))
    (comment : lexeme.kind = .comment) : ∀ next ∈ rest.head?, next.kind = .lineBreak := by
  obtain ⟨nonempty, read, readsRest⟩ := reads
  rw [comment, Lexeme.first_comment_iff nonempty] at read
  intro next member
  obtain ⟨others, rfl⟩ := List.head?_eq_some_iff.1 member
  have lineEnd : (Lexeme.textOf (next :: others)).head?.any Lexeme.isLineEnd = true := by
    obtain ⟨c, more, split⟩ := List.exists_cons_of_ne_nil readsRest.1
    have ends := read.2.2
    rw [Lexeme.textOf_cons, split] at ends ⊢
    simpa using ends
  by_contra other
  by_cases gap : next.kind = .space ∨ next.kind = .continuation
  · obtain ⟨c, more, split, _, noLineEnd⟩ := (Lexeme.isGap_of_reads readsRest gap).head
    rw [Lexeme.textOf_cons, split] at lineEnd
    simp [noLineEnd] at lineEnd
  · rw [not_or] at gap
    rw [(Lexeme.head_of_reads readsRest gap.1 gap.2).2 other] at lineEnd
    cases lineEnd

private theorem Chunk.ahead {token : Token} {others : List Token} {next : Layout}
    {shift : Option Shift}
    {entered : SourceText} {pad : List Lexeme}
    (chunk : Chunk marker before phase layout pending writer previous gap lexeme tokens token others
      shift entered pad)
    (stage : Stage (.ofKind lexeme.kind) (phase.after lexeme) next (.moved shift) entered)
    (cursor : next.cursor = token.behind) (reads : Lexeme.Reads (lexeme :: rest))
    (single : lexeme = Lexeme.equals → rest.head? ≠ some Lexeme.greater) :
    Ahead (.ofKind lexeme.kind) next (some token) rest := by
  constructor
  · intro fresh
    rw [stage.inPhase.fresh] at fresh
    obtain ⟨kind, text⟩ := lexeme
    cases kind with
    | lineBreak => exact .inl rfl
    | comment => exact .inr ⟨rfl, lineBreak_of_comment reads rfl⟩
    | space | continuation | string | openQuote | number | name | operator | stray => cases fresh
  · intro eq isToken isEquals
    cases isToken
    have isToken := chunk.isToken
    rw [isToken] at isEquals
    have isLexeme := Layout.eq_of_isOp isEquals
    refine ⟨?_, single isLexeme⟩
    have noBreak : token.isBreak = false := by
      rw [isToken, Layout.isBreak_tokenFor, isLexeme]
      rfl
    rw [cursor, Token.behind, noBreak]
    rfl

/-- What is written for the `>` of a sigil: the marker, one space behind the `=`. -/
private theorem Stage.greater {shift : Option Shift}
    (stage : Stage .lexeme phase layout (.moved shift) writer) (within : phase.fresh = false)
    (here : ∀ move, shift = some move → move.row = layout.cursor.row)
    (ran : layout.run (Lexeme.greater :: rest) = .ok tokens) (marker : String) :
    ∃ gt others name, tokens = gt :: others ∧ gt = layout.tokenFor Lexeme.greater ∧
      name = markerAt marker gt ((shift.map Shift.delta).getD 0) ∧
      (layout.behind Lexeme.greater).run rest = .ok others ∧
      Stage .marker (phase.after Lexeme.greater) (layout.behind Lexeme.greater) (.behind name)
        (writer.after name) ∧
      ∀ rest lexemes, Written (phase.after Lexeme.greater) (writer.after name) rest lexemes →
        Written phase writer (name :: rest)
          (⟨.space, [' ']⟩ :: ⟨.name, marker.toList⟩ :: lexemes) := by
  obtain ⟨_, ⟨_, others, rfl, ranRest⟩ | ⟨fresh, _⟩⟩ :=
    Layout.run_cons_eq_ok (by simp [Lexeme.greater]) (by simp [Lexeme.greater]) ran
  case inr =>
    rw [stage.inPhase.fresh, within] at fresh
    cases fresh
  have start := layout.start_tokenFor Lexeme.greater
  obtain ⟨nameStart, nameStop, aligned⟩ := stage.aligned.marks here start rfl marker
  generalize isName : markerAt marker (layout.tokenFor Lexeme.greater)
    ((shift.map Shift.delta).getD 0) = name at nameStart nameStop aligned
  have kind : name.kind = .name := by rw [← isName]; rfl
  have noBreak : name.isBreak = false := by simp [Token.isBreak, kind]
  have behind : name.behind = name.stop := by simp [Token.behind, noBreak]
  refine ⟨_, others, name, rfl, rfl, isName.symm, ranRest, ?_, ?_⟩
  · refine ⟨stage.inPhase.behind [] layout.blocks Lexeme.greater, by simp [Phase.after, Lexeme.greater],
      ?_, fun notMarker => absurd rfl notMarker, fun _ => ⟨name, rfl⟩, by rintro ⟨⟩, ?_, ?_, ?_, ?_⟩
    · rw [Layout.cursor_behind, SourceText.last_after, behind]
      exact aligned
    · exact fun _ => SourceText.quiet_after noBreak writer
    · rw [SourceText.indents_after, Layout.blocks_behind]
      exact stage.widths
    · rw [SourceText.indents_after]
      exact stage.spaces
    · exact margin_behind layout _ stage.margin
  · intro rest lexemes written
    have pad : writer.pad name = [⟨.space, [' ']⟩] := by
      rw [SourceText.pad_of_quiet (.inr (stage.quiet (by simp))), nameStart]
      simp [Lexeme.padBetween, Lexeme.padOf, Lexeme.spaceOf, Position.right]
    have ahead : writer.last ≤ name.start := by
      rw [nameStart]
      exact .inr ⟨rfl, Nat.le_add_right _ _⟩
    have text : name.text = String.ofList marker.toList := by
      rw [← isName, String.ofList_toList]
      rfl
    have sameAfter : phase.after ⟨.name, marker.toList⟩ = phase.after Lexeme.greater := rfl
    rw [← sameAfter] at written
    have spans : name.Spans := by
      intro comma
      rw [Token.isOp, kind] at comma
      cases comma
    have written' := Written.token rfl (by simp [within]) kind text spans ahead written
    rwa [pad] at written'

section Marker

variable (identifier : Text.Identifier.isIdentifier marker.toList = true)
include identifier

private theorem first_marker_pad {pad : List Lexeme} (isPad : Lexeme.Pad pad) {text : List Char}
    (apart : pad = [] → text = []) :
    Lexeme.first (marker.toList ++ (Lexeme.textOf pad ++ text)) =
      (.name, marker.toList.length) := by
  apply Lexeme.first_of_isIdentifier identifier
  intro c member
  cases pad with
  | nil =>
    rw [apart rfl] at member
    cases member
  | cons lexeme more =>
    obtain ⟨d, others, split, blank, _⟩ := isPad.1.head
    rw [Lexeme.textOf_cons, split] at member
    cases member
    rcases Lexeme.blank_cases blank with rfl | rfl | rfl | rfl | rfl | rfl <;> exact ⟨rfl, rfl⟩

private theorem Chunk.first_marker {token : Token} {others : List Token} {shift : Option Shift}
    {entered : SourceText} {pad : List Lexeme}
    (chunk : Chunk marker .marker phase layout pending writer previous gap lexeme tokens token
      others shift entered pad)
    (nonempty : lexeme.text ≠ [])
    (clear : ∀ next ∈ tokens.head?, next.start.row = layout.cursor.row → Clear marker next)
    (lexemes : List Lexeme) :
    Lexeme.first (marker.toList ++ Lexeme.textOf (pad ++ lexeme :: lexemes)) =
      (.name, marker.toList.length) := by
  obtain ⟨rfl, empty⟩ := chunk.close rfl
  rw [Lexeme.textOf_append]
  by_cases apart : pad = []
  · obtain ⟨c, more, split⟩ := List.exists_cons_of_ne_nil nonempty
    have text : token.text.toList = c :: more := by
      rw [chunk.isToken, Layout.text_tokenFor, String.toList_ofList, split]
    rw [apart, Lexeme.textOf_cons, split]
    exact clear token rfl (empty.1 apart) c more text _
  · exact first_marker_pad identifier chunk.isPad fun none => absurd none apart

end Marker

/-- The lexemes that are written copy those that have been read, and the marker in front of them is
a name of its own. -/
def Copies (marker : String) (before : Before) (layout : Layout) (lexemes : List Lexeme)
    (tokens : List Token) (written : List Lexeme) : Prop :=
  Text.Identifier.isIdentifier marker.toList = true → Clears marker tokens →
  (before = .marker → ∀ next ∈ tokens.head?, next.start.row = layout.cursor.row →
    Clear marker next) →
  Lexeme.Copy marker.toList before lexemes written ∧
    (before = .marker → Lexeme.first (marker.toList ++ Lexeme.textOf written) =
      (.name, marker.toList.length))

private theorem Stage.writes {lexemes : List Lexeme} (grouped : Lexeme.Grouped lexemes)
    (stage : Stage before phase layout pending writer)
    (ahead : Ahead before layout previous lexemes) (reads : Lexeme.Reads lexemes)
    (ran : layout.run lexemes = .ok tokens) :
    ∃ written, Written phase writer (scan marker previous pending tokens) written ∧
      Copies marker before layout lexemes tokens written ∧
      (Lexeme.Finished lexemes → Lexeme.Finished written) := by
  induction grouped generalizing before phase layout pending writer previous tokens with
  | @ended gap isGap =>
    obtain ⟨pad, isPad, fits, written, finished⟩ := stage.ended ahead isGap ran marker
    refine ⟨pad, written, fun identifier _ _ => ⟨.ended isGap isPad fits, fun _ => ?_⟩, finished⟩
    have alone : Lexeme.first (marker.toList ++ (Lexeme.textOf pad ++ [])) = _ :=
      first_marker_pad identifier isPad fun _ => rfl
    rwa [List.append_nil] at alone
  | @lexeme gap lexeme rest isGap space continuation single _ ih =>
    obtain ⟨token, others, next, shift, entered, pad, chunk, behind, cursor, ranRest⟩ :=
      stage.chunk ahead isGap space continuation ran marker
    have readsLexeme := reads.drop
    obtain ⟨copied, written, copies, finished⟩ := ih behind
      (chunk.ahead behind cursor readsLexeme single) readsLexeme.2.2 ranRest
    refine ⟨pad ++ lexeme :: copied, chunk.written copied written, ?_, fun finishedAll =>
      Lexeme.finished_append_cons.2 ⟨fun _ => continuation,
        finished (Lexeme.finished_append_cons.1 finishedAll).2⟩⟩
    intro identifier clears clear
    obtain ⟨front, rfl⟩ := chunk.split
    have notMarker : Before.ofKind lexeme.kind ≠ .marker := by
      unfold Before.ofKind
      split <;> simp
    have notOpen : lexeme.kind ≠ .openQuote := by
      intro openQuote
      have hasToken := chunk.hasToken
      rw [openQuote] at hasToken
      cases hasToken
    rw [List.append_cons] at clears
    have copy := (copies identifier clears.drop fun marker => absurd marker notMarker).1
    refine ⟨.same isGap chunk.isPad chunk.fits space continuation notOpen copy, ?_⟩
    rintro rfl
    exact chunk.first_marker identifier readsLexeme.1 (clear rfl) copied
  | @sigil gap rest isGap _ ih =>
    obtain ⟨eq, others, next, shift, entered, pad, chunk, behind, cursor, ranRest⟩ :=
      stage.chunk ahead isGap (by simp [Lexeme.equals]) (by simp [Lexeme.equals]) ran marker
    have stop : next.cursor = eq.stop := by rw [cursor, chunk.isToken]; rfl
    have here : next.cursor.row = eq.start.row := by rw [cursor, chunk.isToken]; rfl
    obtain ⟨gt, others, name, rfl, isGreater, isName, ranRest, marked, written⟩ :=
      behind.greater rfl (fun move found => by rw [chunk.row move found, here]) ranRest marker
    have start : gt.start = eq.stop := by rw [isGreater, Layout.start_tokenFor, stop]
    have sigil : isSigil eq gt = true := by
      rw [isSigil, start, chunk.isToken, isGreater, Layout.isOp_tokenFor, Layout.isOp_tokenFor,
        beq_self_eq_true]
      rfl
    have aheadRest : Ahead .marker (next.behind Lexeme.greater) (some gt) rest := by
      constructor
      · intro fresh
        cases fresh
      · intro other isGt isEquals
        cases isGt
        rw [isGreater, Layout.isOp_tokenFor] at isEquals
        cases isEquals
    have readsSigil := reads.drop
    obtain ⟨copied, writtenRest, copies, finished⟩ := ih marked aheadRest readsSigil.2.2.2.2 ranRest
    refine ⟨pad ++ Lexeme.equals :: ⟨.space, [' ']⟩ :: ⟨.name, marker.toList⟩ :: copied, ?_, ?_, ?_⟩
    · apply chunk.written
      have marks : scan marker (some eq) (.moved shift) (gt :: others) =
          name :: scan marker (some gt) (.behind name) others := by
        have isMarked : isMarked (some eq) gt = true := sigil
        rw [isName]
        simp only [scan, isMarked, if_true]
        rfl
      rw [marks]
      exact written _ copied writtenRest
    · intro identifier clears clear
      obtain ⟨front, rfl⟩ := chunk.split
      have behindMarker : ∀ token ∈ others.head?,
          token.start.row = (next.behind Lexeme.greater).cursor.row → Clear marker token := by
        intro token member row
        obtain ⟨back, rfl⟩ := List.head?_eq_some_iff.1 member
        apply clears front eq gt token back rfl sigil
        rw [row, Layout.cursor_behind, isGreater]
        rfl
      have split : front ++ eq :: gt :: others = (front ++ [eq, gt]) ++ others := by simp
      rw [split] at clears
      obtain ⟨copy, readMarker⟩ := copies identifier clears.drop fun _ => behindMarker
      refine ⟨.sigil isGap chunk.isPad chunk.fits (readMarker rfl) copy, ?_⟩
      rintro rfl
      exact chunk.first_marker identifier readsSigil.1 (clear rfl) _
    · intro finishedAll
      rw [List.append_cons, Lexeme.finished_append_cons] at finishedAll
      rw [List.append_cons, List.append_cons, Lexeme.finished_append_cons]
      exact ⟨by simp, finished finishedAll.2⟩

theorem stage_initial : Stage .rowStart {} {} (.moved none) {} where
  inPhase := ⟨rfl, rfl, rfl, fun _ => rfl, fun _ _ => rfl⟩
  rowStart := ⟨fun _ => rfl, fun _ => rfl⟩
  aligned := ⟨rfl, rfl⟩
  moved := fun _ => ⟨none, rfl⟩
  marked := nofun
  resting := nofun
  quiet := fun within => absurd rfl within
  widths := rfl
  spaces := nofun
  margin := rfl

/-- The text with its sigils marked is written, and if the marker stays a name of its own, the text
falls into the lexemes that have been written. -/
theorem written_mark {source : String} (tokenized : tokenize source = .ok tokens)
    (marker : String) :
    ∃ written, Written {} {} (mark marker tokens) written ∧
      (Text.Identifier.isIdentifier marker.toList = true → Clears marker tokens →
        Lexeme.split (Lexeme.textOf written) = written) ∧
      (Lexeme.Finished (Lexeme.split source.toList) → Lexeme.Finished written) := by
  have reads := Lexeme.reads_split source.toList
  have ahead : Ahead .rowStart {} none (Lexeme.split source.toList) := ⟨fun _ => .inl rfl, nofun⟩
  obtain ⟨written, isWritten, copies, finished⟩ :=
    stage_initial.writes (Lexeme.grouped_of_reads reads) ahead reads tokenized
  refine ⟨written, by rwa [mark_eq_scan], ?_, finished⟩
  intro identifier clears
  obtain ⟨copy, _⟩ := copies identifier clears nofun
  apply copy.split_textOf ?_ ?_ reads
  · intro empty
    rw [empty] at identifier
    cases identifier
  · intro c member
    exact Text.Identifier.plain_of_isInner
      (Text.Identifier.isInner_of_isIdentifier identifier c member)

end Sigil

end DeferredDefaults
