import DeferredDefaults.Proofs.Token.Relaying

/-!
Reading back what has been written at the same places. Where lines are indented by blanks alone and
none begins behind a continuation, the place of every token follows from those before it: the first
token of a logical line stands at the width of its block, and a token ends where its text does.
Tokens that are placed like this are written and read back unchanged.
-/

set_option autoImplicit false
set_option relaxedAutoImplicit false

namespace DeferredDefaults

def blanks (count : Nat) : String := String.ofList (List.replicate count ' ')

@[simp] theorem toList_blanks (count : Nat) : (blanks count).toList = List.replicate count ' ' :=
  String.toList_ofList

/-- The token ends where its text does. A line break stays on its row and takes a column even if it
has no text. -/
def Token.Fills (token : Token) : Prop :=
  token.stop = if token.isBreak then token.start.right (max 1 token.text.toList.length)
    else token.start.advance token.text.toList

/-- Tokens stand where they would in a text that is indented by blanks and begins no line behind a
continuation. `columns` are the widths of the open blocks and `last` is the place behind the last
token. -/
def Placed : (fresh : Bool) → (columns : List Nat) → (last : Position) → List Token → Prop
  | _, _, _, [] => True
  | fresh, columns, last, token :: rest => match token.kind with
    | .endMarker => fresh = true ∧ token.start = ⟨last.row, 0⟩ ∧ token.stop = token.start ∧ rest = []
    | .indent => fresh = true ∧ token.text = blanks token.stop.col ∧
      token.start = ⟨last.row, 0⟩ ∧ token.stop.row = last.row ∧
      (∀ next ∈ rest.head?, next.start = token.stop) ∧
      Placed fresh (token.stop.col :: columns) last rest
    | .dedent => fresh = true ∧ token.stop.row = last.row ∧ token.start = token.stop ∧
      (∀ next ∈ rest.head?, next.start = token.stop) ∧ Placed fresh columns.tail last rest
    | _ => token.Fills ∧ last ≤ token.start ∧ (fresh = true → token.start.row = last.row) ∧
      (fresh = true → token.isSignificant = true → token.start.col = columns.headD 0) ∧
      Placed ((fresh && !token.isSignificant) || token.kind == .newline) columns token.behind rest

theorem placed_token {token : Token} (noLayout : token.isLayout = false) {fresh : Bool}
    {columns : List Nat} {last : Position} {rest : List Token} :
    Placed fresh columns last (token :: rest) ↔ token.Fills ∧ last ≤ token.start ∧
      (fresh = true → token.start.row = last.row) ∧
      (fresh = true → token.isSignificant = true → token.start.col = columns.headD 0) ∧
      Placed ((fresh && !token.isSignificant) || token.kind == .newline) columns token.behind
        rest := by
  rw [Placed]
  cases kind : token.kind <;> simp_all [Token.isLayout]

theorem placed_dedents {place last : Position} (row : place.row = last.row) {columns : List Nat}
    {count : Nat} {rest : List Token} (next : ∀ token ∈ rest.head?, token.start = place)
    (placed : Placed true (columns.drop count) last rest) :
    Placed true columns last (List.replicate count (Layout.dedentAt place) ++ rest) := by
  induction count generalizing columns with
  | zero => exact placed
  | succ count ih =>
    have others : Placed true (columns.tail.drop count) last rest := by
      rwa [List.drop_tail]
    refine ⟨rfl, row, rfl, ?_, ih others⟩
    cases count with
    | zero => exact next
    | succ count =>
      rintro token ⟨⟩
      rfl

private theorem dedents_of_placed {fresh : Bool} {columns : List Nat} {last : Position}
    {blocks : List Token} (dedents : ∀ block ∈ blocks, block.kind = .dedent ∧ block.text = "")
    {token : Token} {rest : List Token}
    (placed : Placed fresh columns last (blocks ++ token :: rest)) :
    blocks = List.replicate blocks.length (Layout.dedentAt token.start) ∧
      Placed fresh (columns.drop blocks.length) last (token :: rest) := by
  induction blocks generalizing columns with
  | nil => exact ⟨rfl, placed⟩
  | cons block others ih =>
    rw [List.forall_mem_cons] at dedents
    obtain ⟨⟨kind, text⟩, otherDedents⟩ := dedents
    rw [List.cons_append, Placed, kind] at placed
    obtain ⟨isFresh, row, start, next, placed⟩ := placed
    obtain ⟨same, inner⟩ := ih otherDedents placed
    rw [List.drop_tail] at inner
    refine ⟨?_, inner⟩
    have place : token.start = block.stop := by
      cases others with
      | nil => exact next token rfl
      | cons second others =>
        rw [List.length_cons, List.replicate_succ, List.cons.injEq] at same
        have here := next second rfl
        rw [same.1] at here
        exact here
    rw [List.length_cons, List.replicate_succ, ← same, place, List.cons.injEq]
    refine ⟨?_, rfl⟩
    obtain ⟨kind', text', start', stop'⟩ := block
    simp only at kind text start
    rw [kind, text, start]
    rfl

namespace Layout

@[simp] theorem width_blanks (count : Nat) : width (List.replicate count ' ') = count := by
  have add : ∀ start : Nat, (List.replicate count ' ').foldl (fun width c =>
      if c = '\t' then (width / 8 + 1) * 8 else if c = '\x0c' then 0 else width + 1) start =
        start + count := by
    induction count with
    | zero => intro start; rfl
    | succ count ih =>
      intro start
      rw [List.replicate_succ, List.foldl_cons, ih]
      have blank : ¬ ' ' = '\t' ∧ ¬ ' ' = '\x0c' := by decide
      simp only [blank.1, blank.2, if_false]
      omega
  rw [width, add, Nat.zero_add]

theorem fills_tokenFor (layout : Layout) {lexeme : Lexeme} (filled : lexeme.text ≠ []) :
    (layout.tokenFor lexeme).Fills := by
  have long : 1 ≤ lexeme.text.length := by
    cases text : lexeme.text with
    | nil => exact absurd text filled
    | cons c rest => simp
  unfold Token.Fills
  rw [isBreak_tokenFor, text_tokenFor, String.toList_ofList, start_tokenFor]
  obtain ⟨kind, text⟩ := lexeme
  cases kind with
  | lineBreak =>
    simp only [beq_self_eq_true, if_true]
    rw [Nat.max_eq_right long]
    rfl
  | _ => rfl

theorem cross_blanks {layout : Layout} (fresh : layout.atLineStart = true)
    (rowStart : layout.cursor.col = 0) (noMargin : layout.margin = []) (count : Nat) :
    layout.cross (Lexeme.spaceOf (List.replicate count ' ')) =
      { layout with
        margin := List.replicate count ' '
        cursor := layout.cursor.right count } := by
  rw [cross_spaceOf, fresh, rowStart, noMargin, List.length_replicate]
  cases count <;> rfl

theorem width_blanks_columns (columns : List Nat) :
    (columns.map blanks).map (fun indent => width indent.toList) = columns := by
  rw [List.map_map]
  refine List.map_id'' (fun column => ?_) columns
  simp

theorem settle_of_deeper {layout : Layout} (deeper : layout.top < width layout.margin) :
    layout.settle =
      .ok ([layout.opening], { layout with blocks := width layout.margin :: layout.blocks }) := by
  rw [settle, if_pos deeper]
  rfl

end Layout

namespace SourceText

variable {writer : SourceText} {token : Token} {layout : Layout} {columns : List Nat}

theorem allSpace_blanks (indents : writer.indents = columns.map blanks) :
    ∀ indent ∈ writer.indents, indent.toList.all Lexeme.isSpace = true := by
  intro indent member
  rw [indents, List.mem_map] at member
  obtain ⟨column, -, rfl⟩ := member
  simp [Lexeme.isSpace]

private theorem cursor_cross_pad_eq (synced : layout.cursor = writer.last)
    (rowStart : writer.lineStart = true → writer.indents ≠ [] → writer.last.col = 0)
    (ahead : writer.last ≤ token.start) :
    (layout.cross (writer.pad token)).cursor = token.start := by
  obtain ⟨kind, text, ⟨row, col⟩, stop⟩ := token
  have reaches : ∀ (indent : List Char) (column : Nat), writer.last.col + indent.length = column →
      (writer.last.row = row → column ≤ col) → (layout.cross
        (Lexeme.padBetween indent ⟨writer.last.row, column⟩ ⟨row, col⟩)).cursor = ⟨row, col⟩ := by
    intro indent column start within
    have rows : writer.last.row ≤ row := by
      rw [Position.le_iff] at ahead
      simp only at ahead
      omega
    rw [Lexeme.padBetween, Layout.cursor_cross_padOf, synced]
    simp only
    split
    · next none =>
      rw [if_neg (by omega), Position.right, Position.ext_iff']
      simp only
      have here := within (by omega)
      omega
    · next some =>
      rw [if_pos (by omega), Position.ext_iff']
      refine ⟨?_, rfl⟩
      show writer.last.row + (row - writer.last.row) = row
      omega
  rw [pad, indentFor, reached]
  split
  · refine reaches [] writer.last.col rfl ?_
    rw [Position.le_iff] at ahead
    simp only at ahead
    omega
  · rcases writer.lead_cases ⟨kind, text, ⟨row, col⟩, stop⟩ with
      ⟨indent, rest, begins, indents, within, lead, led⟩ | ⟨-, lead, led, -⟩
    · have start := rowStart begins (by simp [indents])
      rw [lead, led]
      exact reaches indent.toList indent.toList.length (by omega) fun _ => within
    · rw [lead, led]
      refine reaches [] writer.last.col rfl ?_
      rw [Position.le_iff] at ahead
      simp only at ahead
      omega

/-- In front of the first token of a line stand the blanks of its block. -/
theorem pad_first (indents : writer.indents = columns.map blanks)
    (begins : writer.lineStart = true ∨ writer.last.col = 0)
    (row : token.start.row = writer.last.row) (col : token.start.col = columns.headD 0)
    (noBreak : token.isBreak = false) :
    writer.pad token = Lexeme.spaceOf (List.replicate token.start.col ' ') := by
  cases columns with
  | nil =>
    have none : writer.lead token = ([], writer) := by
      rw [List.map_nil] at indents
      simp [lead, indents]
    rw [pad, indentFor, reached, noBreak, none]
    simp [Lexeme.padBetween, Lexeme.padOf, row, col]
  | cons column others =>
    rw [List.map_cons] at indents
    rw [List.headD_cons] at col
    cases lineStart : writer.lineStart with
    | true =>
      have led : writer.lead token = (List.replicate column ' ',
          { writer with lineStart := false, last := ⟨writer.last.row, column⟩ }) := by
        simp [lead, lineStart, indents, col]
      rw [pad, indentFor, reached, noBreak, led]
      simp [Lexeme.padBetween, Lexeme.padOf, row, col]
    | false =>
      have none : writer.lead token = ([], writer) := by simp [lead, lineStart]
      have start := begins.resolve_left (by simp [lineStart])
      rw [pad, indentFor, reached, noBreak, none]
      simp [Lexeme.padBetween, Lexeme.padOf, row, start]

end SourceText

private theorem Token.eq_of_fills {token other : Token} (kind : token.kind = other.kind)
    (text : token.text = other.text) (start : token.start = other.start) (fills : token.Fills)
    (otherFills : other.Fills) : token = other := by
  have stop : token.stop = other.stop := by
    rw [fills, otherFills, Token.isBreak, Token.isBreak, kind, text, start]
  obtain ⟨_, _, _, _⟩ := token
  obtain ⟨_, _, _, _⟩ := other
  simp only at kind text start stop
  rw [kind, text, start, stop]

/-- Layout reads what has been written, at the same place and with blanks for indentation. -/
structure Synced (phase : Phase) (writer : SourceText) (columns : List Nat) (layout : Layout) :
    Prop where
  relay : Relay phase writer layout
  cursor : layout.cursor = writer.last
  indents : writer.indents = columns.map blanks
  lineStart : phase.rowStart = true → writer.lineStart = true ∨ writer.indents = []

namespace Synced

variable {phase : Phase} {writer : SourceText} {columns : List Nat} {layout : Layout}

private theorem blocks_eq (synced : Synced phase writer columns layout) :
    layout.blocks = columns := by
  rw [← synced.relay.widths, synced.indents, Layout.width_blanks_columns]

private theorem cursor_pad (synced : Synced phase writer columns layout) {token : Token}
    (ahead : writer.last ≤ token.start) :
    (layout.cross (writer.pad token)).cursor = token.start := by
  refine SourceText.cursor_cross_pad_eq synced.cursor ?_ ahead
  intro lineStart indents
  refine synced.relay.rowStart ?_
  cases rowStart : phase.rowStart with
  | true => rfl
  | false =>
    rcases synced.relay.quiet rowStart with quiet | none
    · rw [quiet] at lineStart
      cases lineStart
    · exact absurd none indents

theorem after {lexeme : Lexeme} {token : Token} {entered : SourceText} {behind : Layout}
    (relay : Relay (phase.after lexeme) (entered.after token) behind)
    (cursor : behind.cursor = token.behind) (indents : entered.indents = columns.map blanks)
    (hasToken : lexeme.kind.hasToken = true) (kind : token.kind = phase.kindOf lexeme.kind) :
    Synced (phase.after lexeme) (entered.after token) columns behind where
  relay := relay
  cursor := by rw [cursor, SourceText.last_after]
  indents := by rw [SourceText.indents_after, indents]
  lineStart := by
    intro rowStart
    have isBreak : token.isBreak = true := by
      rw [(Phase.traits hasToken kind).2.2.1, beq_iff_eq]
      exact (phase.rowStart_after lexeme).1 rowStart
    rw [SourceText.after, if_pos isBreak]
    exact .inl rfl

/-- The layout in front of the first token of a line: at its place, behind the blanks of its
block. -/
private theorem cross_first (synced : Synced phase writer columns layout)
    (fresh : phase.fresh = true) (rowStart : phase.rowStart = true) {entered : SourceText}
    {inner : List Nat} {token : Token} (indents : entered.indents = inner.map blanks)
    (begins : entered.lineStart = true ∨ entered.last.col = 0)
    (row : token.start.row = writer.last.row) (enteredRow : entered.last.row = writer.last.row)
    (col : token.start.col = inner.headD 0) (noBreak : token.isBreak = false) :
    layout.cross (entered.pad token) =
      { layout with
        margin := List.replicate token.start.col ' '
        cursor := token.start } := by
  have inPhase := synced.relay.inPhase
  rw [SourceText.pad_first indents begins (row.trans enteredRow.symm) col noBreak,
    Layout.cross_blanks (inPhase.fresh.trans fresh) (inPhase.col rowStart)
      (inPhase.margin rowStart fresh)]
  have place : layout.cursor.right token.start.col = token.start := by
    have start := synced.relay.rowStart rowStart
    rw [synced.cursor, Position.right, Position.ext_iff']
    simp only
    omega
  rw [place]

private theorem reads_first (synced : Synced phase writer columns layout) {lexeme : Lexeme}
    {token : Token}
    (isCode : lexeme.kind.isCode = true) (fresh : phase.fresh = true)
    (kind : token.kind = phase.kindOf lexeme.kind) (text : token.text = String.ofList lexeme.text)
    (fills : token.Fills) (filled : lexeme.text ≠ []) {entered : SourceText} {inner : List Nat}
    (indents : entered.indents = inner.map blanks)
    (start : (layout.cross (entered.pad token)).cursor = token.start) {blocks : List Token}
    (settles : (layout.cross (entered.pad token)).settle =
      .ok (blocks, { layout.cross (entered.pad token) with blocks := inner }))
    (rest : List Lexeme) :
    ∃ behind, Synced (phase.after lexeme) (entered.after token) inner behind ∧
      layout.run (entered.pad token ++ lexeme :: rest) =
        (behind.run rest).map (blocks ++ token :: ·) := by
  have hasToken : lexeme.kind.hasToken = true := by simp [Lexeme.Kind.hasToken, isCode]
  have widths : entered.indents.map (fun indent => Layout.width indent.toList) = inner := by
    rw [indents, Layout.width_blanks_columns]
  obtain ⟨other, behind, same, isOther, cursor, next, ran⟩ :=
    synced.relay.readsBack_first isCode fresh kind text widths
      (SourceText.allSpace_blanks indents) settles rest
  have isToken : token = other := by
    refine Token.eq_of_fills same.1 same.2 ?_ fills ?_
    · rw [isOther, Layout.start_tokenFor, start]
    · rw [isOther]
      exact Layout.fills_tokenFor _ filled
  rw [← isToken] at cursor ran
  exact ⟨behind, Synced.after next cursor indents hasToken kind, ran⟩

end Synced

private theorem Layout.closing_of_placed {layout : Layout} {place : Position} {blocks : List Token}
    {stop : Token} {columns : List Nat} {last : Position}
    (dedents : ∀ block ∈ blocks, block.kind = .dedent ∧ block.text = "")
    (size : blocks.length = layout.blocks.length) (isStop : stop.kind = .endMarker)
    (noText : stop.text = "") (placed : Placed true columns last (blocks ++ [stop]))
    (row : place = ⟨last.row, 0⟩) :
    layout.blocks.map (fun _ => dedentAt place) ++ [⟨.endMarker, "", place, place⟩] =
      blocks ++ [stop] := by
  obtain ⟨isBlocks, placed⟩ := dedents_of_placed dedents placed
  rw [Placed, isStop] at placed
  obtain ⟨-, start, ends, -⟩ := placed
  have isEnd : stop = ⟨.endMarker, "", place, place⟩ := by
    obtain ⟨kind, text, first, final⟩ := stop
    simp only at isStop noText start ends
    rw [isStop, noText, ends, start, row]
  have here : stop.start = place := start.trans row.symm
  rw [here] at isBlocks
  rw [List.map_const', ← size, ← isBlocks, isEnd]

/-- Tokens that are placed are written and read back unchanged. -/
theorem Written.run_placed {phase : Phase} {writer : SourceText} {tokens : List Token}
    {lexemes : List Lexeme} (written : Written phase writer tokens lexemes) {layout : Layout}
    {columns : List Nat} (synced : Synced phase writer columns layout)
    (filled : ∀ lexeme ∈ lexemes, lexeme.text ≠ [])
    (placed : Placed phase.fresh columns writer.last tokens) :
    layout.run lexemes = .ok tokens := by
  induction written generalizing layout columns with
  | @token phase writer lexeme token rest lexemes hasToken notFirst kind text spans ahead _ ih =>
    obtain ⟨noLayout, significant, -, fresh⟩ := Phase.traits hasToken kind
    rw [placed_token noLayout, ← fresh] at placed
    obtain ⟨fills, -, -, -, placed⟩ := placed
    obtain ⟨other, behind, same, isOther, cursor, next, ran⟩ :=
      synced.relay.readsBack hasToken notFirst kind text lexemes
    rw [List.forall_mem_append, List.forall_mem_cons] at filled
    have isToken : token = other := by
      refine Token.eq_of_fills same.1 same.2 ?_ fills ?_
      · rw [isOther, Layout.start_tokenFor, synced.cursor_pad ahead]
      · rw [isOther]
        exact Layout.fills_tokenFor _ filled.2.1
    rw [← SourceText.last_after writer token] at placed
    rw [ran, ih (Synced.after next (isToken ▸ cursor) synced.indents hasToken kind) filled.2.2 placed,
      isToken]
    rfl
  | @first phase writer blocks lexeme token rest lexemes isCode fresh rowStart dedents within narrower
      kind text spans ahead _ ih =>
    have hasToken : lexeme.kind.hasToken = true := by simp [Lexeme.Kind.hasToken, isCode]
    obtain ⟨noLayout, significant, isBreak, freshAfter⟩ := Phase.traits hasToken kind
    have noBreak : token.isBreak = false := by
      rw [isBreak]
      cases found : lexeme.kind <;> simp_all [Lexeme.Kind.isCode]
    obtain ⟨isBlocks, placed⟩ := dedents_of_placed
      (fun block member => ⟨(dedents block member).1, (dedents block member).2.1⟩) placed
    rw [placed_token noLayout, ← freshAfter] at placed
    obtain ⟨fills, -, row, col, placed⟩ := placed
    have entered := SourceText.foldl_enter_dedents
      (fun block member => ⟨(dedents block member).1, (dedents block member).2.2⟩) writer
    have indents : (blocks.foldl SourceText.enter writer).indents =
        (columns.drop blocks.length).map blanks := by
      rw [entered, List.map_drop, ← synced.indents]
    have begins : (blocks.foldl SourceText.enter writer).lineStart = true ∨
        (blocks.foldl SourceText.enter writer).last.col = 0 := by
      rw [entered]
      cases blocks with
      | nil => exact .inr (synced.relay.rowStart rowStart)
      | cons block others =>
        refine .inl ((synced.lineStart rowStart).resolve_right ?_)
        rintro none
        simp [none] at within
    have enteredRow : (blocks.foldl SourceText.enter writer).last.row = writer.last.row := by
      rw [entered]
      simp only
      split
      · rfl
      · exact row fresh
    have crossed := synced.cross_first fresh rowStart indents begins (row fresh) enteredRow
      (col fresh (significant.trans isCode)) noBreak
    have settles : (layout.cross ((blocks.foldl SourceText.enter writer).pad token)).settle =
        .ok (blocks, { layout.cross ((blocks.foldl SourceText.enter writer).pad token) with
          blocks := columns.drop blocks.length }) := by
      have widths : writer.indents.map (fun indent => Layout.width indent.toList) =
          (layout.cross ((blocks.foldl SourceText.enter writer).pad token)).blocks := by
        rw [Layout.blocks_cross, synced.relay.widths]
      rw [Layout.settle_of_width widths narrower ?_ within, synced.indents, ← List.map_drop,
        Layout.width_blanks_columns, crossed, ← isBlocks]
      rw [crossed, Layout.width_blanks, SourceText.width_headD, synced.indents, ← List.map_drop,
        Layout.width_blanks_columns]
      exact col fresh (significant.trans isCode)
    rw [List.forall_mem_append, List.forall_mem_cons] at filled
    obtain ⟨behind, next, ran⟩ := synced.reads_first isCode fresh kind text fills filled.2.1 indents
      (by rw [crossed]) settles lexemes
    rw [← SourceText.last_after (blocks.foldl SourceText.enter writer) token] at placed
    rw [ran, ih next filled.2.2 placed]
    rfl
  | @opened phase writer block lexeme token rest lexemes isCode fresh rowStart indent spaces deeper
      kind text spans ahead _ ih =>
    have hasToken : lexeme.kind.hasToken = true := by simp [Lexeme.Kind.hasToken, isCode]
    obtain ⟨noLayout, significant, isBreak, freshAfter⟩ := Phase.traits hasToken kind
    have noBreak : token.isBreak = false := isBreak.trans (by
      cases found : lexeme.kind <;> simp_all [Lexeme.Kind.isCode])
    rw [Placed, indent] at placed
    obtain ⟨-, blockText, blockStart, -, nextStart, placed⟩ := placed
    have place : token.start = block.stop := nextStart token rfl
    rw [placed_token noLayout, ← freshAfter] at placed
    obtain ⟨fills, -, row, col, placed⟩ := placed
    have indents : (writer.enter block).indents = (block.stop.col :: columns).map blanks := by
      rw [SourceText.enter_indent indent, List.map_cons, ← synced.indents, blockText]
    have last : (writer.enter block).last = writer.last := by rw [SourceText.enter_indent indent]
    have crossed := synced.cross_first fresh rowStart indents
      (.inr (last ▸ synced.relay.rowStart rowStart)) (row fresh) (by rw [last])
      (col fresh (significant.trans isCode)) noBreak
    have isBlock : (layout.cross ((writer.enter block).pad token)).opening = block := by
      rw [crossed, Layout.opening]
      obtain ⟨blockKind, _, _, blockStop⟩ := block
      simp only at indent blockText blockStart place
      simp only [indent, blockText, blockStart, ← place, row fresh]
      rfl
    have settles : (layout.cross ((writer.enter block).pad token)).settle =
        .ok ([block], { layout.cross ((writer.enter block).pad token) with
          blocks := block.stop.col :: columns }) := by
      have blocks := synced.blocks_eq
      rw [SourceText.width_headD, synced.relay.widths, blockText, toList_blanks,
        Layout.width_blanks] at deeper
      rw [Layout.settle_of_deeper, isBlock]
      · rw [crossed]
        simp only [Layout.width_blanks, place, blocks]
      · rw [crossed]
        simp only [Layout.top, Layout.width_blanks, place]
        exact deeper
    rw [List.forall_mem_append, List.forall_mem_cons] at filled
    obtain ⟨behind, next, ran⟩ := synced.reads_first isCode fresh kind text fills filled.2.1 indents
      (by rw [crossed]) settles lexemes
    rw [← SourceText.last_after (writer.enter block) token] at placed
    rw [ran, ih next filled.2.2 placed]
    rfl
  | @ended phase writer blocks stop closed fresh dedents size isStop noText =>
    rw [fresh] at placed
    have depth := synced.relay.inPhase.depth.trans closed
    have line := synced.relay.inPhase.line
    rw [fresh] at line
    rw [Layout.run, Layout.finish, if_neg (by omega), line]
    simp only [Bool.not_true, Bool.false_eq_true, if_false, List.nil_append]
    rw [Layout.closing_of_placed dedents (size.trans synced.relay.size) isStop noText placed
      (by rw [synced.cursor])]
  | @cutOff phase writer token blocks stop closed fresh kind text ahead dedents size isStop noText =>
    have noLayout : token.isLayout = false := by simp [Token.isLayout, kind]
    have isBreak : token.isBreak = true := by simp [Token.isBreak, kind]
    rw [fresh, List.cons_append, placed_token noLayout] at placed
    obtain ⟨fills, -, -, -, placed⟩ := placed
    have isGap := (SourceText.isPad_pad synced.relay.spaces token).isGap
    have depth := synced.relay.inPhase.depth.trans closed
    have line := synced.relay.inPhase.line
    rw [fresh] at line
    have behind : token.behind = token.start.nextRow := by
      rw [Token.behind, if_pos isBreak, fills, if_pos isBreak]
      rfl
    have isToken : token = ⟨.newline, "", token.start, token.start.right 1⟩ := by
      obtain ⟨_, _, start, stop⟩ := token
      simp only at kind text
      subst kind text
      simp only [Token.mk.injEq, true_and]
      exact fills
    have finished := Layout.run_gap isGap layout []
    rw [List.append_nil] at finished
    rw [finished, Layout.run, Layout.finish, Layout.depth_cross, if_neg (by omega),
      Layout.lineHasCode_cross, line, synced.cursor_pad ahead, Layout.blocks_cross]
    simp only [Bool.not_false, if_true, List.append_assoc]
    have newline : ((false && !token.isSignificant) || token.kind == .newline) = true := by
      simp [kind]
    rw [newline] at placed
    rw [Layout.closing_of_placed dedents (size.trans synced.relay.size) isStop noText placed
      (by rw [behind]; rfl), ← isToken]
    rfl

end DeferredDefaults
