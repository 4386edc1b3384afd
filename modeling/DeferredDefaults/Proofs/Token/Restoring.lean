import DeferredDefaults.Proofs.Token.Indentation
import Mathlib.Data.List.DropRight

/-!
The tokens of a text are written as the text itself. Where all space is blanks and no row is
continued, the writer knows the place and the blocks of the layout that has read the text, and what
it puts in front of a token are the blanks that stood there. Only blanks on the last row belong to
no token and are lost.
-/

set_option autoImplicit false
set_option relaxedAutoImplicit false

namespace DeferredDefaults

def Text.lastRow (text : List Char) : List Char := text.rtakeWhile fun c => !Lexeme.isLineEnd c

private theorem Text.lastRow_append {front back : List Char}
    (ended : ∀ c ∈ front.getLast?, Lexeme.isLineEnd c = true)
    (row : ∀ c ∈ back, Lexeme.isLineEnd c = false) : lastRow (front ++ back) = back := by
  have whole : ∀ c ∈ back.reverse, (!Lexeme.isLineEnd c) = true := by
    intro c member
    rw [row c (List.mem_reverse.1 member)]
    rfl
  have none : front.reverse.takeWhile (fun c => !Lexeme.isLineEnd c) = [] := by
    cases reversed : front.reverse with
    | nil => rfl
    | cons c more =>
      have last : front.getLast? = some c := by rw [← List.head?_reverse, reversed]; rfl
      rw [List.takeWhile_cons_of_neg]
      simp [ended c last]
  rw [lastRow, List.rtakeWhile, List.reverse_append, List.takeWhile_append_of_pos whole, none,
    List.append_nil, List.reverse_reverse]

namespace Lexeme

private theorem continuesLines_of_spaced {lexemes : List Lexeme}
    (spaced : ∀ lexeme ∈ lexemes, lexeme.kind ≠ .continuation) (phase : Phase) :
    continuesLines phase lexemes = true := by
  induction lexemes generalizing phase with
  | nil => rfl
  | cons lexeme rest ih =>
    rw [List.forall_mem_cons] at spaced
    rw [continuesLines]
    split
    · next kind => exact absurd kind spaced.1
    · exact ih spaced.2 phase
    · exact ih spaced.2 _

private theorem gap_of_spaced {gap rest : List Lexeme} (reads : Reads (gap ++ rest))
    (isGap : ∀ lexeme ∈ gap, lexeme.IsGap)
    (spaced : ∀ lexeme ∈ gap ++ rest, lexeme.kind ≠ .continuation)
    (blank : ∀ lexeme ∈ gap ++ rest, lexeme.usesBlanks = true) :
    ∃ count, gap = spaceOf (List.replicate count ' ') := by
  refine gap_eq_blanks reads ?_ fun lexeme member => blank lexeme (List.mem_append_left _ member)
  intro lexeme member
  rcases (isGap lexeme member).shape with ⟨kind, -⟩ | ⟨kind, -⟩
  · exact kind
  · exact absurd kind (spaced lexeme (List.mem_append_left _ member))

end Lexeme

namespace SourceText

variable {writer : SourceText} {token : Token} {columns : List Nat}

/-- The token is the first of a row that the writer has not begun. -/
structure Begins (writer : SourceText) (token : Token) : Prop where
  last : writer.last.col = 0
  row : token.start.row = writer.last.row
  noBreak : token.isBreak = false

/-- Entering the blocks leaves those of `columns` open, and the blanks in front of the token to be
written. -/
structure Enters (writer : SourceText) (blocks : List Token) (columns : List Nat) (token : Token) :
    Prop where
  kinds : ∀ block ∈ blocks, block.kind = .indent ∨ block.kind = .dedent
  indents : (blocks.foldl enter writer).indents = columns.map blanks
  ahead : (blocks.foldl enter writer).last ≤ token.start
  pad : (blocks.foldl enter writer).pad token =
    Lexeme.spaceOf (List.replicate token.start.col ' ')

private theorem Begins.ahead (begins : writer.Begins token) : writer.last ≤ token.start := by
  rw [Position.le_iff, begins.row, begins.last]
  exact .inr ⟨rfl, Nat.zero_le _⟩

private theorem Begins.opening (begins : writer.Begins token) {block : Token}
    (indent : block.kind = .indent) (text : block.text = blanks token.start.col)
    (indents : writer.indents = columns.map blanks) :
    writer.Enters [block] (token.start.col :: columns) token := by
  have entered : [block].foldl enter writer =
      { writer with indents := blanks token.start.col :: writer.indents } := by
    rw [List.foldl_cons, List.foldl_nil, enter_indent indent, text]
  have inner : ([block].foldl enter writer).indents =
      (token.start.col :: columns).map blanks := by
    rw [entered, indents, List.map_cons]
  have last : ([block].foldl enter writer).last = writer.last := by rw [entered]
  constructor
  · simp [indent]
  · exact inner
  · rw [last]
    exact begins.ahead
  · refine pad_first inner (.inr ?_) ?_ rfl begins.noBreak
    · rw [last, begins.last]
    · rw [last, begins.row]

private theorem Begins.dedents (begins : writer.Begins token) {blocks : List Token}
    (dedents : ∀ block ∈ blocks, block.kind = .dedent ∧ block.stop = token.start)
    (indents : writer.indents = columns.map blanks)
    (lineStart : writer.lineStart = true ∨ writer.indents = [])
    (within : blocks.length ≤ columns.length)
    (top : (columns.drop blocks.length).headD 0 = token.start.col) :
    writer.Enters blocks (columns.drop blocks.length) token := by
  have entered := foldl_enter_dedents dedents writer
  have inner : (blocks.foldl enter writer).indents =
      (columns.drop blocks.length).map blanks := by
    rw [entered, indents, List.map_drop]
  constructor
  · exact fun block member => .inr (dedents block member).1
  · exact inner
  · exact last_foldl_enter_le dedents begins.ahead
  · refine pad_first inner ?_ ?_ top.symm begins.noBreak
    · rw [entered]
      cases blocks with
      | nil => exact .inr begins.last
      | cons block others =>
        rcases lineStart with lineStart | none
        · exact .inl lineStart
        · rw [indents, List.map_eq_nil_iff] at none
          rw [none] at within
          cases within
    · rw [entered]
      simp only
      split
      · exact begins.row
      · rfl

end SourceText

namespace Synced

variable {phase : Phase} {writer : SourceText} {columns : List Nat} {layout : Layout}
  {token : Token} {count : Nat}

private theorem pad_blanks (synced : Synced phase writer columns layout)
    (start : token.start = layout.cursor.right count) :
    writer.pad token = Lexeme.spaceOf (List.replicate count ' ') := by
  rw [synced.cursor] at start
  have between : Lexeme.padBetween [] writer.last token.start =
      Lexeme.spaceOf (List.replicate count ' ') := by
    simp [start, Lexeme.padBetween, Lexeme.padOf, Position.right]
  cases isBreak : token.isBreak with
  | true => rw [SourceText.pad_of_quiet (.inl isBreak), between]
  | false =>
    rcases writer.lead_cases token with ⟨indent, rest, begins, indents, within, lead, led⟩ |
      ⟨-, lead, led, -⟩
    · -- Indentation is written only in the first column of a row.
      have rowStart : writer.last.col = 0 := by
        apply synced.relay.rowStart
        rw [← Bool.not_eq_false]
        intro inside
        rcases synced.relay.quiet inside with quiet | none
        · rw [quiet] at begins
          cases begins
        · rw [none] at indents
          cases indents
      obtain ⟨column, -, rfl⟩ : ∃ column ∈ columns, blanks column = indent := by
        rw [← List.mem_map, ← synced.indents, indents]
        exact List.mem_cons_self
      rw [toList_blanks, List.length_replicate, start] at within
      simp only [Position.right, rowStart, Nat.zero_add] at within
      rw [SourceText.pad, SourceText.indentFor, SourceText.reached, isBreak, lead, led, start]
      simp [Lexeme.padBetween, Lexeme.padOf, Position.right, rowStart,
        List.replicate_append_replicate, Nat.add_sub_cancel' within]
    · rw [SourceText.pad, SourceText.indentFor, SourceText.reached, isBreak]
      simp only [Bool.false_eq_true, if_false, lead, led, between]

private theorem behind {gap : List Lexeme} {lexeme : Lexeme} {entered : SourceText}
    {settled : Layout} (inPhase : layout.InPhase phase)
    (same : settled = { layout.cross gap with blocks := settled.blocks })
    (indents : entered.indents = settled.blocks.map blanks)
    (hasToken : lexeme.kind.hasToken = true) :
    Synced (phase.after lexeme) (entered.after ((layout.cross gap).tokenFor lexeme))
      (settled.behind lexeme).blocks (settled.behind lexeme) := by
  have widths : entered.indents.map (fun indent => Layout.width indent.toList) =
      settled.blocks := by
    rw [indents, Layout.width_blanks_columns]
  have isBreak := Layout.isBreak_tokenFor (layout.cross gap) lexeme
  have relay := Relay.next inPhase gap widths (SourceText.allSpace_blanks indents) isBreak
  rw [← same] at relay
  rw [Layout.blocks_behind]
  refine Synced.after relay ?_ indents hasToken (inPhase.kind_tokenFor gap lexeme)
  rw [Layout.cursor_behind, same, Layout.tokenFor_blocks]

private theorem run_finish (synced : Synced phase writer columns layout) {tokens : List Token}
    (finished : (layout.cross (Lexeme.spaceOf (List.replicate count ' '))).finish = .ok tokens)
    (bare : phase.fresh = true → count = 0) :
    writer.run tokens = .ok (List.replicate count ' ') := by
  have closing : ∀ (writer : SourceText) (blocks : Nat) (place : Position), writer.run
      (List.replicate blocks (Layout.dedentAt place) ++ [⟨.endMarker, "", place, place⟩]) =
        .ok (Lexeme.textOf []) := by
    intro writer blocks place
    have dedents : ∀ token ∈ List.replicate blocks (Layout.dedentAt place),
        token.kind = .indent ∨ token.kind = .dedent := by
      intro token member
      rw [List.eq_of_mem_replicate member]
      exact .inr rfl
    rw [SourceText.run_blocks dedents]
    rfl
  obtain ⟨place, ending⟩ := Layout.finish_of_depth (Layout.depth_of_finish finished)
  have cursor : (layout.cross (Lexeme.spaceOf (List.replicate count ' '))).cursor =
      layout.cursor.right count := by
    rw [Layout.cross_spaceOf, List.length_replicate]
  rw [ending, Layout.lineHasCode_cross, synced.relay.inPhase.line, cursor,
    Layout.blocks_cross] at finished
  cases fresh : phase.fresh with
  | true =>
    rw [fresh] at finished
    cases finished
    rw [bare fresh]
    exact closing _ _ _
  | false =>
    rw [fresh] at finished
    cases finished
    let token : Token :=
      ⟨.newline, "", layout.cursor.right count, (layout.cursor.right count).right 1⟩
    have ahead : writer.last ≤ token.start := by
      rw [← synced.cursor]
      exact .inr ⟨rfl, Nat.le_add_right _ _⟩
    have noText : token.text = String.ofList (⟨.lineBreak, []⟩ : Lexeme).text := rfl
    have written := SourceText.run_token rfl ahead noText
      (closing (writer.after token) layout.blocks.length place)
    rw [synced.pad_blanks rfl, Lexeme.textOf_append, Lexeme.textOf_spaceOf] at written
    refine written.trans ?_
    simp

end Synced

namespace Layout

variable {phase : Phase} {writer : SourceText} {layout : Layout} {gap rest lexemes : List Lexeme}
  {lexeme : Lexeme}

private theorem Indented.rowStart_of_code {last : Position}
    (indented : Indented phase layout last (gap ++ lexeme :: rest))
    (isGap : ∀ lexeme ∈ gap, lexeme.IsGap) (isCode : lexeme.kind.isCode = true)
    (fresh : phase.fresh = true) : phase.rowStart = true := by
  rcases indented.rowStart fresh with rowStart | ends
  · exact rowStart
  · cases gap with
    | nil =>
      rw [ends lexeme rfl] at isCode
      cases isCode
    | cons first others =>
      have isBreak := ends first rfl
      rcases (isGap first List.mem_cons_self).shape with ⟨kind, -⟩ | ⟨kind, -⟩ <;>
        rw [kind] at isBreak <;> cases isBreak

/-- The blocks that a line opens or closes are entered in front of its first token. -/
private theorem enters_settle (synced : Synced phase writer layout.blocks layout) {count : Nat}
    (isGap : gap = Lexeme.spaceOf (List.replicate count ' ')) (fresh : phase.fresh = true)
    (rowStart : phase.rowStart = true) {blocks : List Token} {settled : Layout}
    (settles : (layout.cross gap).settle = .ok (blocks, settled))
    (isCode : lexeme.kind.isCode = true) :
    writer.Enters blocks settled.blocks ((layout.cross gap).tokenFor lexeme) := by
  have inPhase := synced.relay.inPhase
  have column := inPhase.col rowStart
  have crossed :=
    cross_blanks (inPhase.fresh.trans fresh) column (inPhase.margin rowStart fresh) count
  rw [← isGap] at crossed
  have begins : writer.Begins ((layout.cross gap).tokenFor lexeme) := by
    rw [synced.cursor] at column crossed
    refine ⟨column, ?_, ?_⟩
    · rw [start_tokenFor, crossed]
      rfl
    · rw [isBreak_tokenFor, beq_eq_false_iff_ne]
      intro isBreak
      rw [isBreak] at isCode
      cases isCode
  have width : width (layout.cross gap).margin =
      ((layout.cross gap).tokenFor lexeme).start.col := by
    rw [start_tokenFor, crossed, width_blanks]
    simp only [Position.right, column, Nat.zero_add]
  rcases settle_eq_ok settles with ⟨-, rfl, rfl⟩ | ⟨returns, rfl, rfl⟩
  · rw [blocks_cross, width]
    refine begins.opening rfl ?_ synced.indents
    rw [← width, crossed, width_blanks]
    simp only [opening]
    rfl
  · rw [kept_eq, blocks_cross, ← List.length_map fun _ => dedentAt (layout.cross gap).cursor]
    refine begins.dedents ?_ synced.indents (synced.lineStart rowStart) ?_ ?_
    · rw [List.forall_mem_map]
      exact fun _ _ => ⟨rfl, (start_tokenFor _ _).symm⟩
    · rw [List.length_map, closed, blocks_cross]
      exact (List.takeWhile_prefix _).length_le
    · rw [List.length_map, ← blocks_cross layout, ← kept_eq, returns, width]

/-- Layout and writer in front of the same lexemes, `front` being the text before them. -/
structure Restores (front : List Char) (phase : Phase) (writer : SourceText) (layout : Layout)
    (lexemes : List Lexeme) : Prop where
  synced : Synced phase writer layout.blocks layout
  indented : Indented phase layout writer.last lexemes
  spaced : ∀ lexeme ∈ lexemes, lexeme.kind ≠ .continuation
  rowEnd : phase.rowStart = true → ∀ c ∈ front.getLast?, Lexeme.isLineEnd c = true
  /-- The last row has more than blanks. -/
  lastRow : (Text.lastRow (front ++ Lexeme.textOf lexemes)).all Lexeme.isSpace = true →
    Text.lastRow (front ++ Lexeme.textOf lexemes) = []

namespace Restores

variable {front : List Char}

private theorem behind {entered : SourceText} {settled : Layout}
    (restores : Restores front phase writer layout (gap ++ lexeme :: rest))
    (reads : Lexeme.Reads (lexeme :: rest)) (isGap : ∀ lexeme ∈ gap, lexeme.IsGap)
    (same : settled = { layout.cross gap with blocks := settled.blocks })
    (indents : entered.indents = settled.blocks.map blanks)
    (hasToken : lexeme.kind.hasToken = true) :
    Restores (front ++ Lexeme.textOf gap ++ lexeme.text) (phase.after lexeme)
      (entered.after ((layout.cross gap).tokenFor lexeme)) (settled.behind lexeme) rest where
  synced := Synced.behind restores.synced.relay.inPhase same indents hasToken
  indented := by
    rw [SourceText.last_after]
    exact restores.indented.behind same reads isGap hasToken
  spaced := fun other member =>
    restores.spaced other (List.mem_append_right _ (List.mem_cons_of_mem _ member))
  rowEnd := by
    intro rowStart c last
    rw [Phase.rowStart_after] at rowStart
    have isBreak := reads.2.1
    rw [rowStart, Lexeme.first_lineBreak_iff reads.1] at isBreak
    rw [List.getLast?_append_of_ne_nil _ reads.1] at last
    simp only [Lexeme.breaks, List.mem_cons, List.not_mem_nil, or_false] at isBreak
    rcases isBreak.1 with text | text | text <;> rw [text] at last <;> cases last <;> rfl
  lastRow := by simpa using restores.lastRow

private theorem bare {count : Nat}
    (restores : Restores front phase writer layout (Lexeme.spaceOf (List.replicate count ' ')))
    (fresh : phase.fresh = true) : count = 0 := by
  rcases restores.indented.rowStart fresh with rowStart | ends
  · have blank : ∀ c ∈ List.replicate count ' ', Lexeme.isLineEnd c = false ∧
        Lexeme.isSpace c = true := by
      intro c member
      rw [List.eq_of_mem_replicate member]
      exact ⟨rfl, rfl⟩
    have row := Text.lastRow_append (restores.rowEnd rowStart) fun c member => (blank c member).1
    have lastRow := restores.lastRow
    rw [Lexeme.textOf_spaceOf, row, List.all_eq_true] at lastRow
    simpa using lastRow fun c member => (blank c member).2
  · by_contra some
    have gap : Lexeme.spaceOf (List.replicate count ' ') = [⟨.space, List.replicate count ' '⟩] :=
      if_neg (by simpa using some)
    rw [gap] at ends
    cases ends _ rfl

private theorem run_eq {tokens : List Token} (restores : Restores front phase writer layout lexemes)
    (reads : Lexeme.Reads lexemes) (ran : layout.run lexemes = .ok tokens) :
    writer.run tokens = .ok (Lexeme.textOf lexemes) := by
  generalize size : lexemes.length = n
  induction n using Nat.strongRecOn generalizing lexemes layout phase writer tokens front with
  | ind n ih =>
    obtain ⟨gap, rest, rfl, isGap, head⟩ := Lexeme.exists_gap reads
    obtain ⟨count, blank⟩ :=
      Lexeme.gap_of_spaced reads isGap restores.spaced restores.indented.blank
    rw [run_gap isGap] at ran
    cases rest with
    | nil =>
      rw [List.append_nil, blank] at restores
      rw [blank] at ran
      rw [List.append_nil, blank, Lexeme.textOf_spaceOf]
      exact restores.synced.run_finish ran restores.bare
    | cons lexeme more =>
      obtain ⟨noSpace, noContinuation⟩ := head lexeme rfl
      have readsLexeme : Lexeme.Reads (lexeme :: more) := reads.drop
      have smaller : more.length < n := by
        rw [List.length_append, List.length_cons] at size
        omega
      obtain ⟨hasToken, cases⟩ := run_cons_eq_ok noSpace noContinuation ran
      -- The token of the lexeme, behind the blocks that it opens and closes.
      have token : ∀ {entered : SourceText} {settled : Layout} {others : List Token},
          settled = { layout.cross gap with blocks := settled.blocks } →
          entered.indents = settled.blocks.map blanks →
          entered.last ≤ ((layout.cross gap).tokenFor lexeme).start →
          entered.pad ((layout.cross gap).tokenFor lexeme) = gap →
          (settled.behind lexeme).run more = .ok others →
          entered.run ((layout.cross gap).tokenFor lexeme :: others) =
            .ok (Lexeme.textOf (gap ++ lexeme :: more)) := by
        intro entered settled others same indents ahead pad ranRest
        have behind := restores.behind readsLexeme isGap same indents hasToken
        have written := SourceText.run_token (isLayout_tokenFor _ lexeme) ahead
          (text_tokenFor _ lexeme) (ih more.length smaller behind readsLexeme.2.2 ranRest rfl)
        rwa [pad] at written
      rcases cases with ⟨-, others, rfl, ranRest⟩ |
        ⟨isFresh, isCode, blocks, settled, others, settles, rfl, ranRest⟩
      · have start : ((layout.cross gap).tokenFor lexeme).start = layout.cursor.right count := by
          rw [start_tokenFor, blank, cross_spaceOf, List.length_replicate]
        refine token rfl ?_ ?_ ?_ ranRest
        · rw [blocks_cross, restores.synced.indents]
        · rw [start, ← restores.synced.cursor]
          exact .inr ⟨rfl, Nat.le_add_right _ _⟩
        · rw [restores.synced.pad_blanks start, blank]
      · rw [atLineStart_cross, restores.synced.relay.inPhase.fresh] at isFresh
        have rowStart := restores.indented.rowStart_of_code isGap isCode isFresh
        have enters := enters_settle restores.synced blank isFresh rowStart settles isCode
        rw [SourceText.run_blocks enters.kinds]
        refine token (settle_blocks settles) enters.indents enters.ahead ?_ ranRest
        rw [enters.pad, start_tokenFor, blank, cross_spaceOf, List.length_replicate]
        simp only [Position.right, restores.synced.relay.inPhase.col rowStart, Nat.zero_add]

end Restores

end Layout

/-- Writing the tokens of a text gives the text back, if its space is blanks, no row is continued
and the last row is not blank. -/
theorem sourceText_tokenize {source : String} {tokens : List Token}
    (tokenized : tokenize source = .ok tokens)
    (blank : ∀ lexeme ∈ Lexeme.split source.toList, lexeme.usesBlanks = true)
    (spaced : ∀ lexeme ∈ Lexeme.split source.toList, lexeme.kind ≠ .continuation)
    (lastRow : (Text.lastRow source.toList).all Lexeme.isSpace = true →
      Text.lastRow source.toList = []) : sourceText tokens = .ok source := by
  have text : Lexeme.textOf (Lexeme.split source.toList) = source.toList :=
    Lexeme.flatMap_text_split source.toList
  have indented : Layout.Indented {} {} .origin (Lexeme.split source.toList) :=
    ⟨relay_initial.inPhase, blank, Lexeme.continuesLines_of_spaced spaced _, Position.le_refl _,
      fun _ => rfl, fun _ => .inl rfl⟩
  have restores : Layout.Restores [] {} {} {} (Lexeme.split source.toList) :=
    ⟨⟨relay_initial, rfl, rfl, fun _ => .inr rfl⟩, indented, spaced, nofun,
      by rwa [List.nil_append, text]⟩
  have ran := restores.run_eq (Lexeme.reads_split source.toList) tokenized
  rw [sourceText, ran, text]
  show Except.ok (String.ofList source.toList) = _
  rw [String.ofList_toList]

/-- Comments left of their block, a bracket and a string that go on at the margin, a row that ends
with a carriage return, and blanks where no line break ends the text. -/
def raggedSource : String :=
  "\n# a\nif b :\r\n   def f( c ):  # d\n # e\n\n      x = [1 ,\n2,  '''\n\t''' ]\n   y\n#\nz   "

theorem sourceText_tokenize_ragged : ∃ tokens, tokenize raggedSource = .ok tokens ∧
    sourceText tokens = .ok raggedSource := by
  have tokenizes : (tokenize raggedSource).isOk = true := by decide +kernel
  cases tokenized : tokenize raggedSource with
  | error fault =>
    rw [tokenized] at tokenizes
    cases tokenizes
  | ok tokens =>
    exact ⟨tokens, rfl, sourceText_tokenize tokenized (by decide +kernel) (by decide +kernel)
      (by decide +kernel)⟩

end DeferredDefaults
