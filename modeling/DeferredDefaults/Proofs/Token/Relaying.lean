import DeferredDefaults.Proofs.Token.Writing

/-!
Reading back what has been written. The gaps that are written lead layout through the same kinds of
token, at the same distances within a row. Only the first token of a logical line depends on more:
its blocks come out the same just if the space written in front of it fits its block.
-/

set_option autoImplicit false
set_option relaxedAutoImplicit false

namespace DeferredDefaults

namespace SourceText

def marginOf (writer : SourceText) (token : Token) : List Char :=
  if (writer.reached token).row < token.start.row then List.replicate token.start.col ' '
  else writer.indentFor token ++
    List.replicate (token.start.col - (writer.reached token).col) ' '

/-- The space in front of the first token of a line fits its block: behind an indent token it is
that indentation, and otherwise it has the width of the innermost one. -/
def fitsBlock (writer : SourceText) (opened : Bool) (token : Token) : Bool :=
  let indent := (writer.indents.headD "").toList
  if opened then writer.marginOf token == indent
  else Layout.width (writer.marginOf token) == Layout.width indent

/-- The first token of every logical line gets space that fits its block. A line has begun unless
it is `fresh`, and `opened` tells whether an indent token has just come. -/
def keepsMargins : (fresh opened : Bool) → SourceText → List Token → Bool
  | _, _, _, [] => true
  | fresh, opened, writer, token :: rest =>
    if token.kind = .endMarker then true
    else if token.isLayout then
      keepsMargins fresh (token.kind == .indent) (writer.enter token) rest
    else
      (!(fresh && token.isSignificant) || writer.fitsBlock opened token) &&
        keepsMargins ((fresh && !token.isSignificant) || token.kind == .newline) false
          (writer.after token) rest

variable {writer : SourceText} {token : Token} {layout : Layout}

private theorem length_indentFor_le (writer : SourceText) (token : Token) :
    (writer.indentFor token).length ≤ token.start.col := by
  unfold indentFor
  split
  · exact Nat.zero_le _
  · rcases writer.lead_cases token with ⟨_, _, _, _, within, led, _⟩ | ⟨_, led, _⟩
    · rw [led]
      exact within
    · rw [led]
      exact Nat.zero_le _

private theorem col_cross_pad (start : writer.last.col = 0) (rowStart : layout.cursor.col = 0)
    (ahead : writer.last ≤ token.start) :
    (layout.cross (writer.pad token)).cursor.col = token.start.col := by
  have within := reached_le ahead
  have reached : (writer.reached token).col = (writer.indentFor token).length := by
    unfold SourceText.reached indentFor
    split
    · exact start
    · rcases writer.lead_cases token with ⟨_, _, _, _, _, led, next⟩ | ⟨_, led, last, _⟩
      · rw [led, next]
      · rw [led, last]
        exact start
  have indent := length_indentFor_le writer token
  rw [Position.le_iff] at within
  rw [pad, Lexeme.padBetween, Layout.cursor_cross_padOf]
  split
  · rw [if_neg (by omega)]
    simp only [Position.right]
    omega
  · rw [if_pos (by omega)]

private theorem cursor_cross_pad
    (quiet : token.isBreak = true ∨ writer.lineStart = false ∨ writer.indents = []) :
    (layout.cross (writer.pad token)).cursor =
      ⟨layout.cursor.row + (token.start.row - writer.last.row),
        if writer.last.row < token.start.row then token.start.col
        else layout.cursor.col + (token.start.col - writer.last.col)⟩ := by
  rw [pad_of_quiet quiet, Lexeme.padBetween, Layout.cursor_cross_padOf]
  split
  · rw [if_neg (by omega), if_neg (by omega)]
    simp only [Position.right, List.length_nil, Position.mk.injEq]
    omega
  · rw [if_pos (by omega), if_pos (by omega)]

private theorem gap_cross_pad
    (quiet : token.isBreak = true ∨ writer.lineStart = false ∨ writer.indents = []) :
    gap writer.last token.start =
      gap layout.cursor (layout.cross (writer.pad token)).cursor := by
  rw [cursor_cross_pad quiet]
  unfold gap
  simp only
  have rows : layout.cursor.row + (token.start.row - writer.last.row) - layout.cursor.row =
      token.start.row - writer.last.row := by omega
  rw [rows]
  by_cases down : writer.last.row < token.start.row
  · rw [if_pos down, if_pos down, if_pos (by omega)]
  · rw [if_neg down, if_neg down, if_neg (by omega)]
    congr 2
    omega

private theorem margin_cross_pad (fresh : layout.atLineStart = true)
    (rowStart : layout.cursor.col = 0) (noMargin : layout.margin = [])
    (ahead : writer.last ≤ token.start) :
    (layout.cross (writer.pad token)).margin = writer.marginOf token := by
  have within := reached_le ahead
  have indent := length_indentFor_le writer token
  rw [Position.le_iff] at within
  rw [pad, Lexeme.padBetween, Layout.margin_cross_padOf fresh rowStart noMargin, marginOf]
  · split
    · rw [if_neg (by omega), if_neg (by omega)]
    · rw [if_pos (by omega), if_pos (by omega)]
  · intro down
    rw [if_pos (by omega)]
    exact indent

theorem keepsMargins_dedents {blocks : List Token}
    (dedents : ∀ block ∈ blocks, block.kind = .dedent) (fresh : Bool) (writer : SourceText)
    (rest : List Token) :
    keepsMargins fresh false writer (blocks ++ rest) =
      keepsMargins fresh false (blocks.foldl enter writer) rest := by
  induction blocks generalizing writer with
  | nil => rfl
  | cons block blocks ih =>
    rw [List.forall_mem_cons] at dedents
    rw [List.cons_append, List.foldl_cons, ← ih dedents.2]
    simp [keepsMargins, Token.isLayout, dedents.1]
    rfl

theorem keepsMargins_token (noLayout : token.isLayout = false) (fresh opened : Bool)
    (writer : SourceText) (rest : List Token) :
    keepsMargins fresh opened writer (token :: rest) =
      ((!(fresh && token.isSignificant) || writer.fitsBlock opened token) &&
        keepsMargins ((fresh && !token.isSignificant) || token.kind == .newline) false
          (writer.after token) rest) := by
  have noStop : token.kind ≠ .endMarker := by
    intro stop
    simp [Token.isLayout, stop] at noLayout
  rw [keepsMargins, if_neg noStop, noLayout]
  rfl

end SourceText

/-- Settling at the width of an open block closes the blocks inside it. -/
theorem Layout.settle_of_width {layout : Layout} {indents : List String} {count : Nat}
    (widths : indents.map (fun indent => width indent.toList) = layout.blocks)
    (narrower : ∀ indent ∈ indents.take count,
      width ((indents.drop count).headD "").toList < width indent.toList)
    (fits : width layout.margin = width ((indents.drop count).headD "").toList)
    (within : count ≤ indents.length) :
    layout.settle = .ok (List.replicate count (dedentAt layout.cursor),
      { layout with blocks := (indents.drop count).map fun indent => width indent.toList }) := by
  let outer := (indents.take count).map fun indent => width indent.toList
  let inner := (indents.drop count).map fun indent => width indent.toList
  have whole : layout.blocks = outer ++ inner := by
    rw [← widths, ← List.map_append, List.take_append_drop]
  have top : inner.headD 0 = width layout.margin := by rw [fits, SourceText.width_headD]
  have wider : ∀ block ∈ outer, decide (width layout.margin < block) = true := by
    rw [List.forall_mem_map]
    intro indent member
    rw [fits, decide_eq_true_eq]
    exact narrower indent member
  have closes : inner.takeWhile (width layout.margin < ·) = [] ∧
      inner.dropWhile (width layout.margin < ·) = inner := by
    cases split : inner with
    | nil => exact ⟨rfl, rfl⟩
    | cons block others =>
      rw [split] at top
      have same : block = width layout.margin := top
      simp [same]
  have shallow : ¬ layout.top < width layout.margin := by
    rw [Layout.top, whole]
    cases split : outer with
    | nil =>
      rw [List.nil_append, top]
      omega
    | cons block others =>
      have deeper := wider block (by rw [split]; exact List.mem_cons_self)
      rw [decide_eq_true_eq] at deeper
      show ¬ block < _
      omega
  have size : outer.length = count := by
    rw [List.length_map, List.length_take]
    omega
  unfold settle
  simp only [if_neg shallow, whole, List.takeWhile_append_of_pos wider,
    List.dropWhile_append_of_pos wider, closes.1, closes.2, List.append_nil, top, if_true]
  rw [List.map_const', size]

def Token.isClosing (token : Token) : Bool := token.kind == .dedent || token.kind == .endMarker

/-- What decides whether a token fits between those around it: a token, and the token of another
list in its place. -/
structure Seam where
  /-- A logical line has begun. -/
  line : Bool
  /-- Since the last row ended only commas have come. -/
  flush : Bool
  /-- The places behind the last tokens of the row. -/
  last : Option (Position × Position)

namespace Seam

def start : Seam := ⟨false, true, none⟩

/-- Two tokens stand in the same column if only commas are in front of them, and at the same
distance behind what is in front of them. -/
structure Fits (seam : Seam) (pair : Token × Token) : Prop where
  level : seam.flush = true → pair.1.start.col = pair.2.start.col
  follows : ∀ last, seam.last = some last →
    SourceText.gap last.1 pair.1.start = SourceText.gap last.2 pair.2.start

def after (seam : Seam) (pair : Token × Token) : Seam :=
  if pair.1.isLayout then start
  else
    { line := (seam.line || pair.1.isSignificant) && pair.1.kind != .newline
      flush := pair.1.isBreak || (seam.line && seam.flush && pair.1.isOp ",")
      last := if pair.1.isBreak then none else some (pair.1.stop, pair.2.stop) }

/-- A token in front of `rest`, and the one in its place. -/
structure Joins (seam : Seam) (pair : Token × Token) (rest : List (Token × Token)) : Prop where
  same : pair.1.kind = pair.2.kind ∧ pair.1.text = pair.2.text
  /-- Where the first token of a line stands is free. -/
  fits : pair.1.isLayout = false → (seam.line || !pair.1.isSignificant) = true → seam.Fits pair
  /-- Behind a comment line without a line break only blocks are closed. -/
  rowEnd : seam.line = false → pair.1.isTrivia = false →
    seam.last = none ∨ ∀ other ∈ pair :: rest, other.1.isClosing = true

/-- Two lists of tokens that differ only in places, at the same distances within every line. -/
def Laid (seam : Seam) : List (Token × Token) → Prop
  | [] => True
  | pair :: rest => seam.Joins pair rest ∧ Laid (seam.after pair) rest

private theorem laid_first {seam : Seam} {front : List (Token × Token)} {pair : Token × Token}
    {rest : List (Token × Token)} (between : seam.line = false) (rowStart : seam.last = none)
    (blocks : ∀ block ∈ front, block.1.isLayout = true ∧
      block.1.kind = block.2.kind ∧ block.1.text = block.2.text)
    (same : pair.1.kind = pair.2.kind ∧ pair.1.text = pair.2.text)
    (significant : pair.1.isSignificant = true)
    (laid : Laid ⟨true, false, some (pair.1.stop, pair.2.stop)⟩ rest) :
    Laid seam (front ++ pair :: rest) := by
  induction front generalizing seam with
  | nil =>
    have traits : pair.1.isLayout = false ∧ pair.1.isBreak = false ∧
        (pair.1.kind != .newline) = true := by
      simp only [Token.isSignificant, Token.isTrivia, Bool.not_eq_true', Bool.or_eq_false_iff]
        at significant
      simp_all [Token.isBreak]
    refine ⟨⟨same, ?_, fun _ _ => .inl rowStart⟩, ?_⟩
    · intro _ fits
      rw [between, significant] at fits
      cases fits
    · simpa only [after, traits, between, significant, Bool.false_eq_true, if_false, Bool.or_true,
        Bool.and_true, Bool.false_and, Bool.or_false] using laid
  | cons block front ih =>
    rw [List.forall_mem_cons] at blocks
    obtain ⟨⟨isLayout, sameBlock⟩, others⟩ := blocks
    refine ⟨⟨sameBlock, fun noLayout => ?_, fun _ _ => .inl rowStart⟩, ?_⟩
    · rw [isLayout] at noLayout
      cases noLayout
    · rw [after, if_pos isLayout]
      exact ih rfl rfl others

private theorem laid_closing {seam : Seam} {pairs : List (Token × Token)}
    (closing : ∀ pair ∈ pairs, pair.1.isClosing = true ∧
      pair.1.kind = pair.2.kind ∧ pair.1.text = pair.2.text) : Laid seam pairs := by
  induction pairs generalizing seam with
  | nil => trivial
  | cons pair rest ih =>
    have closes : ∀ other ∈ pair :: rest, other.1.isClosing = true := fun other member =>
      (closing other member).1
    rw [List.forall_mem_cons] at closing
    refine ⟨⟨closing.1.2, fun noLayout => ?_, fun _ _ => .inr closes⟩, ih closing.2⟩
    have isClosing := closing.1.1
    rw [Token.isLayout, Bool.or_assoc, Bool.or_eq_false_iff] at noLayout
    rw [Token.isClosing, noLayout.2] at isClosing
    cases isClosing

end Seam

/-- Layout reads what has been written, in the same phase and with the same blocks open. -/
structure Relay (phase : Phase) (writer : SourceText) (layout : Layout) : Prop where
  inPhase : layout.InPhase phase
  widths : writer.indents.map (fun indent => Layout.width indent.toList) = layout.blocks
  spaces : ∀ indent ∈ writer.indents, indent.toList.all Lexeme.isSpace = true
  rowStart : phase.rowStart = true → writer.last.col = 0
  quiet : phase.rowStart = false → writer.lineStart = false ∨ writer.indents = []

theorem relay_initial : Relay {} {} {} where
  inPhase := ⟨rfl, rfl, rfl, fun _ => rfl, fun _ _ => rfl⟩
  widths := rfl
  spaces := List.forall_mem_nil _
  rowStart := fun _ => rfl
  quiet := nofun

namespace Relay

variable {phase : Phase} {writer : SourceText} {layout : Layout} {lexeme : Lexeme} {token : Token}
  {flush : Bool}

theorem size (relay : Relay phase writer layout) :
    writer.indents.length = layout.blocks.length := by
  rw [← relay.widths, List.length_map]

/-- The seam between the tokens that have been written and those that are read back. -/
def seam (phase : Phase) (writer : SourceText) (layout : Layout) (flush : Bool) : Seam where
  line := !phase.fresh
  flush := flush || phase.rowStart
  last := if phase.rowStart then none else some (writer.last, layout.cursor)

private theorem fits (relay : Relay phase writer layout)
    (level : flush = true → writer.last.col = layout.cursor.col)
    (ahead : writer.last ≤ token.start) {other : Token}
    (start : other.start = (layout.cross (writer.pad token)).cursor) :
    (seam phase writer layout flush).Fits (token, other) := by
  cases rowStart : phase.rowStart with
  | true =>
    refine ⟨fun _ => ?_, ?_⟩
    · rw [start,
        SourceText.col_cross_pad (relay.rowStart rowStart) (relay.inPhase.col rowStart) ahead]
    · intro last found
      simp [seam, rowStart] at found
  | false =>
    have quiet := relay.quiet rowStart
    refine ⟨?_, ?_⟩
    · intro isFlush
      have flushed := level (by simpa [seam, rowStart] using isFlush)
      rw [Position.le_iff] at ahead
      rw [start, SourceText.cursor_cross_pad (.inr quiet)]
      simp only
      split <;> omega
    · intro last found
      simp only [seam, rowStart, Bool.false_eq_true, if_false, Option.some.injEq] at found
      rw [← found, start]
      exact SourceText.gap_cross_pad (.inr quiet)

theorem next (inPhase : layout.InPhase phase) (gap : List Lexeme) {entered : SourceText}
    {blocks : List Nat}
    (widths : entered.indents.map (fun indent => Layout.width indent.toList) = blocks)
    (spaces : ∀ indent ∈ entered.indents, indent.toList.all Lexeme.isSpace = true)
    (isBreak : token.isBreak = (lexeme.kind == .lineBreak)) :
    Relay (phase.after lexeme) (entered.after token)
      ({ layout.cross gap with blocks := blocks }.behind lexeme) where
  inPhase := inPhase.behind gap blocks lexeme
  widths := by
    rw [SourceText.indents_after, Layout.blocks_behind]
    exact widths
  spaces := by
    rw [SourceText.indents_after]
    exact spaces
  rowStart := by
    intro rowStart
    rw [Phase.rowStart_after] at rowStart
    rw [rowStart] at isBreak
    rw [SourceText.last_after, Token.behind, isBreak]
    rfl
  quiet := by
    intro within
    have noBreak : lexeme.kind ≠ .lineBreak := by
      rw [Ne, ← Phase.rowStart_after phase, within]
      simp
    apply SourceText.quiet_after
    rw [isBreak, beq_eq_false_iff_ne]
    exact noBreak

end Relay

namespace Phase

variable {phase : Phase} {lexeme : Lexeme} {token : Token}

theorem traits (hasToken : lexeme.kind.hasToken = true)
    (kind : token.kind = phase.kindOf lexeme.kind) :
    token.isLayout = false ∧ token.isSignificant = lexeme.kind.isCode ∧
      token.isBreak = (lexeme.kind == .lineBreak) ∧
      (phase.after lexeme).fresh =
        ((phase.fresh && !token.isSignificant) || token.kind == .newline) := by
  refine ⟨phase.isLayout_kindOf kind, ?_⟩
  obtain ⟨lexemeKind, text⟩ := lexeme
  simp only [Token.isSignificant, Token.isTrivia, Token.isLayout, Token.isBreak, kind]
  cases lexemeKind with
  | space | continuation | openQuote => cases hasToken
  | comment =>
    simp [kindOf, Layout.kindOf, after, Lexeme.Kind.isCode]
    rfl
  | lineBreak =>
    simp only [kindOf, Layout.kindOf, after, Lexeme.Kind.isCode]
    split <;> simp
  | string | number | name | operator | stray =>
    simp [kindOf, Layout.kindOf, Layout.codeKind, after, Lexeme.Kind.isCode]
    rfl

private theorem isTrivia_of_fresh (hasToken : lexeme.kind.hasToken = true)
    (notFirst : (phase.fresh && lexeme.kind.isCode) = false)
    (kind : token.kind = phase.kindOf lexeme.kind) (fresh : phase.fresh = true) :
    token.isTrivia = true := by
  obtain ⟨lexemeKind, text⟩ := lexeme
  rw [fresh, Bool.true_and] at notFirst
  rw [Token.isTrivia, kind]
  cases lexemeKind with
  | space | continuation | openQuote => cases hasToken
  | string | number | name | operator | stray => cases notFirst
  | comment => rfl
  | lineBreak => simp [kindOf, Layout.kindOf, fresh]

end Phase

namespace Relay

variable {phase : Phase} {writer : SourceText} {layout : Layout} {lexeme : Lexeme} {token : Token}
  {flush : Bool}

private theorem seam_after {entered : SourceText} {behind : Layout} {other : Token}
    (hasToken : lexeme.kind.hasToken = true) (kind : token.kind = phase.kindOf lexeme.kind)
    (same : other.kind = token.kind) (last : entered.last = token.behind)
    (cursor : behind.cursor = other.behind) :
    (seam phase writer layout flush).after (token, other) =
      seam (phase.after lexeme) entered behind
        (!phase.fresh && (flush || phase.rowStart) && token.isOp ",") := by
  obtain ⟨noLayout, significant, isBreak, fresh⟩ := Phase.traits hasToken kind
  have rowStart : (phase.after lexeme).rowStart = token.isBreak := by
    rw [isBreak, Bool.eq_iff_iff, Phase.rowStart_after, beq_iff_eq]
  have otherBreak : other.isBreak = token.isBreak := by rw [Token.isBreak, Token.isBreak, same]
  simp only [Seam.after, seam, noLayout, Bool.false_eq_true, if_false, fresh, rowStart, last,
    cursor, Token.behind, otherBreak, Seam.mk.injEq]
  refine ⟨?_, by rw [Bool.or_comm], ?_⟩
  · cases phase.fresh <;> cases token.isSignificant <;> cases token.kind <;> rfl
  · cases token.isBreak <;> rfl

private theorem seam_code {entered : SourceText} {behind : Layout} {other : Token}
    (isCode : lexeme.kind.isCode = true) (kind : token.kind = phase.kindOf lexeme.kind)
    (same : other.kind = token.kind) (last : entered.last = token.behind)
    (cursor : behind.cursor = other.behind) :
    seam (phase.after lexeme) entered behind false =
      ⟨true, false, some (token.stop, other.stop)⟩ := by
  have hasToken : lexeme.kind.hasToken = true := by simp [Lexeme.Kind.hasToken, isCode]
  obtain ⟨_, significant, isBreak, fresh⟩ := Phase.traits hasToken kind
  have noBreak : (lexeme.kind == .lineBreak) = false := by
    rw [beq_eq_false_iff_ne]
    intro lineBreak
    rw [lineBreak] at isCode
    cases isCode
  rw [noBreak] at isBreak
  have rowStart : (phase.after lexeme).rowStart = false := by
    rw [← Bool.not_eq_true, Phase.rowStart_after, ← beq_iff_eq, noBreak]
    simp
  have noNewline : (token.kind == .newline) = false := by
    rw [Token.isBreak, Bool.or_eq_false_iff] at isBreak
    exact isBreak.1
  have otherBreak : other.isBreak = false := by
    rw [Token.isBreak, same]
    exact isBreak
  simp [seam, fresh, significant, isCode, noNewline, rowStart, last, cursor, Token.behind, isBreak,
    otherBreak]

private theorem level_after {pair : Token × Token} (level : pair.1.start.col = pair.2.start.col)
    (old : pair.1.stop = pair.1.start.right 1) (new : pair.2.stop = pair.2.start.right 1) :
    pair.1.stop.col = pair.2.stop.col := by
  rw [old, new]
  simp only [Position.right, level]

/-- A token that begins no logical line is read back at the same distance. -/
theorem readsBack (relay : Relay phase writer layout) (hasToken : lexeme.kind.hasToken = true)
    (notFirst : (phase.fresh && lexeme.kind.isCode) = false)
    (kind : token.kind = phase.kindOf lexeme.kind) (text : token.text = String.ofList lexeme.text)
    (rest : List Lexeme) :
    ∃ other behind, (token.kind = other.kind ∧ token.text = other.text) ∧
      other = (layout.cross (writer.pad token)).tokenFor lexeme ∧
      behind.cursor = other.behind ∧ Relay (phase.after lexeme) (writer.after token) behind ∧
      layout.run (writer.pad token ++ lexeme :: rest) =
        (behind.run rest).map (other :: ·) := by
  have isGap := (SourceText.isPad_pad relay.spaces token).isGap
  have sameKind := relay.inPhase.kind_tokenFor (writer.pad token) lexeme
  refine ⟨_, (layout.cross (writer.pad token)).behind lexeme, ⟨kind.trans sameKind.symm, ?_⟩, rfl,
    Layout.cursor_behind _ _, ?_, ?_⟩
  · rw [text, Layout.text_tokenFor]
  · have widths : writer.indents.map (fun indent => Layout.width indent.toList) =
        (layout.cross (writer.pad token)).blocks := by
      rw [Layout.blocks_cross]
      exact relay.widths
    exact next relay.inPhase _ widths relay.spaces (Phase.traits hasToken kind).2.2.1
  · have later : ((layout.cross (writer.pad token)).atLineStart && lexeme.kind.isCode) = false := by
      rw [Layout.atLineStart_cross, relay.inPhase.fresh]
      exact notFirst
    rw [Layout.run_gap isGap, Layout.run, Layout.step_of_not_first hasToken later]
    show (((layout.cross (writer.pad token)).behind lexeme).run rest).bind _ = _
    cases ((layout.cross (writer.pad token)).behind lexeme).run rest <;> rfl

section Settling

variable (relay : Relay phase writer layout) (fresh : phase.fresh = true)
  (rowStart : phase.rowStart = true)
include relay fresh rowStart

theorem margin_eq {entered : SourceText} (ahead : entered.last ≤ token.start) :
    (layout.cross (entered.pad token)).margin = entered.marginOf token :=
  SourceText.margin_cross_pad (relay.inPhase.fresh.trans fresh) (relay.inPhase.col rowStart)
    (relay.inPhase.margin rowStart fresh) ahead

private theorem settles_closing {entered : SourceText} {count : Nat}
    (indents : entered.indents = writer.indents.drop count) (ahead : entered.last ≤ token.start)
    (within : count ≤ writer.indents.length)
    (narrower : ∀ indent ∈ writer.indents.take count,
      Layout.width ((writer.indents.drop count).headD "").toList < Layout.width indent.toList)
    (fits : entered.fitsBlock false token = true) :
    (layout.cross (entered.pad token)).settle =
      .ok (List.replicate count (Layout.dedentAt (layout.cross (entered.pad token)).cursor),
        { layout.cross (entered.pad token) with
          blocks := entered.indents.map fun indent => Layout.width indent.toList }) := by
  rw [indents]
  apply Layout.settle_of_width _ narrower _ within
  · rw [Layout.blocks_cross]
    exact relay.widths
  · rw [margin_eq relay fresh rowStart ahead]
    simpa [SourceText.fitsBlock, indents] using fits

private theorem settles_opening {block : Token} (indent : block.kind = .indent)
    (deeper : Layout.width (writer.indents.headD "").toList < Layout.width block.text.toList)
    (ahead : writer.last ≤ token.start) (fits : (writer.enter block).fitsBlock true token = true) :
    ∃ opening : Token, opening.kind = .indent ∧ opening.text = block.text ∧
      (layout.cross ((writer.enter block).pad token)).settle =
        .ok ([opening], { layout.cross ((writer.enter block).pad token) with
          blocks := (writer.enter block).indents.map fun indent => Layout.width indent.toList }) := by
  have ahead' : (writer.enter block).last ≤ token.start := by
    rw [SourceText.enter_indent indent]
    exact ahead
  have margin : (layout.cross ((writer.enter block).pad token)).margin = block.text.toList := by
    rw [margin_eq relay fresh rowStart ahead']
    simpa [SourceText.fitsBlock, SourceText.enter_indent indent] using fits
  have open_ : (layout.cross ((writer.enter block).pad token)).top <
      Layout.width (layout.cross ((writer.enter block).pad token)).margin := by
    rw [margin, Layout.top, Layout.blocks_cross, ← relay.widths, ← SourceText.width_headD]
    exact deeper
  refine ⟨(layout.cross ((writer.enter block).pad token)).opening, rfl, ?_, ?_⟩
  · rw [Layout.opening, margin, String.ofList_toList]
  · have widths : (writer.enter block).indents.map (fun indent => Layout.width indent.toList) =
        Layout.width (layout.cross ((writer.enter block).pad token)).margin ::
          (layout.cross ((writer.enter block).pad token)).blocks := by
      rw [margin, Layout.blocks_cross, ← relay.widths, SourceText.enter_indent indent, List.map_cons]
    rw [widths]
    simp only [Layout.settle, if_pos open_]
    rfl

end Settling

/-- The first token of a logical line is read back behind the same blocks if its margin fits. -/
theorem readsBack_first (relay : Relay phase writer layout) (isCode : lexeme.kind.isCode = true)
    (fresh : phase.fresh = true) (kind : token.kind = phase.kindOf lexeme.kind)
    (text : token.text = String.ofList lexeme.text) {entered : SourceText} {blocks : List Nat}
    (widths : entered.indents.map (fun indent => Layout.width indent.toList) = blocks)
    (spaces : ∀ indent ∈ entered.indents, indent.toList.all Lexeme.isSpace = true)
    {tokens : List Token}
    (settles : (layout.cross (entered.pad token)).settle =
      .ok (tokens, { layout.cross (entered.pad token) with blocks := blocks }))
    (rest : List Lexeme) :
    ∃ other behind, (token.kind = other.kind ∧ token.text = other.text) ∧
      other = (layout.cross (entered.pad token)).tokenFor lexeme ∧
      behind.cursor = other.behind ∧ Relay (phase.after lexeme) (entered.after token) behind ∧
      layout.run (entered.pad token ++ lexeme :: rest) =
        (behind.run rest).map (tokens ++ other :: ·) := by
  have isGap := (SourceText.isPad_pad spaces token).isGap
  have sameKind := relay.inPhase.kind_tokenFor (entered.pad token) lexeme
  have hasToken : lexeme.kind.hasToken = true := by simp [Lexeme.Kind.hasToken, isCode]
  have begins : (layout.cross (entered.pad token)).atLineStart = true := by
    rw [Layout.atLineStart_cross, relay.inPhase.fresh]
    exact fresh
  refine ⟨(layout.cross (entered.pad token)).tokenFor lexeme,
    { layout.cross (entered.pad token) with blocks := blocks }.behind lexeme,
    ⟨kind.trans sameKind.symm, ?_⟩, rfl, ?_, ?_, ?_⟩
  · rw [text, Layout.text_tokenFor]
  · rw [Layout.cursor_behind, Layout.tokenFor_blocks]
  · exact next relay.inPhase _ widths spaces (Phase.traits hasToken kind).2.2.1
  · rw [Layout.run_gap isGap, Layout.run, Layout.step_of_first isCode begins, settles]
    show (Layout.run _ rest).bind _ = _
    rw [Layout.tokenFor_blocks]
    cases ({ layout.cross (entered.pad token) with blocks := blocks }.behind lexeme).run rest with
    | error fault => rfl
    | ok others => simp [Except.bind, Except.map, pure, Except.pure]

end Relay

def closings (blocks : List Token) (place : Position) : List (Token × Token) :=
  blocks.map fun block => (block, Layout.dedentAt place)

section Closings

variable {blocks : List Token} {place : Position}

private theorem map_fst_closings : (closings blocks place).map Prod.fst = blocks := by
  rw [closings, List.map_map]
  exact List.map_id _

private theorem map_snd_closings :
    (closings blocks place).map Prod.snd = List.replicate blocks.length (Layout.dedentAt place) := by
  rw [closings, List.map_map]
  exact List.map_const'

private theorem same_of_mem_closings
    (dedents : ∀ block ∈ blocks, block.kind = .dedent ∧ block.text = "") :
    ∀ pair ∈ closings blocks place, pair.1.kind = .dedent ∧
      pair.1.kind = pair.2.kind ∧ pair.1.text = pair.2.text := by
  rw [closings, List.forall_mem_map]
  intro block member
  obtain ⟨kind, text⟩ := dedents block member
  simp [Layout.dedentAt, kind, text]

private theorem laid_ending {stop : Token} (place : Position)
    (dedents : ∀ block ∈ blocks, block.kind = .dedent ∧ block.text = "")
    (isStop : stop.kind = .endMarker) (noText : stop.text = "") :
    ∃ pairs : List (Token × Token), pairs.map Prod.fst = blocks ++ [stop] ∧
      pairs.map Prod.snd = List.replicate blocks.length (Layout.dedentAt place) ++
        [⟨.endMarker, "", place, place⟩] ∧
      ∀ seam : Seam, seam.Laid pairs := by
  refine ⟨closings blocks place ++ [(stop, ⟨.endMarker, "", place, place⟩)], ?_, ?_, fun seam => ?_⟩
  · rw [List.map_append, map_fst_closings]
    rfl
  · rw [List.map_append, map_snd_closings]
    rfl
  · apply Seam.laid_closing
    rw [List.forall_mem_append, List.forall_mem_singleton]
    refine ⟨fun pair member => ?_, by simp [Token.isClosing, isStop], isStop, noText⟩
    obtain ⟨dedent, same⟩ := same_of_mem_closings dedents pair member
    exact ⟨by simp [Token.isClosing, dedent], same⟩

end Closings

/-- What has been written reads back as the same tokens at the same distances, if every margin fits
its block. -/
theorem Written.laid {phase : Phase} {writer : SourceText} {tokens : List Token}
    {lexemes : List Lexeme} (written : Written phase writer tokens lexemes) {layout : Layout}
    (relay : Relay phase writer layout) (flush : Bool)
    (level : flush = true → writer.last.col = layout.cursor.col)
    (keeps : SourceText.keepsMargins phase.fresh false writer tokens = true) :
    ∃ pairs : List (Token × Token), pairs.map Prod.fst = tokens ∧
      layout.run lexemes = .ok (pairs.map Prod.snd) ∧
      (Relay.seam phase writer layout flush).Laid pairs := by
  induction written generalizing layout flush with
  | @token phase writer lexeme token rest lexemes hasToken notFirst kind text spans ahead _ ih =>
    obtain ⟨other, behind, same, isOther, cursor, next, ran⟩ :=
      relay.readsBack hasToken notFirst kind text lexemes
    have fits := relay.fits level ahead (isOther ▸ Layout.start_tokenFor _ lexeme)
    obtain ⟨noLayout, _, _, fresh⟩ := Phase.traits hasToken kind
    rw [SourceText.keepsMargins_token noLayout, ← fresh, Bool.and_eq_true] at keeps
    have level' : (!phase.fresh && (flush || phase.rowStart) && token.isOp ",") = true →
        (writer.after token).last.col = behind.cursor.col := by
      intro flushed
      rw [Bool.and_eq_true, Bool.and_eq_true] at flushed
      have comma : other.isOp "," = true := by
        rw [Token.isOp, ← same.1, ← same.2]
        exact flushed.2
      have noBreak : token.isBreak = false ∧ other.isBreak = false := by
        have isOp := flushed.2
        rw [Token.isOp, Bool.and_eq_true, beq_iff_eq] at isOp
        simp [Token.isBreak, ← same.1, isOp.1]
      rw [SourceText.last_after, cursor, Token.behind, Token.behind, noBreak.1, noBreak.2]
      exact Relay.level_after (fits.level flushed.1.2) (spans flushed.2)
        (isOther ▸ Layout.stop_of_comma (isOther ▸ comma))
    obtain ⟨pairs, rfl, ranRest, laid⟩ := ih next _ level' keeps.2
    refine ⟨(token, other) :: pairs, rfl, ?_, ⟨same, fun _ _ => fits, ?_⟩, ?_⟩
    · rw [ran, ranRest]
      rfl
    · intro between noTrivia
      rw [Phase.isTrivia_of_fresh hasToken notFirst kind (by simpa [Relay.seam] using between)]
        at noTrivia
      cases noTrivia
    · rw [Relay.seam_after hasToken kind same.1.symm (SourceText.last_after _ _) cursor]
      exact laid
  | @first phase writer blocks lexeme token rest lexemes isCode fresh rowStart dedents within narrower
      kind text spans ahead _ ih =>
    have kinds : ∀ block ∈ blocks, block.kind = .dedent := fun block member =>
      (dedents block member).1
    have stops : ∀ block ∈ blocks, block.kind = .dedent ∧ block.stop = token.start :=
      fun block member => ⟨(dedents block member).1, (dedents block member).2.2⟩
    have indents : (blocks.foldl SourceText.enter writer).indents =
        writer.indents.drop blocks.length := by rw [SourceText.foldl_enter_dedents stops]
    have hasToken : lexeme.kind.hasToken = true := by simp [Lexeme.Kind.hasToken, isCode]
    obtain ⟨noLayout, significant, _, freshAfter⟩ := Phase.traits hasToken kind
    rw [SourceText.keepsMargins_dedents kinds, SourceText.keepsMargins_token noLayout,
      ← freshAfter, Bool.and_eq_true, fresh, significant, isCode] at keeps
    have settles := relay.settles_closing fresh rowStart indents
      (SourceText.last_foldl_enter_le stops ahead) within narrower (by simpa using keeps.1)
    obtain ⟨other, behind, same, -, cursor, next, ran⟩ :=
      relay.readsBack_first isCode fresh kind text rfl (fun indent member =>
        relay.spaces indent (List.mem_of_mem_drop (indents ▸ member))) settles lexemes
    obtain ⟨pairs, rfl, ranRest, laid⟩ := ih next false (by rintro ⟨⟩) keeps.2
    rw [Relay.seam_code isCode kind same.1.symm (SourceText.last_after _ _) cursor] at laid
    let place := (layout.cross ((blocks.foldl SourceText.enter writer).pad token)).cursor
    refine ⟨closings blocks place ++ (token, other) :: pairs, ?_, ?_, ?_⟩
    · rw [List.map_append, map_fst_closings]
      rfl
    · rw [ran, ranRest, List.map_append, map_snd_closings]
      rfl
    · refine Seam.laid_first (by simp [Relay.seam, fresh]) (by simp [Relay.seam, rowStart]) ?_ same
        (significant.trans isCode) laid
      intro pair member
      obtain ⟨dedent, sameBlock⟩ := same_of_mem_closings
        (fun block member => ⟨(dedents block member).1, (dedents block member).2.1⟩) pair member
      exact ⟨by simp [Token.isLayout, dedent], sameBlock⟩
  | @opened phase writer block lexeme token rest lexemes isCode fresh rowStart indent spaces deeper
      kind text spans ahead _ ih =>
    have hasToken : lexeme.kind.hasToken = true := by simp [Lexeme.Kind.hasToken, isCode]
    obtain ⟨noLayout, significant, _, freshAfter⟩ := Phase.traits hasToken kind
    have isLayout : block.isLayout = true := by simp [Token.isLayout, indent]
    rw [SourceText.keepsMargins, if_neg (by simp [indent]), if_pos isLayout, indent,
      SourceText.keepsMargins_token noLayout, ← freshAfter, Bool.and_eq_true, fresh, significant,
      isCode] at keeps
    obtain ⟨opening, isIndent, sameText, settles⟩ := relay.settles_opening fresh rowStart indent
      deeper ahead (by simpa using keeps.1)
    have allSpaces : ∀ other ∈ (writer.enter block).indents,
        other.toList.all Lexeme.isSpace = true := by
      rw [SourceText.enter_indent indent, List.forall_mem_cons]
      exact ⟨spaces, relay.spaces⟩
    obtain ⟨other, behind, same, -, cursor, next, ran⟩ :=
      relay.readsBack_first isCode fresh kind text rfl allSpaces settles lexemes
    obtain ⟨pairs, rfl, ranRest, laid⟩ := ih next false (by rintro ⟨⟩) keeps.2
    rw [Relay.seam_code isCode kind same.1.symm (SourceText.last_after _ _) cursor] at laid
    refine ⟨[(block, opening)] ++ (token, other) :: pairs, rfl, ?_, ?_⟩
    · rw [ran, ranRest]
      rfl
    · refine Seam.laid_first (by simp [Relay.seam, fresh]) (by simp [Relay.seam, rowStart]) ?_ same
        (significant.trans isCode) laid
      rw [List.forall_mem_singleton]
      exact ⟨isLayout, indent.trans isIndent.symm, sameText.symm⟩
  | @ended phase writer blocks stop closed fresh dedents size isStop noText =>
    obtain ⟨place, finished⟩ := Layout.finish_of_depth (relay.inPhase.depth.trans closed)
    rw [relay.inPhase.line, fresh, ← relay.size, ← size] at finished
    obtain ⟨pairs, olds, news, laid⟩ := laid_ending place dedents isStop noText
    refine ⟨pairs, olds, ?_, laid _⟩
    rw [news]
    exact finished
  | @cutOff phase writer token blocks stop closed fresh kind text ahead dedents size isStop noText =>
    have isGap := (SourceText.isPad_pad relay.spaces token).isGap
    have depth : (layout.cross (writer.pad token)).depth = 0 := by
      rw [Layout.depth_cross, relay.inPhase.depth, closed]
    obtain ⟨place, finished⟩ := Layout.finish_of_depth depth
    rw [Layout.lineHasCode_cross, relay.inPhase.line, fresh, Layout.blocks_cross, ← relay.size,
      ← size] at finished
    obtain ⟨pairs, olds, news, laid⟩ := laid_ending place dedents isStop noText
    let other : Token := ⟨.newline, "", (layout.cross (writer.pad token)).cursor,
      (layout.cross (writer.pad token)).cursor.right 1⟩
    have ran := Layout.run_gap isGap layout []
    rw [List.append_nil] at ran
    refine ⟨(token, other) :: pairs, ?_, ?_, ⟨⟨kind, text⟩, fun _ _ => ?_, ?_⟩, laid _⟩
    · rw [List.map_cons, olds]
      rfl
    · rw [ran, List.map_cons, news]
      exact finished
    · exact relay.fits level ahead rfl
    · intro between
      simp [Relay.seam, fresh] at between

end DeferredDefaults
