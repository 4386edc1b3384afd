import DeferredDefaults.Proofs.Success
import DeferredDefaults.Proofs.Token.Spacing

/-!
One step of layout, for a lexeme that is no gap: its token, and the layout behind it. Only the
first lexeme of code on a logical line does more: it opens or closes blocks before its token.
-/

set_option autoImplicit false
set_option relaxedAutoImplicit false

namespace DeferredDefaults

/-- The place behind a token. A line break leads to the next row. -/
def Token.behind (token : Token) : Position :=
  if token.isBreak then token.stop.nextRow else token.stop

def Lexeme.Kind.isCode : Lexeme.Kind → Bool
  | .string | .number | .name | .operator | .stray => true
  | _ => false

def Lexeme.Kind.hasToken (kind : Lexeme.Kind) : Bool :=
  kind.isCode || kind == .comment || kind == .lineBreak

namespace Layout

def kindOf (depth : Nat) (fresh : Bool) : Lexeme.Kind → Kind
  | .comment => .comment
  | .lineBreak => if 0 < depth ∨ fresh = true then .nl else .newline
  | kind => codeKind kind

def tokenFor (layout : Layout) (lexeme : Lexeme) : Token :=
  match lexeme.kind with
  | .comment => layout.tokenAt .comment lexeme.text
  | .lineBreak => (layout.lineBreak lexeme.text).1
  | kind => layout.tokenAt (codeKind kind) lexeme.text

/-- The layout behind the token of a lexeme. -/
def behind (layout : Layout) (lexeme : Lexeme) : Layout :=
  match lexeme.kind with
  | .comment => layout.past lexeme.text
  | .lineBreak => (layout.lineBreak lexeme.text).2
  | _ =>
    { layout.past lexeme.text with
      depth := Token.depthAfter layout.depth (layout.tokenFor lexeme)
      atLineStart := false
      lineHasCode := true }

variable {layout : Layout} {lexeme : Lexeme}

theorem step_of_not_first (hasToken : lexeme.kind.hasToken = true)
    (notFirst : (layout.atLineStart && lexeme.kind.isCode) = false) :
    layout.step lexeme = .ok ([layout.tokenFor lexeme], layout.behind lexeme) := by
  obtain ⟨kind, text⟩ := lexeme
  cases kind with
  | comment => rfl
  | lineBreak => rfl
  | space => cases hasToken
  | continuation => cases hasToken
  | openQuote => cases hasToken
  | string | number | name | operator | stray =>
    have later : layout.atLineStart = false := by simpa [Lexeme.Kind.isCode] using notFirst
    simp only [step, code, later]
    rfl

theorem step_of_first (isCode : lexeme.kind.isCode = true) (fresh : layout.atLineStart = true) :
    layout.step lexeme = layout.settle >>= fun settled =>
      .ok (settled.1 ++ [settled.2.tokenFor lexeme], settled.2.behind lexeme) := by
  obtain ⟨kind, text⟩ := lexeme
  cases kind with
  | comment => cases isCode
  | lineBreak => cases isCode
  | space => cases isCode
  | continuation => cases isCode
  | openQuote => cases isCode
  | string | number | name | operator | stray =>
    simp only [step, code, fresh, if_true]
    rfl

section Facts

variable (hasToken : lexeme.kind.hasToken = true)

theorem start_tokenFor (layout : Layout) (lexeme : Lexeme) :
    (layout.tokenFor lexeme).start = layout.cursor := by
  unfold tokenFor
  split <;> rfl

theorem text_tokenFor (layout : Layout) (lexeme : Lexeme) :
    (layout.tokenFor lexeme).text = String.ofList lexeme.text := by
  unfold tokenFor
  split <;> rfl

theorem kind_tokenFor (line : layout.lineHasCode = !layout.atLineStart) (lexeme : Lexeme) :
    (layout.tokenFor lexeme).kind = kindOf layout.depth layout.atLineStart lexeme.kind := by
  unfold tokenFor kindOf
  split
  · rfl
  · simp [lineBreak, line]
  · rfl

theorem start_le_stop_tokenFor (layout : Layout) (lexeme : Lexeme) :
    (layout.tokenFor lexeme).start ≤ (layout.tokenFor lexeme).stop := by
  unfold tokenFor
  split
  · exact Position.le_advance _ _
  · exact .inr ⟨rfl, Nat.le_add_right _ _⟩
  · exact Position.le_advance _ _

theorem isBreak_tokenFor (layout : Layout) (lexeme : Lexeme) :
    (layout.tokenFor lexeme).isBreak = (lexeme.kind == .lineBreak) := by
  obtain ⟨kind, text⟩ := lexeme
  cases kind with
  | lineBreak =>
    simp only [tokenFor, lineBreak, Token.isBreak]
    split <;> rfl
  | comment | space | continuation | string | openQuote | number | name | operator | stray => rfl

theorem isLayout_tokenFor (layout : Layout) (lexeme : Lexeme) :
    (layout.tokenFor lexeme).isLayout = false := by
  obtain ⟨kind, text⟩ := lexeme
  cases kind with
  | lineBreak =>
    simp only [tokenFor, lineBreak, Token.isLayout]
    split <;> rfl
  | comment | space | continuation | openQuote => rfl
  | string | number | name | operator | stray => rfl

theorem isOp_tokenFor (layout : Layout) (lexeme : Lexeme) (op : String) :
    (layout.tokenFor lexeme).isOp op =
      (lexeme.kind == .operator && String.ofList lexeme.text == op) := by
  obtain ⟨kind, text⟩ := lexeme
  cases kind with
  | lineBreak =>
    simp only [tokenFor, lineBreak, Token.isOp]
    split <;> rfl
  | comment | space | continuation | string | openQuote | number | name | operator | stray => rfl

theorem eq_of_isOp {op : String} (isOp : (layout.tokenFor lexeme).isOp op = true) :
    lexeme = ⟨.operator, op.toList⟩ := by
  rw [isOp_tokenFor, Bool.and_eq_true, beq_iff_eq, beq_iff_eq] at isOp
  obtain ⟨kind, text⟩ := lexeme
  simp only at isOp
  rw [isOp.1, ← isOp.2, String.toList_ofList]

theorem stop_of_comma (comma : (layout.tokenFor lexeme).isOp "," = true) :
    (layout.tokenFor lexeme).stop = (layout.tokenFor lexeme).start.right 1 := by
  rw [eq_of_isOp comma]
  rfl

theorem stop_row_of_isBreak (isBreak : (layout.tokenFor lexeme).isBreak = true) :
    (layout.tokenFor lexeme).stop.row = (layout.tokenFor lexeme).start.row := by
  rw [isBreak_tokenFor, beq_iff_eq] at isBreak
  simp only [tokenFor, isBreak]
  rfl

theorem cursor_behind (layout : Layout) (lexeme : Lexeme) :
    (layout.behind lexeme).cursor = (layout.tokenFor lexeme).behind := by
  rw [Token.behind, isBreak_tokenFor]
  obtain ⟨kind, text⟩ := lexeme
  cases kind with
  | lineBreak => rfl
  | comment | space | continuation | string | openQuote | number | name | operator | stray => rfl

theorem blocks_behind (layout : Layout) (lexeme : Lexeme) :
    (layout.behind lexeme).blocks = layout.blocks := by
  unfold behind
  split <;> rfl

end Facts

@[simp] theorem tokenFor_blocks (layout : Layout) (blocks : List Nat) (lexeme : Lexeme) :
    { layout with blocks := blocks }.tokenFor lexeme = layout.tokenFor lexeme := by
  unfold tokenFor
  split <;> rfl

/-- The token that opens a block at the cursor. -/
def opening (layout : Layout) : Token :=
  ⟨.indent, String.ofList layout.margin, ⟨layout.cursor.row, 0⟩, layout.cursor⟩

def closed (layout : Layout) : List Nat := layout.blocks.takeWhile (width layout.margin < ·)

def kept (layout : Layout) : List Nat := layout.blocks.dropWhile (width layout.margin < ·)

/-- Where settling leads: it opens one block, or closes some and returns to an open width. -/
theorem settle_eq_ok {tokens : List Token} {next : Layout}
    (settled : layout.settle = .ok (tokens, next)) :
    (layout.top < width layout.margin ∧ tokens = [layout.opening] ∧
      next = { layout with blocks := width layout.margin :: layout.blocks }) ∨
    (layout.kept.headD 0 = width layout.margin ∧
      tokens = layout.closed.map (fun _ => dedentAt layout.cursor) ∧
      next = { layout with blocks := layout.kept }) := by
  unfold settle at settled
  simp only at settled
  split at settled
  · next deeper =>
    cases settled
    exact .inl ⟨deeper, rfl, rfl⟩
  · split at settled
    · next returns =>
      cases settled
      exact .inr ⟨returns, rfl, rfl⟩
    · cases settled

theorem tokenFor_settle {tokens : List Token} {settled : Layout}
    (settles : layout.settle = .ok (tokens, settled)) (lexeme : Lexeme) :
    settled.tokenFor lexeme = layout.tokenFor lexeme := by
  rcases settle_eq_ok settles with ⟨_, _, rfl⟩ | ⟨_, _, rfl⟩
  · exact tokenFor_blocks _ _ _
  · exact tokenFor_blocks _ _ _

/-- All that a step can do: it passes a gap, gives one token, or begins a logical line and opens or
closes blocks in front of its token. -/
theorem step_eq_ok {own : List Token} {next : Layout}
    (stepped : layout.step lexeme = .ok (own, next)) :
    ((lexeme.kind = .space ∨ lexeme.kind = .continuation) ∧ own = [] ∧
      next = layout.pass lexeme) ∨
    (lexeme.kind.hasToken = true ∧ (layout.atLineStart && lexeme.kind.isCode) = false ∧
      own = [layout.tokenFor lexeme] ∧ next = layout.behind lexeme) ∨
    (layout.atLineStart = true ∧ lexeme.kind.isCode = true ∧
      ∃ blocks settled, layout.settle = .ok (blocks, settled) ∧
        own = blocks ++ [layout.tokenFor lexeme] ∧ next = settled.behind lexeme) := by
  have passed : (lexeme.kind = .space ∨ lexeme.kind = .continuation) ∨
      lexeme.kind.hasToken = true := by
    obtain ⟨kind, text⟩ := lexeme
    cases kind with
    | space => exact .inl (.inl rfl)
    | continuation => exact .inl (.inr rfl)
    | openQuote => cases stepped
    | lineBreak | comment | string | number | name | operator | stray => exact .inr rfl
  rcases passed with gap | hasToken
  · refine .inl ⟨gap, ?_⟩
    rcases gap with kind | kind
    · simp only [step, kind] at stepped
      cases stepped
      simp [pass, kind]
    · simp only [step, kind] at stepped
      cases stepped
      simp [pass, kind]
  · cases first : layout.atLineStart && lexeme.kind.isCode with
    | false =>
      rw [step_of_not_first hasToken first] at stepped
      cases stepped
      exact .inr (.inl ⟨hasToken, rfl, rfl, rfl⟩)
    | true =>
      rw [Bool.and_eq_true] at first
      rw [step_of_first first.2 first.1, bind_eq_ok] at stepped
      obtain ⟨⟨blocks, settled⟩, settles, stepped⟩ := stepped
      cases stepped
      refine .inr (.inr ⟨first.1, first.2, blocks, settled, settles, ?_, rfl⟩)
      rw [tokenFor_settle settles]

/-- All that can go wrong with a step: quotes that are not closed, and a line that returns to a
width that is not open. -/
theorem step_eq_error {fault : Fault} (failed : layout.step lexeme = .error fault) :
    (lexeme.kind = .openQuote ∧ fault = .lex .unterminatedString layout.cursor) ∨
      (layout.atLineStart = true ∧ lexeme.kind.isCode = true ∧
        fault = .lex .unmatchedUnindent layout.cursor) := by
  by_cases first : lexeme.kind.isCode = true ∧ layout.atLineStart = true
  · rw [step_of_first first.1 first.2, bind_eq_error] at failed
    rcases failed with failed | ⟨_, _, impossible⟩
    · refine .inr ⟨first.2, first.1, ?_⟩
      simp only [settle] at failed
      split at failed
      · cases failed
      · split at failed
        · cases failed
        · exact (Except.error.inj failed).symm
    · cases impossible
  · have notFirst : (layout.atLineStart && lexeme.kind.isCode) = false := by
      simpa [and_comm] using first
    obtain ⟨kind, text⟩ := lexeme
    cases kind with
    | openQuote => exact .inl ⟨rfl, (Except.error.inj failed).symm⟩
    | space | continuation | comment | lineBreak => cases failed
    | string | number | name | operator | stray =>
      rw [step_of_not_first rfl notFirst] at failed
      cases failed

theorem run_of_error {rest : List Lexeme} {fault : Fault}
    (failed : layout.step lexeme = .error fault) : layout.run (lexeme :: rest) = .error fault := by
  rw [run, failed]
  rfl

theorem run_of_ok {rest : List Lexeme} {own : List Token} {next : Layout}
    (stepped : layout.step lexeme = .ok (own, next)) :
    layout.run (lexeme :: rest) = (next.run rest).map (own ++ ·) := by
  rw [run, stepped]
  rfl

theorem run_eq_error {lexemes : List Lexeme} {fault : Fault}
    (failed : layout.run lexemes = .error fault) : ∃ cause place, fault = .lex cause place := by
  induction lexemes generalizing layout with
  | nil =>
    simp only [run, finish] at failed
    split at failed
    · exact ⟨_, _, (Except.error.inj failed).symm⟩
    · cases failed
  | cons lexeme rest ih =>
    rw [run, bind_eq_error] at failed
    rcases failed with failed | ⟨⟨own, next⟩, -, failed⟩
    · rcases step_eq_error failed with ⟨-, rfl⟩ | ⟨-, -, rfl⟩
      · exact ⟨_, _, rfl⟩
      · exact ⟨_, _, rfl⟩
    · rcases bind_eq_error.1 failed with failed | ⟨_, -, impossible⟩
      · exact ih failed
      · cases impossible

/-- The first token of a run, the blocks that it opens or closes, and the rest of the run. -/
theorem run_cons_eq_ok {tokens : List Token} {rest : List Lexeme}
    (space : lexeme.kind ≠ .space) (continuation : lexeme.kind ≠ .continuation)
    (ran : layout.run (lexeme :: rest) = .ok tokens) :
    lexeme.kind.hasToken = true ∧
    (((layout.atLineStart && lexeme.kind.isCode) = false ∧
      ∃ others, tokens = layout.tokenFor lexeme :: others ∧
        (layout.behind lexeme).run rest = .ok others) ∨
    (layout.atLineStart = true ∧ lexeme.kind.isCode = true ∧
      ∃ blocks settled others, layout.settle = .ok (blocks, settled) ∧
        tokens = blocks ++ layout.tokenFor lexeme :: others ∧
        (settled.behind lexeme).run rest = .ok others)) := by
  rw [run, bind_eq_ok] at ran
  obtain ⟨⟨own, next⟩, step, ran⟩ := ran
  obtain ⟨others, ranRest, joined⟩ := bind_eq_ok.1 ran
  cases joined
  rcases step_eq_ok step with ⟨gap, -⟩ | ⟨hasToken, notFirst, rfl, rfl⟩ |
    ⟨fresh, isCode, blocks, settled, settles, rfl, rfl⟩
  · exact absurd gap (by simp [space, continuation])
  · exact ⟨hasToken, .inl ⟨notFirst, others, rfl, ranRest⟩⟩
  · refine ⟨by simp [Lexeme.Kind.hasToken, isCode], .inr ⟨fresh, isCode, blocks, settled, others,
      settles, ?_, ranRest⟩⟩
    simp

theorem finish_of_depth (closed : layout.depth = 0) : ∃ place : Position, layout.finish =
    .ok ((if layout.lineHasCode then
          [⟨.newline, "", layout.cursor, layout.cursor.right 1⟩] else []) ++
        (List.replicate layout.blocks.length (dedentAt place) ++
          [⟨.endMarker, "", place, place⟩])) := by
  refine ⟨if layout.lineHasCode then layout.cursor.nextRow else ⟨layout.cursor.row, 0⟩, ?_⟩
  rw [finish, if_neg (by omega), ← List.map_const', ← List.append_assoc]

theorem depth_of_finish {tokens : List Token} (finished : layout.finish = .ok tokens) :
    layout.depth = 0 := by
  unfold finish at finished
  split at finished
  · cases finished
  · omega

end Layout

/-- What decides the kind of the next token, places and blocks aside. -/
structure Phase where
  /-- The number of brackets that are open. -/
  depth : Nat := 0
  /-- No code has appeared since the last logical line ended. -/
  fresh : Bool := true
  /-- The last token ended a row, or there is none. -/
  rowStart : Bool := true

namespace Phase

def kindOf (phase : Phase) (kind : Lexeme.Kind) : Kind := Layout.kindOf phase.depth phase.fresh kind

/-- The phase behind the token of a lexeme. -/
def after (phase : Phase) (lexeme : Lexeme) : Phase :=
  match lexeme.kind with
  | .comment => { phase with rowStart := false }
  | .lineBreak =>
    { phase with fresh := phase.fresh || phase.kindOf .lineBreak == .newline, rowStart := true }
  | kind =>
    { depth := Token.depthAfter phase.depth
        ⟨Layout.codeKind kind, String.ofList lexeme.text, .origin, .origin⟩
      fresh := false
      rowStart := false }

theorem rowStart_after (phase : Phase) (lexeme : Lexeme) :
    (phase.after lexeme).rowStart = true ↔ lexeme.kind = .lineBreak := by
  obtain ⟨kind, text⟩ := lexeme
  cases kind <;> simp [after]

end Phase

/-- A layout in a phase. At the start of a row its cursor is in the first column, and on a fresh
line it has no margin yet. -/
structure Layout.InPhase (layout : Layout) (phase : Phase) : Prop where
  depth : layout.depth = phase.depth
  fresh : layout.atLineStart = phase.fresh
  line : layout.lineHasCode = !phase.fresh
  col : phase.rowStart = true → layout.cursor.col = 0
  margin : phase.rowStart = true → phase.fresh = true → layout.margin = []

namespace Layout.InPhase

variable {layout : Layout} {phase : Phase}

theorem kind_tokenFor (inPhase : layout.InPhase phase) (gap : List Lexeme) (lexeme : Lexeme) :
    ((layout.cross gap).tokenFor lexeme).kind = phase.kindOf lexeme.kind := by
  rw [Layout.kind_tokenFor (by simp [inPhase.fresh, inPhase.line]), depth_cross,
    atLineStart_cross, inPhase.depth, inPhase.fresh]
  rfl

theorem depthAfter_congr {token other : Token} (kind : token.kind = other.kind)
    (text : token.text = other.text) (depth : Nat) :
    Token.depthAfter depth token = Token.depthAfter depth other := by
  have isOp : ∀ op, token.isOp op = other.isOp op := by
    intro op
    rw [Token.isOp, Token.isOp, kind, text]
  have opens : token.opensBracket = other.opensBracket := by
    simp only [Token.opensBracket, isOp]
  have closes : token.closesBracket = other.closesBracket := by
    simp only [Token.closesBracket, isOp]
  rw [Token.depthAfter, Token.depthAfter, opens, closes]

theorem behind (inPhase : layout.InPhase phase) (gap : List Lexeme) (blocks : List Nat)
    (lexeme : Lexeme) :
    ({ layout.cross gap with blocks := blocks }.behind lexeme).InPhase (phase.after lexeme) := by
  have depth : (layout.cross gap).depth = phase.depth := (depth_cross layout).trans inPhase.depth
  have fresh : (layout.cross gap).atLineStart = phase.fresh :=
    (atLineStart_cross layout).trans inPhase.fresh
  have line : (layout.cross gap).lineHasCode = !phase.fresh :=
    (lineHasCode_cross layout).trans inPhase.line
  obtain ⟨kind, text⟩ := lexeme
  cases kind with
  | comment => exact ⟨depth, fresh, line, nofun, nofun⟩
  | lineBreak =>
    simp only [Layout.behind, lineBreak, Phase.after, Phase.kindOf, kindOf, depth, fresh, line]
    cases phase.fresh with
    | true => exact ⟨rfl, by simp, by simp, fun _ => rfl, fun _ _ => by simp⟩
    | false =>
      by_cases inside : 0 < phase.depth
      · refine ⟨rfl, by simp [inside], ?_, fun _ => rfl, fun _ => by simp [inside]⟩
        simp only [inside, true_or, if_true, Bool.not_false, Bool.true_and, Bool.false_or]
        rfl
      · exact ⟨rfl, by simp [inside], by simp [inside], fun _ => rfl, fun _ => by simp [inside]⟩
  | space | continuation | string | openQuote | number | name | operator | stray =>
    refine ⟨?_, rfl, rfl, nofun, nofun⟩
    rw [Layout.behind, Phase.after]
    simp only [depth]
    exact depthAfter_congr rfl rfl _

end Layout.InPhase

end DeferredDefaults
