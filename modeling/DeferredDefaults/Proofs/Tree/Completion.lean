import DeferredDefaults.Proofs.Token.Nesting
import DeferredDefaults.Proofs.Tree.Coverage

/-!
Nested tokens are read to their end. The reader has as many blocks open as the tokens, so it never
misses the end of a line, of a block or of the text: it takes all tokens up to the end marker, or
something is wrong with a statement of its own.
-/

set_option autoImplicit false
set_option relaxedAutoImplicit false

namespace DeferredDefaults

/-- Causes that find the end of a line, of a block or of the text where it must not be. -/
def SyntaxFault.earlyEnds : List SyntaxFault :=
  [.unexpectedInputEnd, .unexpectedInputEndInBlock, .unexpectedLineEnd, .unexpectedBlockEnd]

def Finishes {α : Type} (result : Except Fault α) : Prop :=
  ∀ cause ∈ SyntaxFault.earlyEnds, ∀ place, result ≠ .error (.parse cause place)

namespace Finishes

variable {α β : Type}

private theorem ok (value : α) : Finishes (.ok value) := nofun

private theorem error {cause : SyntaxFault} (other : cause ∉ SyntaxFault.earlyEnds)
    (place : Position) :
    Finishes (.error (.parse cause place) : Except Fault α) := by
  rintro early isEarly _ ⟨⟩
  exact other isEarly

private theorem bind {first : Except Fault α} {next : α → Except Fault β}
    (finishes : Finishes first) (after : ∀ value, first = .ok value → Finishes (next value)) :
    Finishes (first >>= next) := by
  intro cause early place failed
  cases first with
  | error fault =>
    cases failed
    exact finishes cause early place rfl
  | ok value => exact after value rfl cause early place failed

private theorem foldlM {step : β → α → Except Fault β}
    (finishes : ∀ state item, Finishes (step state item)) (items : List α) (state : β) :
    Finishes (items.foldlM step state) := by
  induction items generalizing state with
  | nil => exact ok _
  | cons item rest ih => exact (finishes state item).bind fun next _ => ih next

end Finishes

namespace Parameters

private theorem finishes_readDefault (kind : Parameter.Kind)
    (default : Option (Token × List Token)) :
    Finishes (readDefault kind default) := by
  unfold readDefault
  split
  · exact .ok _
  · split
    · exact .error (by decide) _
    · split
      · exact .error (by decide) _
      · exact .ok _

private theorem finishes_parameter (reading : Reading) (raw : RawItem) (position : Position) :
    Finishes (reading.parameter raw position) := by
  unfold Reading.parameter
  simp only
  split
  · exact .error (by decide) _
  · split
    · exact .error (by decide) _
    · split
      · exact .error (by decide) _
      · refine (finishes_readDefault _ _).bind fun default _ => ?_
        split
        · exact .error (by decide) _
        · exact .ok _

private theorem finishes_step (function : Position) (reading : Reading) (raw : RawItem) :
    Finishes (reading.step function raw) := by
  unfold Reading.step
  split
  · exact .error (by decide) _
  · split
    · split
      · exact .error (by decide) _
      · exact .ok _
    · split
      · exact .ok _
      · exact (finishes_parameter _ _ _).bind fun _ _ => .ok _

end Parameters

namespace Header

private theorem finishes_typeParameters (start : Position) (tokens : List Token) :
    Finishes (typeParameters start tokens) := by
  unfold typeParameters
  split
  · exact .ok _
  · split
    · split
      · exact .ok _
      · exact .error (by decide) _
    · exact .ok _

private theorem finishes_signature (start : Position) (tokens : List Token) :
    Finishes (signature start tokens) := by
  unfold signature
  split
  · exact .error (by decide) _
  · split
    · split
      · exact .error (by decide) _
      · split
        · exact .error (by decide) _
        · refine Finishes.bind ?_ fun _ _ => .ok _
          exact (Finishes.foldlM (Parameters.finishes_step start) _ _).bind fun _ _ => .ok _
    · exact .error (by decide) _

private theorem finishes_read (first : Token) (more : List Token) :
    Finishes (Header.read first more) := by
  unfold Header.read
  simp only
  split
  · exact .error (by decide) _
  · split
    · exact .error (by decide) _
    · exact (finishes_typeParameters _ _).bind fun _ _ =>
        (finishes_signature _ _).bind fun _ _ => .ok _

end Header

/-- The number of open blocks behind a row, `blocks` being open in front of it. -/
def Row.blocksAfter : Row → (blocks : Nat) → Option Nat
  | .trivia _ _, blocks | .line _ _, blocks => some blocks
  | .indent _, blocks => some (blocks + 1)
  | .dedent _, blocks + 1 => some blocks
  | _, _ => none

/-- The rows close `blocks` open blocks in front of the end marker, and none of them is broken. -/
inductive Row.Nested : (blocks : Nat) → List Row → Prop
  | stop {token : Token} {rest : List Row} : Row.Nested 0 (.stop token :: rest)
  | row {blocks inner : Nat} {row : Row} {rest : List Row} : row.blocksAfter blocks = some inner →
      Row.Nested inner rest → Row.Nested blocks (row :: rest)

namespace Row

def Begun.isLine : Begun → Bool
  | .line _ _ => true
  | _ => false

private theorem nested_ended {begun : Begun} {blocks : Nat} {rows : List Row}
    (nested : Row.Nested blocks rows) : Row.Nested blocks (begun.ended ++ rows) := by
  cases begun with
  | nothing | line => exact nested
  | trivia first reversed => exact .row rfl nested

private theorem isLine_addTrivia {begun : Begun} (between : begun.isLine = false) (token : Token) :
    (begun.addTrivia token).isLine = false := by
  cases begun with
  | nothing | trivia => rfl
  | line => cases between

private theorem nested_gather {blocks : Nat} {inLine : Bool} {tokens : List Token}
    (nested : DeferredDefaults.Nested blocks inLine tokens) {begun : Begun}
    (isLine : begun.isLine = inLine) : Row.Nested blocks (gather begun tokens) := by
  have between : ∀ {begun : Begun}, begun.isLine = false →
      ∀ first reversed, begun = .line first reversed → False := by
    rintro begun isLine first reversed rfl
    cases isLine
  induction nested generalizing begun with
  | stop isStop =>
    rw [gather, isStop]
    · exact nested_ended .stop
    · exact between isLine
  | indent isIndent _ _ ih =>
    rw [gather, isIndent]
    · exact nested_ended (.row rfl (ih rfl))
    · exact between isLine
  | dedent isDedent _ _ ih =>
    rw [gather, isDedent]
    · exact nested_ended (.row rfl (ih rfl))
    · exact between isLine
  | newline isNewline _ ih =>
    cases begun with
    | line first reversed =>
      rw [gather, isNewline]
      exact .row rfl (ih rfl)
    | nothing | trivia => cases isLine
  | @trivia _ inLine token _ isTrivia _ ih =>
    cases inLine with
    | true =>
      cases begun with
      | line first reversed =>
        rcases Token.kind_of_isTrivia isTrivia with kind | kind <;>
        · rw [gather, kind]
          exact ih rfl
      | nothing | trivia => cases isLine
    | false =>
      rcases Token.kind_of_isTrivia isTrivia with kind | kind <;>
      · rw [gather, kind]
        · exact ih (isLine_addTrivia isLine token)
        · exact between isLine
  | @code _ inLine token _ isCode _ ih =>
    cases inLine with
    | true =>
      cases begun with
      | line first reversed =>
        rcases Token.kind_of_isSignificant isCode with kind | kind | kind | kind | kind <;>
        · rw [gather, kind]
          exact ih rfl
      | nothing | trivia => cases isLine
    | false =>
      rcases Token.kind_of_isSignificant isCode with kind | kind | kind | kind | kind <;>
      · rw [gather, kind]
        · exact nested_ended (ih rfl)
        · exact between isLine

end Row

namespace Reader

variable {reader next : Reader}

private theorem finishes_line (reader : Reader) (first : Token) (more : List Token) :
    Finishes (reader.line first more) := by
  unfold line
  split
  · refine (Header.finishes_read first more).bind fun _ _ => ?_
    simp only
    split
    · exact .ok _
    · exact .ok _
  · split
    · exact .ok _
    · exact .ok _

private theorem frames_line {first : Token} {more : List Token}
    (read : reader.line first more = .ok next) : next.frames = reader.frames := by
  unfold line at read
  split at read
  · obtain ⟨⟨header, behind⟩, -, read⟩ := bind_eq_ok.1 read
    simp only at read
    split at read
    · cases read
      rfl
    · cases read
      rfl
  · split at read
    · cases read
      rfl
    · cases read
      rfl

/-- A row where a statement may begin: no end comes too early, and the blocks of the reader are those
of the rows. -/
private theorem finishes_statement {row : Row} {inner : Nat}
    (after : row.blocksAfter reader.frames.length = some inner) :
    Finishes (reader.statement row) ∧
      ∀ next, reader.statement row = .ok next → next.frames.length = inner := by
  cases row with
  | trivia first more =>
    cases after
    refine ⟨.ok _, ?_⟩
    rintro next ⟨⟩
    rfl
  | line first more =>
    cases after
    refine ⟨finishes_line reader first more, fun next read => ?_⟩
    rw [frames_line read]
  | indent token =>
    exact ⟨.error (by decide) _, nofun⟩
  | dedent token =>
    unfold statement
    cases frames : reader.frames with
    | nil =>
      rw [frames] at after
      cases after
    | cons frame outer =>
      rw [frames] at after
      cases after
      refine ⟨.ok _, ?_⟩
      rintro next ⟨⟩
      rfl
  | stop | broken => cases after

private theorem finishes_block {opener : Opener} {leading : List Token} {row : Row} {inner : Nat}
    (after : row.blocksAfter reader.frames.length = some inner) :
    Finishes (reader.block opener leading row) ∧
      ∀ next, reader.block opener leading row = .ok next → next.frames.length = inner := by
  cases row with
  | trivia first more =>
    cases after
    refine ⟨.ok _, ?_⟩
    rintro next ⟨⟩
    rfl
  | indent token =>
    cases after
    refine ⟨.ok _, ?_⟩
    rintro next ⟨⟩
    rfl
  | line | dedent => exact ⟨.error (by decide) _, nofun⟩
  | stop | broken => cases after

private theorem finishes_step {row : Row} {inner : Nat}
    (after : row.blocksAfter reader.frames.length = some inner) :
    Finishes (reader.step row) ∧
      ∀ next, reader.step row = .ok next → next.frames.length = inner := by
  unfold step
  cases reader.waiting with
  | none =>
    obtain ⟨finishes, frames⟩ := finishes_statement after
    refine ⟨finishes.bind fun _ _ => .ok _, fun next stepped => ?_⟩
    obtain ⟨read, found, stepped⟩ := bind_eq_ok.1 stepped
    cases stepped
    exact frames read found
  | some waiting =>
    obtain ⟨opener, leading⟩ := waiting
    obtain ⟨finishes, frames⟩ := finishes_block after
    refine ⟨finishes.bind fun _ _ => .ok _, fun next stepped => ?_⟩
    obtain ⟨read, found, stepped⟩ := bind_eq_ok.1 stepped
    cases stepped
    exact frames read found

private theorem finishes_run {rows : List Row} (nested : Row.Nested reader.frames.length rows) :
    Finishes (reader.run rows) := by
  generalize size : reader.frames.length = blocks at nested
  induction nested generalizing reader with
  | @stop token rest =>
    have noFrames : reader.frames = [] := List.length_eq_zero_iff.1 size
    rw [run]
    cases waits : reader.waiting with
    | none =>
      simp only [atStop, waits, noFrames, Option.isNone_none, List.isEmpty_nil, Bool.and_self,
        if_true]
      exact .ok _
    | some waiting =>
      simp only [atStop, waits, Option.isNone_some, Bool.false_and, Bool.false_eq_true, if_false]
      refine Finishes.bind ?_ fun next stepped => ?_
      · simp only [step, waits]
        exact (Finishes.error (by decide) _).bind fun _ _ => .ok _
      · simp only [step, waits] at stepped
        obtain ⟨read, found, -⟩ := bind_eq_ok.1 stepped
        cases found
  | @row blocks inner row rest after _ ih =>
    rw [run]
    split
    · exact .ok _
    · rw [← size] at after
      obtain ⟨finishes, frames⟩ := finishes_step after
      exact finishes.bind fun next stepped => ih (frames next stepped)

end Reader

private theorem Line.IsWhole.ne_endMarker {line : List Token} (whole : Line.IsWhole line) :
    ∀ token ∈ line, token.kind ≠ .endMarker := by
  obtain ⟨code, stop, rfl, ends, inLine, -⟩ := whole
  rw [List.forall_mem_append, List.forall_mem_singleton]
  refine ⟨fun token member isStop => ?_, by simp [ends]⟩
  have noLayout := (inLine token member).2
  simp [Token.isLayout, isStop] at noLayout

private theorem Margin.Covers.ne_endMarker {margin : Margin} {tokens : List Token}
    (covers : margin.Covers tokens) : ∀ token ∈ tokens, token.kind ≠ .endMarker := by
  obtain ⟨indent, -, isIndent, trivia, rfl⟩ := covers
  rw [List.forall_mem_append, List.forall_mem_singleton]
  refine ⟨fun token member isStop => ?_, by simp [isIndent]⟩
  have isTrivia := trivia token member
  simp [Token.isTrivia, isStop] at isTrivia

mutual

theorem Stmt.ne_endMarker : (stmt : Stmt) → {tokens : List Token} → stmt.Covers tokens →
    ∀ token ∈ tokens, token.kind ≠ .endMarker
  | .trivia trivia, tokens, covers => by
    obtain ⟨rfl, areTrivia⟩ := covers
    intro token member isStop
    have isTrivia := areTrivia token member
    simp [Token.isTrivia, isStop] at isTrivia
  | .simple line, tokens, covers => by
    obtain ⟨rfl, whole⟩ := covers
    exact whole.ne_endMarker
  | .compound header margin body, tokens, covers => by
    obtain ⟨indent, inner, dedent, rfl, whole, opens, inside, isDedent⟩ := covers
    simp only [List.forall_mem_append, List.forall_mem_singleton]
    exact ⟨⟨⟨whole.ne_endMarker, opens.ne_endMarker⟩, bodyNe_endMarker body inside⟩, by simp [isDedent]⟩
  | .function header margin body, tokens, covers => by
    obtain ⟨line, indent, inner, dedent, rfl, whole, -, opens, inside, isDedent⟩ := covers
    simp only [List.forall_mem_append, List.forall_mem_singleton]
    exact ⟨⟨⟨whole.ne_endMarker, opens.ne_endMarker⟩, bodyNe_endMarker body inside⟩, by simp [isDedent]⟩
  | .inlineFunction header suite, tokens, covers => covers.1.ne_endMarker
  | .prologue _, _, covers | .runtimeImport, _, covers => covers.elim

theorem bodyNe_endMarker : (body : List Stmt) → {tokens : List Token} → BodyCovers body tokens →
    ∀ token ∈ tokens, token.kind ≠ .endMarker
  | [], tokens, covers => by
    cases covers
    exact nofun
  | stmt :: rest, tokens, covers => by
    obtain ⟨front, back, rfl, coversFirst, coversRest⟩ := covers
    rw [List.forall_mem_append]
    exact ⟨stmt.ne_endMarker coversFirst, bodyNe_endMarker rest coversRest⟩

end

namespace Program

/-- A tree read from nested tokens covers them all: nothing is left but the end marker. -/
theorem covers_of_nested {tokens : List Token} (nested : Nested 0 false tokens)
    {program : Program} (read : Program.ofTokens tokens = .ok program) :
    ∃ front stop, tokens = front ++ [stop] ∧ stop.kind = .endMarker ∧
      BodyCovers program.body front := by
  obtain ⟨front, back, covers, isRest, rfl⟩ := covers_ofTokens read
  cases back with
  | nil =>
    obtain ⟨body, stop, split, isStop, -⟩ := nested.ended
    rw [List.append_nil] at split
    exact absurd isStop (bodyNe_endMarker _ covers stop (by rw [split]; simp))
  | cons stop others =>
    have isStop := isRest stop rfl
    obtain ⟨inner, last, -⟩ := nested.drop (List.cons_ne_nil _ _)
    have none : others = [] := by
      generalize front.foldl Token.inLine false = begun at last
      cases last with
      | stop => rfl
      | indent kind | dedent kind | newline kind => simp [isStop] at kind
      | trivia trivia => simp [Token.isTrivia, isStop] at trivia
      | code code => simp [Token.isSignificant, Token.isLayout, isStop] at code
    exact ⟨front, stop, by rw [none], isStop, covers⟩

private theorem finishes_ofTokens {tokens : List Token} (nested : Nested 0 false tokens) :
    Finishes (Program.ofTokens tokens) := by
  have rows : Row.Nested ({} : Reader).frames.length (Row.ofTokens tokens) :=
    Row.nested_gather nested rfl
  exact (Reader.finishes_run rows).bind fun _ _ => .ok _

end Program

/-- Reading takes all tokens up to the end marker, or it fails for another reason than an end that
comes too early. -/
structure Program.ReadsToEnd (stream : List Token) : Prop where
  covers : ∀ program, Program.ofTokens stream = .ok program → ∃ front stop,
    stream = front ++ [stop] ∧ stop.kind = .endMarker ∧ BodyCovers program.body front
  finishes : ∀ cause ∈ SyntaxFault.earlyEnds, ∀ place,
    Program.ofTokens stream ≠ .error (.parse cause place)

/-- The tokens of a text are well nested; between any two of its lexemes the open blocks, those that
the tokens so far have opened, are in order; and with or without marks the tokens are read to their
end. -/
theorem tokenize_wellNested {source : String} {tokens : List Token}
    (tokenized : tokenize source = .ok tokens) :
    WellNested tokens ∧
    (∀ front back, Lexeme.split source.toList = front ++ back → ∃ before after layout,
      Layout.steps {} front = .ok (before, layout) ∧ layout.run back = .ok after ∧
        tokens = before ++ after ∧ layout.blocks = before.foldl Layout.widthsAfter [] ∧
        layout.Stacked) ∧
    Program.ReadsToEnd tokens ∧ ∀ marker, Program.ReadsToEnd (Sigil.mark marker tokens) := by
  have nested : Nested 0 false tokens := Layout.nested_run Layout.stacked_initial tokenized
  have read : ∀ {stream : List Token}, Nested 0 false stream → Program.ReadsToEnd stream :=
    fun nested => ⟨fun _ => Program.covers_of_nested nested, Program.finishes_ofTokens nested⟩
  refine ⟨nested.wellNested, ?_, read nested, fun marker => read (Sigil.nested_mark marker nested)⟩
  intro front back split
  rw [tokenize, split] at tokenized
  obtain ⟨before, after, layout, steps, ran, joined, stacked, widths⟩ :=
    Layout.exists_stacked Layout.stacked_initial tokenized
  exact ⟨before, after, layout, steps, ran, joined, widths, stacked⟩

/-- Two blocks that close at once, a line that begins behind a continuation, and a closing bracket
too many. -/
def steppedSource : String :=
  "if a:\n  def f(b => (c)):\n\td\n  # e\n\\\n  if g: h)\n\n\n  if i:\n    j"

theorem tokenize_wellNested_stepped : ∃ tokens, tokenize steppedSource = .ok tokens ∧
    tokens.countP (·.kind == .indent) = 3 ∧ WellNested tokens ∧
    (∀ front back, Lexeme.split steppedSource.toList = front ++ back → ∃ before after layout,
      Layout.steps {} front = .ok (before, layout) ∧ layout.run back = .ok after ∧
        tokens = before ++ after ∧ layout.blocks = before.foldl Layout.widthsAfter [] ∧
        layout.Stacked) ∧
    Program.ReadsToEnd tokens ∧ ∀ marker, Program.ReadsToEnd (Sigil.mark marker tokens) := by
  have indents : ((tokenize steppedSource).map fun tokens =>
      tokens.countP (·.kind == .indent)).toOption = some 3 := by decide +kernel
  cases tokenized : tokenize steppedSource with
  | error fault =>
    rw [tokenized] at indents
    cases indents
  | ok tokens =>
    rw [tokenized] at indents
    exact ⟨tokens, rfl, Option.some.inj indents, tokenize_wellNested tokenized⟩

end DeferredDefaults
