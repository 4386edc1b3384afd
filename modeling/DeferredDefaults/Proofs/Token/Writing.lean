import DeferredDefaults.Proofs.Token.Stepping

/-!
What the writer writes, as lexemes. In front of every token stands a gap that leads from the place
behind the last token to its start; at the start of a row it begins with the indentation of the
block. Tokens that come from a text and have been marked are written without a fault, and the text
is that of the lexemes.
-/

set_option autoImplicit false
set_option relaxedAutoImplicit false

namespace DeferredDefaults

def Lexeme.padBetween (indent : List Char) (last start : Position) : List Lexeme :=
  Lexeme.padOf indent (start.row - last.row)
    (if last.row < start.row then start.col else start.col - last.col)

theorem Lexeme.textOf_padBetween (indent : List Char) (last start : Position) :
    Lexeme.textOf (Lexeme.padBetween indent last start) = indent ++ SourceText.gap last start := by
  rw [padBetween, textOf_padOf, SourceText.gap]
  split <;> simp

theorem Lexeme.padBetween_eq_nil_iff {indent : List Char} {last start : Position}
    (ahead : last ≤ start) :
    Lexeme.padBetween indent last start = [] ↔ indent = [] ∧ start = last := by
  rw [Position.le_iff] at ahead
  rw [padBetween, padOf_eq_nil_iff, Position.ext_iff']
  split
  · constructor
    · rintro ⟨_, _, _⟩
      omega
    · rintro ⟨_, _, _⟩
      omega
  · constructor
    · rintro ⟨empty, _, _⟩
      exact ⟨empty, by omega, by omega⟩
    · rintro ⟨empty, _, _⟩
      exact ⟨empty, by omega, by omega⟩

theorem SourceText.gap_self (place : Position) : gap place place = [] := by
  simp [gap]

theorem SourceText.gap_ne_nil {p q : Position} (ahead : p ≤ q) (further : q ≠ p) :
    gap p q ≠ [] := by
  rw [Position.le_iff] at ahead
  rw [Ne, Position.ext_iff'] at further
  intro none
  have length := congrArg List.length none
  simp only [gap] at length
  split at length <;> simp at length <;> omega

namespace SourceText

def indentFor (writer : SourceText) (token : Token) : List Char :=
  if token.isBreak then [] else (writer.lead token).1

def reached (writer : SourceText) (token : Token) : Position :=
  if token.isBreak then writer.last else (writer.lead token).2.last

def pad (writer : SourceText) (token : Token) : List Lexeme :=
  Lexeme.padBetween (writer.indentFor token) (writer.reached token) token.start

def after (writer : SourceText) (token : Token) : SourceText :=
  if token.isBreak then { writer with lineStart := true, last := token.behind }
  else { (writer.lead token).2 with last := token.behind }

variable {writer : SourceText} {token : Token}

private theorem place_eq (ahead : writer.last ≤ token.start) :
    writer.place token = .ok (gap writer.last token.start ++ token.text.toList,
      { writer with last := token.behind }) := by
  rw [place, if_neg (Position.not_lt_iff.2 ahead)]
  rfl

private theorem step_of_isBreak (isBreak : token.isBreak = true) :
    writer.step token = { writer with lineStart := true }.place token := by
  obtain ⟨kind, text, start, stop⟩ := token
  cases kind with
  | newline | nl => rfl
  | indent | dedent | endMarker | name | number | string | op | comment | stray => nomatch isBreak

private theorem step_of_not_isBreak (noLayout : token.isLayout = false)
    (noBreak : token.isBreak = false) :
    writer.step token = (writer.lead token).2.place token >>= fun placed =>
      .ok ((writer.lead token).1 ++ placed.1, placed.2) := by
  obtain ⟨kind, text, start, stop⟩ := token
  cases kind with
  | newline | nl => nomatch noBreak
  | indent | dedent | endMarker => nomatch noLayout
  | name | number | string | op | comment | stray => rfl

private theorem step_eq (noLayout : token.isLayout = false)
    (ahead : writer.reached token ≤ token.start) :
    writer.step token = .ok (Lexeme.textOf (writer.pad token) ++ token.text.toList,
      writer.after token) := by
  unfold pad after indentFor
  unfold reached at ahead ⊢
  rw [Lexeme.textOf_padBetween]
  cases isBreak : token.isBreak with
  | true =>
    simp only [isBreak, if_true] at ahead ⊢
    have ahead' : { writer with lineStart := true }.last ≤ token.start := ahead
    rw [step_of_isBreak isBreak, place_eq ahead']
    rfl
  | false =>
    simp only [isBreak, Bool.false_eq_true, if_false] at ahead ⊢
    rw [step_of_not_isBreak noLayout isBreak, place_eq ahead, List.append_assoc]
    rfl

/-- A token that is written stands ahead, and what is written behind it comes last. -/
theorem run_cons_eq_ok {rest : List Token} {text : List Char} (noLayout : token.isLayout = false)
    (ran : writer.run (token :: rest) = .ok text) :
    writer.reached token ≤ token.start ∧ ∃ others,
      text = Lexeme.textOf (writer.pad token) ++ (token.text.toList ++ others) ∧
        (writer.after token).run rest = .ok others := by
  have noStop : token.kind ≠ .endMarker := by
    intro kind
    simp [Token.isLayout, kind] at noLayout
  rw [run, if_neg noStop, bind_eq_ok] at ran
  obtain ⟨⟨own, next⟩, stepped, ran⟩ := ran
  have ahead : writer.reached token ≤ token.start := by
    rw [← Position.not_lt_iff]
    intro behind
    rw [reached] at behind
    cases isBreak : token.isBreak with
    | true =>
      rw [isBreak, if_pos rfl] at behind
      have refused : { writer with lineStart := true }.place token =
          .error (.overlap token.start) := if_pos behind
      rw [step_of_isBreak isBreak, refused] at stepped
      cases stepped
    | false =>
      rw [isBreak, if_neg Bool.false_ne_true] at behind
      have refused : (writer.lead token).2.place token = .error (.overlap token.start) :=
        if_pos behind
      rw [step_of_not_isBreak noLayout isBreak, refused] at stepped
      cases stepped
  rw [step_eq noLayout ahead] at stepped
  cases stepped
  obtain ⟨others, ranRest, ran⟩ := bind_eq_ok.1 ran
  cases ran
  exact ⟨ahead, others, List.append_assoc _ _ _, ranRest⟩

/-- At the start of a row the indentation of the block is written, if the token stands to the right
of it. -/
theorem lead_cases (writer : SourceText) (token : Token) :
    (∃ indent rest, writer.lineStart = true ∧ writer.indents = indent :: rest ∧
      indent.toList.length ≤ token.start.col ∧ (writer.lead token).1 = indent.toList ∧
      (writer.lead token).2 =
        { writer with lineStart := false, last := ⟨writer.last.row, indent.toList.length⟩ }) ∨
    ((∀ indent ∈ writer.indents.head?, writer.lineStart = true →
        token.start.col < indent.toList.length) ∧
      (writer.lead token).1 = [] ∧ (writer.lead token).2.last = writer.last ∧
      (writer.lead token).2.indents = writer.indents ∧
      ((writer.lead token).2.lineStart = false ∨ writer.indents = [])) := by
  cases lineStart : writer.lineStart with
  | false => exact .inr ⟨fun _ _ impossible => (nomatch impossible), by simp [lead, lineStart]⟩
  | true =>
    cases indents : writer.indents with
    | nil => exact .inr ⟨nofun, by simp [lead, lineStart, indents]⟩
    | cons indent rest =>
      by_cases within : indent.toList.length ≤ token.start.col
      · exact .inl ⟨indent, rest, rfl, rfl, within,
          by simp only [lead, lineStart, indents, if_pos within],
          by simp only [lead, lineStart, indents, if_pos within]⟩
      · refine .inr ⟨?_, ?_⟩
        · intro other member _
          cases member
          omega
        · simp only [lead, lineStart, indents, if_neg within]
          exact ⟨trivial, trivial, trivial, .inl trivial⟩

theorem reached_le (ahead : writer.last ≤ token.start) : writer.reached token ≤ token.start := by
  unfold reached
  split
  · exact ahead
  · rcases writer.lead_cases token with ⟨indent, rest, _, _, within, _, led⟩ | ⟨_, _, last, _⟩
    · rw [led]
      rw [Position.le_iff] at ahead ⊢
      simp only
      omega
    · rwa [last]

theorem indents_after (writer : SourceText) (token : Token) :
    (writer.after token).indents = writer.indents := by
  unfold after
  split
  · rfl
  · rcases writer.lead_cases token with ⟨_, _, _, _, _, _, led⟩ | ⟨_, _, _, same, _⟩
    · simp only [led]
    · exact same

theorem last_after (writer : SourceText) (token : Token) :
    (writer.after token).last = token.behind := by
  unfold after
  split <;> rfl

theorem quiet_after (noBreak : token.isBreak = false) (writer : SourceText) :
    (writer.after token).lineStart = false ∨ (writer.after token).indents = [] := by
  rw [indents_after, after, noBreak]
  rcases writer.lead_cases token with ⟨_, _, _, _, _, _, led⟩ | ⟨_, _, _, _, quiet⟩
  · simp [led]
  · exact quiet

theorem isPad_pad (spaces : ∀ indent ∈ writer.indents, indent.toList.all Lexeme.isSpace = true)
    (token : Token) : Lexeme.Pad (writer.pad token) := by
  apply Lexeme.isPad_padOf
  unfold indentFor
  split
  · rfl
  · rcases writer.lead_cases token with ⟨indent, rest, _, split, _, led, _⟩ | ⟨_, led, _⟩
    · rw [led]
      apply spaces
      simp [split]
    · rw [led]
      rfl

/-- Where no indentation is written, the gap leads from the last place. -/
theorem pad_of_quiet
    (quiet : token.isBreak = true ∨ writer.lineStart = false ∨ writer.indents = []) :
    writer.pad token = Lexeme.padBetween [] writer.last token.start := by
  unfold pad indentFor reached
  cases isBreak : token.isBreak with
  | true => rfl
  | false =>
    rcases writer.lead_cases token with ⟨indent, rest, start, split, _⟩ | ⟨_, led, last, _⟩
    · simp [isBreak, start, split] at quiet
    · simp only [Bool.false_eq_true, if_false, led, last]

theorem width_headD (indents : List String) :
    Layout.width (indents.headD "").toList =
      (indents.map fun indent => Layout.width indent.toList).headD 0 := by
  cases indents <;> rfl

def enter (writer : SourceText) (token : Token) : SourceText :=
  if token.kind = .indent then { writer with indents := token.text :: writer.indents }
  else { writer with indents := writer.indents.tail, last := token.stop }

theorem enter_indent (indent : token.kind = .indent) (writer : SourceText) :
    writer.enter token = { writer with indents := token.text :: writer.indents } := by
  rw [enter, if_pos indent]

theorem foldl_enter_dedents {blocks : List Token} {place : Position}
    (dedents : ∀ block ∈ blocks, block.kind = .dedent ∧ block.stop = place)
    (writer : SourceText) :
    blocks.foldl enter writer =
      { writer with
        indents := writer.indents.drop blocks.length
        last := if blocks.isEmpty then writer.last else place } := by
  induction blocks generalizing writer with
  | nil => rfl
  | cons block rest ih =>
    rw [List.forall_mem_cons] at dedents
    obtain ⟨⟨kind, stop⟩, others⟩ := dedents
    rw [List.foldl_cons, ih others, enter, if_neg (by simp [kind])]
    simp only [List.length_cons, List.isEmpty_cons, Bool.false_eq_true, if_false, stop,
      List.drop_tail, ite_self]

theorem last_foldl_enter_le {blocks : List Token} {place : Position}
    (dedents : ∀ block ∈ blocks, block.kind = .dedent ∧ block.stop = place)
    (ahead : writer.last ≤ place) : (blocks.foldl enter writer).last ≤ place := by
  rw [foldl_enter_dedents dedents]
  simp only
  split
  · exact ahead
  · exact Position.le_refl place

theorem run_blocks {blocks : List Token}
    (layout : ∀ token ∈ blocks, token.kind = .indent ∨ token.kind = .dedent) (writer : SourceText)
    (rest : List Token) : writer.run (blocks ++ rest) = (blocks.foldl enter writer).run rest := by
  induction blocks generalizing writer with
  | nil => rfl
  | cons token more ih =>
    rw [List.forall_mem_cons] at layout
    have step : writer.step token = .ok ([], writer.enter token) := by
      rcases layout.1 with kind | kind <;> simp [SourceText.step, enter, kind]
    have noStop : token.kind ≠ .endMarker := by
      rcases layout.1 with kind | kind <;> simp [kind]
    rw [List.cons_append, run, if_neg noStop, step, List.foldl_cons, ← ih layout.2]
    show ((writer.enter token).run (more ++ rest)).bind _ = _
    cases (writer.enter token).run (more ++ rest) <;> rfl

end SourceText

def Token.Spans (token : Token) : Prop :=
  token.isOp "," = true → token.stop = token.start.right 1

/-- Tokens and the lexemes of their text. -/
inductive Written : Phase → SourceText → List Token → List Lexeme → Prop
  /-- A token that does not begin a logical line. -/
  | token {phase : Phase} {writer : SourceText} {lexeme : Lexeme} {token : Token}
      {rest : List Token} {lexemes : List Lexeme} :
      lexeme.kind.hasToken = true → (phase.fresh && lexeme.kind.isCode) = false →
      token.kind = phase.kindOf lexeme.kind → token.text = String.ofList lexeme.text →
      token.Spans → writer.last ≤ token.start →
      Written (phase.after lexeme) (writer.after token) rest lexemes →
      Written phase writer (token :: rest) (writer.pad token ++ lexeme :: lexemes)
  /-- A token that begins a logical line at the width of an open block. -/
  | first {phase : Phase} {writer : SourceText} {blocks : List Token} {lexeme : Lexeme}
      {token : Token} {rest : List Token} {lexemes : List Lexeme} :
      lexeme.kind.isCode = true → phase.fresh = true → phase.rowStart = true →
      (∀ block ∈ blocks, block.kind = .dedent ∧ block.text = "" ∧ block.stop = token.start) →
      blocks.length ≤ writer.indents.length →
      (∀ indent ∈ writer.indents.take blocks.length,
        Layout.width ((writer.indents.drop blocks.length).headD "").toList <
          Layout.width indent.toList) →
      token.kind = phase.kindOf lexeme.kind → token.text = String.ofList lexeme.text →
      token.Spans → writer.last ≤ token.start →
      Written (phase.after lexeme) ((blocks.foldl SourceText.enter writer).after token) rest
        lexemes →
      Written phase writer (blocks ++ token :: rest)
        ((blocks.foldl SourceText.enter writer).pad token ++ lexeme :: lexemes)
  /-- A token that begins a logical line and opens a block. -/
  | opened {phase : Phase} {writer : SourceText} {block : Token} {lexeme : Lexeme} {token : Token}
      {rest : List Token} {lexemes : List Lexeme} :
      lexeme.kind.isCode = true → phase.fresh = true → phase.rowStart = true →
      block.kind = .indent → block.text.toList.all Lexeme.isSpace = true →
      Layout.width (writer.indents.headD "").toList < Layout.width block.text.toList →
      token.kind = phase.kindOf lexeme.kind → token.text = String.ofList lexeme.text →
      token.Spans → writer.last ≤ token.start →
      Written (phase.after lexeme) ((writer.enter block).after token) rest lexemes →
      Written phase writer (block :: token :: rest)
        ((writer.enter block).pad token ++ lexeme :: lexemes)
  /-- The end behind a logical line. -/
  | ended {phase : Phase} {writer : SourceText} {blocks : List Token} {stop : Token} :
      phase.depth = 0 → phase.fresh = true →
      (∀ block ∈ blocks, block.kind = .dedent ∧ block.text = "") →
      blocks.length = writer.indents.length → stop.kind = .endMarker → stop.text = "" →
      Written phase writer (blocks ++ [stop]) []
  /-- The end of a logical line that has no line break. -/
  | cutOff {phase : Phase} {writer : SourceText} {token : Token} {blocks : List Token}
      {stop : Token} :
      phase.depth = 0 → phase.fresh = false → token.kind = .newline → token.text = "" →
      writer.last ≤ token.start →
      (∀ block ∈ blocks, block.kind = .dedent ∧ block.text = "") →
      blocks.length = writer.indents.length → stop.kind = .endMarker → stop.text = "" →
      Written phase writer (token :: blocks ++ [stop]) (writer.pad token)

theorem Phase.isLayout_kindOf (phase : Phase) {kind : Lexeme.Kind} {token : Token}
    (same : token.kind = phase.kindOf kind) : token.isLayout = false := by
  have noLayout : ∀ kind : Kind, kind ≠ .indent → kind ≠ .dedent → kind ≠ .endMarker →
      (kind == .indent || kind == .dedent || kind == .endMarker) = false := by
    intro kind indent dedent stop
    simp [indent, dedent, stop]
  rw [Token.isLayout, same, Phase.kindOf]
  cases kind with
  | lineBreak =>
    simp only [Layout.kindOf]
    split <;> rfl
  | comment => rfl
  | space | continuation | openQuote => rfl
  | string | number | name | operator | stray => rfl

theorem SourceText.run_token {writer : SourceText} {token : Token} {rest : List Token}
    {lexeme : Lexeme} {lexemes : List Lexeme} (noLayout : token.isLayout = false)
    (ahead : writer.last ≤ token.start) (text : token.text = String.ofList lexeme.text)
    (others : (writer.after token).run rest = .ok (Lexeme.textOf lexemes)) :
    writer.run (token :: rest) =
      .ok (Lexeme.textOf (writer.pad token ++ lexeme :: lexemes)) := by
  have noStop : token.kind ≠ .endMarker := by
    intro stop
    simp [Token.isLayout, stop] at noLayout
  rw [run, if_neg noStop, step_eq noLayout (reached_le ahead)]
  simp [others, text, bind, Except.bind, pure, Except.pure]

/-- What has been written is written without a fault, and its text is that of the lexemes. -/
theorem Written.run_eq {phase : Phase} {writer : SourceText} {tokens : List Token}
    {lexemes : List Lexeme} (written : Written phase writer tokens lexemes) :
    writer.run tokens = .ok (Lexeme.textOf lexemes) := by
  induction written with
  | @token phase writer lexeme token rest lexemes _ _ kind text _ ahead _ ih =>
    exact SourceText.run_token (phase.isLayout_kindOf kind) ahead text ih
  | @first phase writer blocks lexeme token rest lexemes _ _ _ dedents _ _ kind text _ ahead _ ih =>
    rw [SourceText.run_blocks fun block member => .inr (dedents block member).1]
    refine SourceText.run_token (phase.isLayout_kindOf kind) ?_ text ih
    exact SourceText.last_foldl_enter_le
      (fun block member => ⟨(dedents block member).1, (dedents block member).2.2⟩) ahead
  | @opened phase writer block lexeme token rest lexemes _ _ _ indent _ _ kind text _ ahead _ ih =>
    have layout : ∀ token ∈ [block], token.kind = .indent ∨ token.kind = .dedent := by
      simp [indent]
    rw [← List.singleton_append, SourceText.run_blocks layout]
    refine SourceText.run_token (phase.isLayout_kindOf kind) ?_ text ih
    rw [List.foldl_cons, List.foldl_nil, SourceText.enter_indent indent]
    exact ahead
  | @ended phase writer blocks stop _ _ dedents _ isStop _ =>
    rw [SourceText.run_blocks fun block member => .inr (dedents block member).1,
      SourceText.run, if_pos isStop]
    rfl
  | @cutOff phase writer token blocks stop _ _ kind text ahead dedents _ isStop _ =>
    have ending : (writer.after token).run (blocks ++ [stop]) = .ok (Lexeme.textOf []) := by
      rw [SourceText.run_blocks fun block member => .inr (dedents block member).1,
        SourceText.run, if_pos isStop]
      rfl
    have noLayout : token.isLayout = false := by simp [Token.isLayout, kind]
    rw [List.cons_append, SourceText.run, if_neg (by simp [kind]),
      SourceText.step_eq noLayout (SourceText.reached_le ahead)]
    simp [ending, text, bind, Except.bind, pure, Except.pure]

end DeferredDefaults
