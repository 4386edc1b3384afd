import Mathlib.Data.List.Chain
import DeferredDefaults.Proofs.Sigil.Alignment
import DeferredDefaults.Proofs.Token.Spelling

/-!
Layout nests. Every step keeps the widths of the open blocks falling from the innermost outwards,
and from the first code of a line on the innermost one is the width of the line. The tokens that
come out are nested: blocks open and close in front of a line of code or at the end, no block closes
that is not open, every line of code ends, and the end marker comes last.
-/

set_option autoImplicit false
set_option relaxedAutoImplicit false

namespace DeferredDefaults

namespace Token

def isBlock (token : Token) : Bool := token.kind == .indent || token.kind == .dedent

/-- Whether a logical line goes on behind a token: code begins one, and a newline ends it. -/
def inLine (begun : Bool) (token : Token) : Bool :=
  token.isSignificant || (begun && token.kind != .newline)

theorem kind_of_isSignificant {token : Token} (code : token.isSignificant = true) :
    token.kind = .name ∨ token.kind = .number ∨ token.kind = .string ∨ token.kind = .op ∨
      token.kind = .stray := by
  obtain ⟨kind, text, start, stop⟩ := token
  cases kind <;> simp [isTrivia, isSignificant, isLayout] at code ⊢

theorem kind_of_isTrivia {token : Token} (trivia : token.isTrivia = true) :
    token.kind = .comment ∨ token.kind = .nl := by
  simpa [isTrivia] using trivia

end Token

def Leads (rest : List Token) : Prop :=
  ∀ next ∈ rest.head?, next.isLayout = true ∨ next.isSignificant = true

/-- The tokens close `blocks` open blocks, and where a line has begun they end it first. -/
inductive Nested : (blocks : Nat) → (begun : Bool) → List Token → Prop
  | stop {token : Token} : token.kind = .endMarker → Nested 0 false [token]
  | indent {blocks : Nat} {token : Token} {rest : List Token} : token.kind = .indent →
      Leads rest → Nested (blocks + 1) false rest → Nested blocks false (token :: rest)
  | dedent {blocks : Nat} {token : Token} {rest : List Token} : token.kind = .dedent →
      Leads rest → Nested blocks false rest → Nested (blocks + 1) false (token :: rest)
  | newline {blocks : Nat} {token : Token} {rest : List Token} : token.kind = .newline →
      Nested blocks false rest → Nested blocks true (token :: rest)
  | trivia {blocks : Nat} {begun : Bool} {token : Token} {rest : List Token} :
      token.isTrivia = true → Nested blocks begun rest → Nested blocks begun (token :: rest)
  | code {blocks : Nat} {begun : Bool} {token : Token} {rest : List Token} :
      token.isSignificant = true → Nested blocks true rest → Nested blocks begun (token :: rest)

namespace Nested

variable {blocks : Nat} {begun : Bool} {token : Token} {tokens front rest : List Token}

private theorem ne_nil (nested : Nested blocks begun tokens) : tokens ≠ [] := by
  cases nested <;> exact List.cons_ne_nil _ _

theorem ended (nested : Nested blocks begun tokens) :
    ∃ (body : List Token) (stop : Token), tokens = body ++ [stop] ∧ stop.kind = .endMarker ∧
      ∀ token ∈ body, token.kind ≠ .endMarker := by
  have more : ∀ {token : Token} {rest : List Token}, token.kind ≠ .endMarker →
      (∃ (body : List Token) (stop : Token), rest = body ++ [stop] ∧ stop.kind = .endMarker ∧
        ∀ token ∈ body, token.kind ≠ .endMarker) →
      ∃ (body : List Token) (stop : Token), token :: rest = body ++ [stop] ∧
        stop.kind = .endMarker ∧ ∀ token ∈ body, token.kind ≠ .endMarker := by
    rintro token rest kind ⟨body, stop, rfl, isStop, others⟩
    exact ⟨token :: body, stop, rfl, isStop, List.forall_mem_cons.2 ⟨kind, others⟩⟩
  induction nested with
  | stop isStop => exact ⟨[], _, rfl, isStop, nofun⟩
  | indent isIndent _ _ ih => exact more (by simp [isIndent]) ih
  | dedent isDedent _ _ ih => exact more (by simp [isDedent]) ih
  | newline isNewline _ ih => exact more (by simp [isNewline]) ih
  | trivia isTrivia _ ih =>
    exact more (by rcases Token.kind_of_isTrivia isTrivia with kind | kind <;> simp [kind]) ih
  | code isCode _ ih =>
    exact more (by
      rcases Token.kind_of_isSignificant isCode with kind | kind | kind | kind | kind <;>
        simp [kind]) ih

/-- What is nested behind some of the tokens: as many blocks as are open there, and the rest of a
line that has begun. -/
theorem drop (nested : Nested blocks begun (front ++ rest)) (goesOn : rest ≠ []) :
    ∃ inner, Nested inner (front.foldl Token.inLine begun) rest ∧
      inner + front.countP (·.kind == .dedent) = blocks + front.countP (·.kind == .indent) := by
  induction front generalizing blocks begun with
  | nil => exact ⟨blocks, nested, rfl⟩
  | cons token front ih =>
    rw [List.foldl_cons, List.countP_cons, List.countP_cons]
    generalize whole : token :: front ++ rest = tokens at nested
    cases nested with
    | stop isStop =>
      have none : rest = [] := by simp at whole; exact whole.2.2
      exact absurd none goesOn
    | indent isIndent _ nested =>
      cases whole
      obtain ⟨inner, nested, count⟩ := ih nested
      refine ⟨inner, by simpa [Token.inLine, Token.isSignificant, Token.isLayout, isIndent], ?_⟩
      simp [isIndent]
      omega
    | dedent isDedent _ nested =>
      cases whole
      obtain ⟨inner, nested, count⟩ := ih nested
      refine ⟨inner, by simpa [Token.inLine, Token.isSignificant, Token.isLayout, isDedent], ?_⟩
      simp [isDedent]
      omega
    | newline isNewline nested =>
      cases whole
      obtain ⟨inner, nested, count⟩ := ih nested
      exact ⟨inner, by simpa [Token.inLine, Token.isSignificant, isNewline], by simpa [isNewline]⟩
    | trivia isTrivia nested =>
      cases whole
      obtain ⟨inner, nested, count⟩ := ih nested
      have kinds := Token.kind_of_isTrivia isTrivia
      have stays : token.inLine begun = begun := by
        rcases kinds with kind | kind <;> simp [Token.inLine, Token.isSignificant, isTrivia, kind]
      refine ⟨inner, by rwa [stays], ?_⟩
      rcases kinds with kind | kind <;> simpa [kind]
    | code isCode nested =>
      cases whole
      obtain ⟨inner, nested, count⟩ := ih nested
      refine ⟨inner, by simpa [Token.inLine, isCode], ?_⟩
      rcases Token.kind_of_isSignificant isCode with kind | kind | kind | kind | kind <;>
        simpa [kind]

private theorem leads (nested : Nested blocks begun tokens) (leads : Leads tokens) :
    ∃ (more : List Token) (next : Token) (others : List Token), tokens = more ++ next :: others ∧
      (∀ block ∈ more, block.isBlock = true) ∧
      (next.isSignificant = true ∨ next.kind = .endMarker) := by
  induction nested with
  | stop isStop => exact ⟨[], _, [], rfl, nofun, .inr isStop⟩
  | @indent _ token _ isIndent restLeads _ ih =>
    obtain ⟨more, next, others, rfl, areBlocks, ends⟩ := ih restLeads
    have isBlock : token.isBlock = true := by simp [Token.isBlock, isIndent]
    exact ⟨token :: more, next, others, rfl, List.forall_mem_cons.2 ⟨isBlock, areBlocks⟩, ends⟩
  | @dedent _ token _ isDedent restLeads _ ih =>
    obtain ⟨more, next, others, rfl, areBlocks, ends⟩ := ih restLeads
    have isBlock : token.isBlock = true := by simp [Token.isBlock, isDedent]
    exact ⟨token :: more, next, others, rfl, List.forall_mem_cons.2 ⟨isBlock, areBlocks⟩, ends⟩
  | newline isNewline _ _ =>
    have found := leads _ rfl
    simp [Token.isLayout, Token.isSignificant, isNewline] at found
  | trivia isTrivia _ _ =>
    have found := leads _ rfl
    rcases Token.kind_of_isTrivia isTrivia with kind | kind <;>
      simp [Token.isLayout, Token.isSignificant, Token.isTrivia, kind] at found
  | code isCode _ _ => exact ⟨[], _, _, rfl, nofun, .inl isCode⟩

private theorem lineEnds (nested : Nested blocks begun tokens) (inLine : begun = true) :
    ∃ (line : List Token) (stop : Token) (others : List Token), tokens = line ++ stop :: others ∧
      stop.kind = .newline ∧ ∀ token ∈ line, token.isTrivia = true ∨ token.isSignificant = true := by
  induction nested with
  | stop | indent | dedent => cases inLine
  | newline isNewline _ _ => exact ⟨[], _, _, rfl, isNewline, nofun⟩
  | trivia isTrivia _ ih =>
    obtain ⟨line, stop, others, rfl, ends, within⟩ := ih inLine
    exact ⟨_ :: line, stop, others, rfl, ends, List.forall_mem_cons.2 ⟨.inl isTrivia, within⟩⟩
  | code isCode _ ih =>
    obtain ⟨line, stop, others, rfl, ends, within⟩ := ih rfl
    exact ⟨_ :: line, stop, others, rfl, ends, List.forall_mem_cons.2 ⟨.inr isCode, within⟩⟩

private theorem dedents (nested : Nested blocks false rest) (leads : Leads rest) (place : Position)
    (count : Nat) :
    Nested (blocks + count) false (List.replicate count (Layout.dedentAt place) ++ rest) := by
  induction count with
  | zero => exact nested
  | succ count ih =>
    refine .dedent rfl ?_ ih
    intro next found
    cases count with
    | zero => exact leads next found
    | succ count =>
      rw [← Option.some.inj found]
      exact .inl rfl

end Nested

def Token.PlaysAs (other token : Token) : Prop :=
  other.kind = token.kind ∨ (other.isSignificant = true ∧ token.isSignificant = true)

namespace Token.PlaysAs

variable {token other : Token}

private theorem isSignificant (same : other.PlaysAs token) :
    other.isSignificant = token.isSignificant := by
  rcases same with kind | ⟨code, code'⟩
  · simp [Token.isSignificant, Token.isTrivia, Token.isLayout, kind]
  · rw [code, code']

private theorem kind (same : other.PlaysAs token) (noCode : token.isSignificant = false) :
    other.kind = token.kind := by
  rcases same with kind | ⟨-, code⟩
  · exact kind
  · rw [code] at noCode
    cases noCode

end Token.PlaysAs

private theorem Nested.congr {blocks : Nat} {begun : Bool} {tokens others : List Token}
    (nested : Nested blocks begun tokens) (same : List.Forall₂ Token.PlaysAs others tokens) :
    Nested blocks begun others := by
  have leads : ∀ {rest rest' : List Token}, List.Forall₂ Token.PlaysAs rest' rest →
      Leads rest → Leads rest' := by
    rintro rest rest' (_ | ⟨head, _⟩) leads
    · exact leads
    · rintro next ⟨⟩
      rcases leads _ rfl with layout | code
      · refine .inl ?_
        rw [← layout, Token.isLayout, head.kind (by simp [Token.isSignificant, layout])]
        rfl
      · exact .inr (head.isSignificant.trans code)
  induction nested generalizing others with
  | stop isStop =>
    obtain _ | ⟨head, tail⟩ := same
    cases tail
    exact .stop ((head.kind (by simp [Token.isSignificant, Token.isLayout, isStop])).trans isStop)
  | indent isIndent restLeads _ ih =>
    obtain _ | ⟨head, tail⟩ := same
    have kind := head.kind (by simp [Token.isSignificant, Token.isLayout, isIndent])
    exact .indent (kind.trans isIndent) (leads tail restLeads) (ih tail)
  | dedent isDedent restLeads _ ih =>
    obtain _ | ⟨head, tail⟩ := same
    have kind := head.kind (by simp [Token.isSignificant, Token.isLayout, isDedent])
    exact .dedent (kind.trans isDedent) (leads tail restLeads) (ih tail)
  | newline isNewline _ ih =>
    obtain _ | ⟨head, tail⟩ := same
    have kind := head.kind (by simp [Token.isSignificant, isNewline])
    exact .newline (kind.trans isNewline) (ih tail)
  | trivia isTrivia _ ih =>
    obtain _ | ⟨head, tail⟩ := same
    have kind := head.kind (by simp [Token.isSignificant, isTrivia])
    exact .trivia (by rwa [Token.isTrivia, kind]) (ih tail)
  | code isCode _ ih =>
    obtain _ | ⟨head, tail⟩ := same
    exact .code (head.isSignificant.trans isCode) (ih tail)

/-- A stream of tokens that is well nested, said of the stream as a whole. -/
structure WellNested (tokens : List Token) : Prop where
  /-- There is one end marker, and it is the last token. -/
  ended : ∃ body stop, tokens = body ++ [stop] ∧ stop.kind = .endMarker ∧
    ∀ token ∈ body, token.kind ≠ .endMarker
  /-- No block closes that is not open. -/
  within : ∀ front, front <+: tokens →
    front.countP (·.kind == .dedent) ≤ front.countP (·.kind == .indent)
  /-- Every block closes. -/
  balanced : tokens.countP (·.kind == .dedent) = tokens.countP (·.kind == .indent)
  /-- Blocks open and close between two lines, in front of the first code or the end marker. -/
  blocks : ∀ front block rest, tokens = front ++ block :: rest → block.isBlock = true →
    front.foldl Token.inLine false = false ∧
    ∃ more next others, rest = more ++ next :: others ∧ (∀ block ∈ more, block.isBlock = true) ∧
      (next.isSignificant = true ∨ next.kind = .endMarker)
  /-- Every line of code ends with a newline, and in front of it there is no layout. -/
  lines : ∀ front code rest, tokens = front ++ code :: rest → code.isSignificant = true →
    ∃ line stop others, rest = line ++ stop :: others ∧ stop.kind = .newline ∧
      ∀ token ∈ line, token.isTrivia = true ∨ token.isSignificant = true
  /-- Nothing else ends with a newline. -/
  newlines : ∀ front stop rest, tokens = front ++ stop :: rest → stop.kind = .newline →
    front.foldl Token.inLine false = true

theorem Nested.wellNested {tokens : List Token} (nested : Nested 0 false tokens) :
    WellNested tokens := by
  obtain ⟨body, stop, split, isStop, others⟩ := nested.ended
  have balanced : tokens.countP (·.kind == .dedent) = tokens.countP (·.kind == .indent) := by
    rw [split] at nested
    obtain ⟨inner, last, count⟩ := nested.drop (List.cons_ne_nil _ _)
    have closed : inner = 0 := by
      generalize body.foldl Token.inLine false = begun at last
      cases last with
      | stop => rfl
      | dedent kind => simp [isStop] at kind
      | indent | newline | trivia | code => exact absurd rfl (Nested.ne_nil ‹_›)
    simp only [split, List.countP_append, List.countP_singleton, isStop]
    simp
    omega
  refine ⟨⟨body, stop, split, isStop, others⟩, ?_, balanced, ?_, ?_, ?_⟩
  · rintro front ⟨rest, rfl⟩
    by_cases none : rest = []
    · rw [none, List.append_nil] at balanced
      omega
    · obtain ⟨inner, -, count⟩ := nested.drop none
      omega
  · rintro front block rest rfl isBlock
    obtain ⟨inner, nested, -⟩ := nested.drop (List.cons_ne_nil _ _)
    generalize front.foldl Token.inLine false = begun at nested
    cases nested with
    | stop kind => simp [Token.isBlock, kind] at isBlock
    | indent _ leads nested => exact ⟨rfl, nested.leads leads⟩
    | dedent _ leads nested => exact ⟨rfl, nested.leads leads⟩
    | newline kind => simp [Token.isBlock, kind] at isBlock
    | trivia trivia =>
      rcases Token.kind_of_isTrivia trivia with kind | kind <;> simp [Token.isBlock, kind] at isBlock
    | code code =>
      rcases Token.kind_of_isSignificant code with kind | kind | kind | kind | kind <;>
        simp [Token.isBlock, kind] at isBlock
  · rintro front code rest rfl isCode
    obtain ⟨inner, nested, -⟩ := nested.drop (List.cons_ne_nil _ _)
    generalize front.foldl Token.inLine false = begun at nested
    cases nested with
    | code _ nested => exact nested.lineEnds rfl
    | trivia trivia => simp [Token.isSignificant, trivia] at isCode
    | stop kind | indent kind | dedent kind | newline kind =>
      simp [Token.isSignificant, Token.isLayout, kind] at isCode
  · rintro front stop rest rfl isNewline
    obtain ⟨inner, nested, -⟩ := nested.drop (List.cons_ne_nil _ _)
    generalize front.foldl Token.inLine false = begun at nested
    cases nested with
    | newline => rfl
    | stop kind | indent kind | dedent kind => simp [isNewline] at kind
    | trivia trivia => simp [Token.isTrivia, isNewline] at trivia
    | code code => simp [Token.isSignificant, isNewline] at code

namespace Layout

variable {layout next : Layout} {lexeme : Lexeme} {own : List Token}

/-- The widths of the open blocks behind a token. -/
def widthsAfter (widths : List Nat) (token : Token) : List Nat :=
  match token.kind with
  | .indent => width token.text.toList :: widths
  | .dedent => widths.tail
  | _ => widths

/-- The tokens of some lexemes, and the layout behind them. -/
def steps (layout : Layout) : List Lexeme → Except Fault (List Token × Layout)
  | [] => .ok ([], layout)
  | lexeme :: rest => do
    let (own, next) ← layout.step lexeme
    let (others, last) ← next.steps rest
    return (own ++ others, last)

/-- What holds between any two lexemes. -/
structure Stacked (layout : Layout) : Prop where
  line : layout.lineHasCode = !layout.atLineStart
  /-- The widths of the open blocks fall from the innermost outwards, down to zero. -/
  falling : (layout.blocks ++ [0]).IsChain (· > ·)
  /-- A line that has begun has the width of the innermost block. -/
  level : layout.atLineStart = false → layout.top = width layout.margin

private theorem stacked_settle {blocks : List Token}
    (falling : (layout.blocks ++ [0]).IsChain (· > ·))
    (settles : layout.settle = .ok (blocks, next)) :
    (next.blocks ++ [0]).IsChain (· > ·) ∧ next.top = width next.margin := by
  rcases settle_eq_ok settles with ⟨deeper, -, rfl⟩ | ⟨returns, -, rfl⟩
  · refine ⟨?_, rfl⟩
    rw [List.cons_append]
    refine falling.cons fun outer found => ?_
    have top : outer = layout.top := by
      unfold top
      cases blocks : layout.blocks with
      | nil =>
        rw [blocks] at found
        exact (Option.some.inj found).symm
      | cons inner outer =>
        rw [blocks] at found
        exact (Option.some.inj found).symm
    rw [top]
    exact deeper
  · refine ⟨?_, returns⟩
    obtain ⟨closed, split⟩ : layout.kept <:+ layout.blocks := List.dropWhile_suffix _
    exact falling.suffix ⟨closed, by rw [← List.append_assoc, split]⟩

private theorem stacked_behind (line : layout.lineHasCode = !layout.atLineStart)
    (falling : (layout.blocks ++ [0]).IsChain (· > ·)) (hasToken : lexeme.kind.hasToken = true)
    (level : lexeme.kind.isCode = true ∨ layout.atLineStart = false →
      layout.top = width layout.margin) : (layout.behind lexeme).Stacked := by
  obtain ⟨kind, text⟩ := lexeme
  cases kind with
  | comment => exact ⟨line, falling, fun begun => level (.inr begun)⟩
  | lineBreak =>
    refine ⟨?_, falling, ?_⟩
    · simp only [behind, lineBreak, line]
      cases layout.atLineStart <;> simp [bne]
    · intro begun
      simp only [behind, lineBreak] at begun ⊢
      rw [begun]
      rw [Bool.or_eq_false_iff] at begun
      exact level (.inr begun.1)
  | space | continuation | openQuote => cases hasToken
  | string | number | name | operator | stray => exact ⟨rfl, falling, fun _ => level (.inl rfl)⟩

theorem Stacked.step (stacked : layout.Stacked) (stepped : layout.step lexeme = .ok (own, next)) :
    next.Stacked := by
  rcases step_eq_ok stepped with ⟨gap, -, rfl⟩ | ⟨hasToken, notFirst, -, rfl⟩ |
    ⟨fresh, isCode, blocks, settled, settles, -, rfl⟩
  · rcases gap with kind | kind
    · refine ⟨?_, ?_, ?_⟩
      · simpa [pass, kind] using stacked.line
      · simpa [pass, kind] using stacked.falling
      · intro begun
        simp only [pass, kind] at begun ⊢
        rw [begun]
        exact stacked.level begun
    · simpa [pass, kind] using ⟨stacked.line, stacked.falling, stacked.level⟩
  · refine stacked_behind stacked.line stacked.falling hasToken fun code => stacked.level ?_
    rcases code with code | begun
    · simpa [code] using notFirst
    · exact begun
  · obtain ⟨falling, level⟩ := stacked_settle stacked.falling settles
    have hasToken : lexeme.kind.hasToken = true := by simp [Lexeme.Kind.hasToken, isCode]
    refine stacked_behind ?_ falling hasToken fun _ => level
    rw [settle_blocks settles]
    exact stacked.line

theorem widths_of_not_isLayout {token : Token} (noLayout : token.isLayout = false)
    (widths : List Nat) : widthsAfter widths token = widths := by
  obtain ⟨kind, text, start, stop⟩ := token
  cases kind <;> simp [Token.isLayout] at noLayout <;> rfl

private theorem widths_step (stepped : layout.step lexeme = .ok (own, next)) :
    own.foldl widthsAfter layout.blocks = next.blocks := by
  have noLayout := isLayout_tokenFor layout lexeme
  rcases step_eq_ok stepped with ⟨gap, rfl, rfl⟩ | ⟨-, -, rfl, rfl⟩ |
    ⟨-, -, blocks, settled, settles, rfl, rfl⟩
  · rcases gap with kind | kind <;> simp [pass, kind]
  · rw [List.foldl_cons, List.foldl_nil, widths_of_not_isLayout noLayout, blocks_behind]
  · rw [List.foldl_append, List.foldl_cons, List.foldl_nil, widths_of_not_isLayout noLayout,
      blocks_behind]
    rcases settle_eq_ok settles with ⟨-, rfl, rfl⟩ | ⟨-, rfl, rfl⟩
    · simp [widthsAfter, opening]
    · rw [kept_eq]
      generalize layout.closed = closed
      generalize layout.blocks = widths
      induction closed generalizing widths with
      | nil => rfl
      | cons inner closed ih => simpa [widthsAfter, dedentAt] using ih widths.tail

private theorem nested_settle {blocks : List Token} (settles : layout.settle = .ok (blocks, next))
    {rest : List Token} (leads : Leads rest) (nested : Nested next.blocks.length false rest) :
    Nested layout.blocks.length false (blocks ++ rest) := by
  rcases settle_eq_ok settles with ⟨-, rfl, rfl⟩ | ⟨-, rfl, rfl⟩
  · exact .indent rfl leads nested
  · have size : layout.blocks.length = layout.kept.length + layout.closed.length := by
      rw [Nat.add_comm, ← List.length_append, closed, kept, List.takeWhile_append_dropWhile]
    rw [size, List.map_const']
    exact nested.dedents leads _ _

private theorem nested_behind (line : layout.lineHasCode = !layout.atLineStart)
    (hasToken : lexeme.kind.hasToken = true) {blocks : Nat} {rest : List Token}
    (nested : Nested blocks (!(layout.behind lexeme).atLineStart) rest) :
    Nested blocks (!layout.atLineStart) (layout.tokenFor lexeme :: rest) := by
  obtain ⟨kind, text⟩ := lexeme
  cases kind with
  | comment => exact .trivia rfl nested
  | lineBreak =>
    simp only [behind, lineBreak, line] at nested
    simp only [tokenFor, lineBreak, line]
    by_cases open_ : 0 < layout.depth ∨ layout.atLineStart = true
    · refine .trivia (by simp [Token.isTrivia, open_]) ?_
      have stays : (Kind.nl == Kind.newline) = false := rfl
      simpa [open_, stays] using nested
    · rw [not_or, Bool.not_eq_true] at open_
      rw [open_.2]
      refine .newline (by simp [open_.1]) ?_
      simpa [open_] using nested
  | space | continuation | openQuote => cases hasToken
  | string | number | name | operator | stray => exact .code rfl nested

private theorem nested_step (stacked : layout.Stacked)
    (stepped : layout.step lexeme = .ok (own, next)) {rest : List Token}
    (nested : Nested next.blocks.length (!next.atLineStart) rest) :
    Nested layout.blocks.length (!layout.atLineStart) (own ++ rest) := by
  rcases step_eq_ok stepped with ⟨gap, rfl, rfl⟩ | ⟨hasToken, notFirst, rfl, rfl⟩ |
    ⟨fresh, isCode, blocks, settled, settles, rfl, rfl⟩
  · rcases gap with kind | kind <;> simpa [pass, kind] using nested
  · rw [blocks_behind] at nested
    exact nested_behind stacked.line hasToken nested
  · have hasToken : lexeme.kind.hasToken = true := by simp [Lexeme.Kind.hasToken, isCode]
    obtain ⟨-, significant, -⟩ := Lexeme.traits_of_kindOf hasToken (kind_tokenFor stacked.line lexeme)
    have settledLine : settled.lineHasCode = !settled.atLineStart := by
      rw [settle_blocks settles]
      exact stacked.line
    have settledFresh : settled.atLineStart = true := by
      rw [settle_blocks settles]
      exact fresh
    rw [blocks_behind] at nested
    have inner := nested_behind settledLine hasToken nested
    rw [tokenFor_settle settles, settledFresh] at inner
    rw [fresh, List.append_assoc]
    refine nested_settle settles ?_ inner
    rintro first ⟨⟩
    exact .inr (significant.trans isCode)

private theorem nested_finish (stacked : layout.Stacked) {tokens : List Token}
    (finished : layout.finish = .ok tokens) :
    Nested layout.blocks.length (!layout.atLineStart) tokens := by
  obtain ⟨place, finish⟩ := finish_of_depth (depth_of_finish finished)
  rw [finish] at finished
  cases finished
  have stop : Nested 0 false [(⟨.endMarker, "", place, place⟩ : Token)] := .stop rfl
  have leads : Leads [(⟨.endMarker, "", place, place⟩ : Token)] := by
    rintro next ⟨⟩
    exact .inl rfl
  have closing := stop.dedents leads place layout.blocks.length
  rw [Nat.zero_add] at closing
  rw [stacked.line]
  cases layout.atLineStart with
  | true => exact closing
  | false => exact .newline rfl closing

theorem nested_run {lexemes : List Lexeme} (stacked : layout.Stacked) {tokens : List Token}
    (ran : layout.run lexemes = .ok tokens) :
    Nested layout.blocks.length (!layout.atLineStart) tokens := by
  induction lexemes generalizing layout tokens with
  | nil => exact nested_finish stacked ran
  | cons lexeme rest ih =>
    rw [run, bind_eq_ok] at ran
    obtain ⟨⟨own, next⟩, stepped, ran⟩ := ran
    obtain ⟨others, ranRest, joined⟩ := bind_eq_ok.1 ran
    cases joined
    exact nested_step stacked stepped (ih (stacked.step stepped) ranRest)

/-- A run passes through a layout that is stacked, between any two lexemes. -/
theorem exists_stacked {front back : List Lexeme} (stacked : layout.Stacked) {tokens : List Token}
    (ran : layout.run (front ++ back) = .ok tokens) :
    ∃ before after reached, layout.steps front = .ok (before, reached) ∧
      reached.run back = .ok after ∧ tokens = before ++ after ∧ reached.Stacked ∧
      reached.blocks = before.foldl widthsAfter layout.blocks := by
  induction front generalizing layout tokens with
  | nil => exact ⟨[], tokens, layout, rfl, ran, rfl, stacked, rfl⟩
  | cons lexeme front ih =>
    rw [List.cons_append, run, bind_eq_ok] at ran
    obtain ⟨⟨own, next⟩, stepped, ran⟩ := ran
    obtain ⟨others, ranRest, joined⟩ := bind_eq_ok.1 ran
    cases joined
    obtain ⟨before, after, reached, steps, ranBack, rfl, reachedStacked, widths⟩ :=
      ih (stacked.step stepped) ranRest
    refine ⟨own ++ before, after, reached, ?_, ranBack, (List.append_assoc ..).symm,
      reachedStacked, ?_⟩
    · simp [Layout.steps, stepped, steps, bind, Except.bind, pure, Except.pure]
    · rw [widths, List.foldl_append, widths_step stepped]

theorem stacked_initial : ({} : Layout).Stacked := ⟨rfl, .singleton _, nofun⟩

end Layout

namespace Sigil

private theorem playsAs_scan (marker : String) (previous : Option Token) (pending : Pending)
    (tokens : List Token) :
    List.Forall₂ Token.PlaysAs (scan marker previous pending tokens) tokens := by
  induction tokens generalizing previous pending with
  | nil => exact .nil
  | cons token rest ih =>
    rw [scan]
    split
    · next marked =>
      refine .cons (.inr ⟨rfl, ?_⟩) (ih _ _)
      obtain ⟨eq, -, sigil⟩ := (Option.any_eq_true ..).1 marked
      simp only [isSigil, Bool.and_eq_true, Token.isOp_iff] at sigil
      simp [Token.isSignificant, Token.isTrivia, Token.isLayout, sigil.1.2.1]
    · exact .cons (.inl (kind_step pending token).1) (ih _ _)

theorem nested_mark (marker : String) {blocks : Nat} {begun : Bool} {tokens : List Token}
    (nested : Nested blocks begun tokens) : Nested blocks begun (mark marker tokens) := by
  rw [mark_eq_scan]
  exact nested.congr (playsAs_scan marker none (.moved none) tokens)

end Sigil

end DeferredDefaults
