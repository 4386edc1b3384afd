import DeferredDefaults.Proofs.Tree.Completion
import DeferredDefaults.Proofs.Tree.Nodes

/-!
A tree rebuilds the tokens it has been read from. What comes before the end marker is in the tree, in
order, but for the tokens that close blocks; there is one block for each of those; and the functions
of the tree are the logical lines that start one.
-/

set_option autoImplicit false
set_option relaxedAutoImplicit false

namespace DeferredDefaults

/-- The logical lines, each with the token that ends it, when `begun` has begun one. Between lines,
trivia and the tokens that open and close blocks belong to none. -/
def Line.logical : (begun : List Token) → List Token → List (List Token)
  | begun, [] => if begun.isEmpty then [] else [begun]
  | begun, token :: rest =>
    if token.kind = .newline then (begun ++ [token]) :: logical [] rest
    else if begun.isEmpty && (token.isTrivia || token.isLayout) then logical [] rest
    else logical (begun ++ [token]) rest

namespace Stmt

def isFunction : Stmt → Bool
  | function .. | inlineFunction .. => true
  | _ => false

def hasBlock : Stmt → Bool
  | compound .. | function .. => true
  | _ => false

def line? : Stmt → Option (List Token)
  | simple line => some line
  | compound header _ _ => some header
  | function header _ _ => some header.tokens
  | inlineFunction header line => some (header.tokens ++ line)
  | trivia _ | prologue _ | runtimeImport => none

end Stmt

def Token.untilEnd (tokens : List Token) : List Token := tokens.takeWhile (·.kind != .endMarker)

/-- Nothing of the tokens is lost in the tree. -/
structure Program.Lossless (tokens : List Token) (program : Program) : Prop where
  content : program.tokens = (Token.untilEnd tokens).filter (·.kind != .dedent)
  blocks : (bodyNodes program.body).countP Stmt.hasBlock =
    (Token.untilEnd tokens).countP (·.kind == .dedent)
  functions : ((bodyNodes program.body).filter Stmt.isFunction).filterMap Stmt.line? =
    (Line.logical [] (Token.untilEnd tokens)).filter Line.startsFunction

section Lines

variable {line between : List Token} (rest : List Token)

private theorem Line.logical_code {code : List Token}
    (inLine : ∀ token ∈ code, token.kind ≠ .newline ∧ token.isLayout = false) {begun : List Token}
    (started : begun ≠ []) : logical begun (code ++ rest) = logical (begun ++ code) rest := by
  induction code generalizing begun with
  | nil => rw [List.nil_append, List.append_nil]
  | cons token more ih =>
    rw [List.forall_mem_cons] at inLine
    have goesOn : (begun.isEmpty && (token.isTrivia || token.isLayout)) = false := by
      rw [List.isEmpty_eq_false_iff.2 started, Bool.false_and]
    rw [List.cons_append, logical, if_neg inLine.1.1, goesOn, if_neg Bool.false_ne_true,
      ih inLine.2 (by simp), List.append_assoc, List.singleton_append]

private theorem Line.logical_line (whole : Line.IsWhole line) :
    logical [] (line ++ rest) = line :: logical [] rest := by
  obtain ⟨code, stop, rfl, ends, inLine, begins⟩ := whole
  have lineEnd : ∀ begun, logical begun ([stop] ++ rest) = (begun ++ [stop]) :: logical [] rest :=
    fun _ => if_pos ends
  cases code with
  | nil => exact lineEnd []
  | cons first more =>
    have noTrivia := begins first rfl
    rw [List.forall_mem_cons] at inLine
    have opens : (first.isTrivia || first.isLayout) = false := by
      rw [noTrivia, inLine.1.2, Bool.or_false]
    rw [List.append_assoc, List.cons_append, logical, if_neg inLine.1.1, opens, Bool.and_false,
      if_neg Bool.false_ne_true, List.nil_append, logical_code _ inLine.2 (by simp), lineEnd]
    rfl

private theorem Line.logical_between
    (outside : ∀ token ∈ between, token.isTrivia = true ∨ token.isLayout = true) :
    logical [] (between ++ rest) = logical [] rest := by
  induction between with
  | nil => rfl
  | cons token more ih =>
    rw [List.forall_mem_cons] at outside
    have noNewline : token.kind ≠ .newline := by
      intro ends
      rcases outside.1 with trivia | layout
      · simp [Token.isTrivia, ends] at trivia
      · simp [Token.isLayout, ends] at layout
    have skipped : (token.isTrivia || token.isLayout) = true := by simpa using outside.1
    rw [List.cons_append, logical, if_neg noNewline, skipped, ih outside.2]
    rfl

end Lines

/-- Statements account for the tokens they have been read from: `own` are the tokens in the tree. -/
structure Accounts (nodes : List Stmt) (own tokens : List Token) : Prop where
  content : own = tokens.filter (·.kind != .dedent)
  blocks : nodes.countP Stmt.hasBlock = tokens.countP (·.kind == .dedent)
  lines : ∀ rest,
    Line.logical [] (tokens ++ rest) = nodes.filterMap Stmt.line? ++ Line.logical [] rest

private theorem filter_of_noDedent {tokens : List Token}
    (none : ∀ token ∈ tokens, token.kind ≠ .dedent) :
    tokens.filter (·.kind != .dedent) = tokens ∧ tokens.countP (·.kind == .dedent) = 0 := by
  constructor
  · rw [List.filter_eq_self]
    exact fun token member => by simpa using none token member
  · rw [List.countP_eq_zero]
    exact fun token member => by simpa using none token member

private theorem Line.IsWhole.noDedent {line : List Token} (whole : Line.IsWhole line) :
    ∀ token ∈ line, token.kind ≠ .dedent := by
  intro token member isDedent
  have noLayout := whole.noLayout token member
  simp [Token.isLayout, isDedent] at noLayout

private theorem Token.noDedent_of_isTrivia {tokens : List Token}
    (trivia : ∀ token ∈ tokens, token.isTrivia = true) : ∀ token ∈ tokens, token.kind ≠ .dedent := by
  intro token member isDedent
  have isTrivia := trivia token member
  simp [Token.isTrivia, isDedent] at isTrivia

namespace Accounts

variable {nodes others : List Stmt} {own ownOthers tokens more : List Token} {stmt : Stmt}

private theorem nil : Accounts [] [] [] := ⟨rfl, rfl, fun _ => rfl⟩

private theorem append (first : Accounts nodes own tokens)
    (second : Accounts others ownOthers more) :
    Accounts (nodes ++ others) (own ++ ownOthers) (tokens ++ more) where
  content := by rw [List.filter_append, first.content, second.content]
  blocks := by rw [List.countP_append, List.countP_append, first.blocks, second.blocks]
  lines := by
    intro rest
    rw [List.append_assoc, first.lines, second.lines, List.filterMap_append, List.append_assoc]

private theorem trivia (areTrivia : ∀ token ∈ tokens, token.isTrivia = true) :
    Accounts [.trivia tokens] tokens tokens where
  content := (filter_of_noDedent (Token.noDedent_of_isTrivia areTrivia)).1.symm
  blocks := (filter_of_noDedent (Token.noDedent_of_isTrivia areTrivia)).2.symm
  lines := fun rest => Line.logical_between rest fun token member => .inl (areTrivia token member)

private theorem line (whole : Line.IsWhole tokens) (isLine : stmt.line? = some tokens)
    (noBlock : stmt.hasBlock = false) : Accounts [stmt] tokens tokens where
  content := (filter_of_noDedent whole.noDedent).1.symm
  blocks := by
    rw [(filter_of_noDedent whole.noDedent).2, List.countP_singleton, noBlock]
    rfl
  lines := by
    intro rest
    rw [Line.logical_line rest whole, List.filterMap_cons, isLine]
    rfl

/-- A statement with a block: its line, the margin, what is inside, and the end of the block. -/
private theorem block {header indent : List Token} {margin : Margin} {dedent : Token}
    (whole : Line.IsWhole header) (indents : margin.Covers indent)
    (inside : Accounts nodes own tokens) (dedents : dedent.kind = .dedent)
    (isLine : stmt.line? = some header) (hasBlock : stmt.hasBlock = true) :
    Accounts (stmt :: nodes) (header ++ margin.tokens ++ own)
      (header ++ indent ++ tokens ++ [dedent]) := by
  obtain ⟨opening, isIndent, kind, leading, rfl⟩ := indents
  have inMargin : margin.tokens = margin.leading ++ [opening] := by
    rw [Margin.tokens, isIndent]
    rfl
  have noDedent : ∀ token ∈ margin.leading ++ [opening], token.kind ≠ .dedent := by
    rw [List.forall_mem_append, List.forall_mem_singleton, kind]
    exact ⟨Token.noDedent_of_isTrivia leading, nofun⟩
  have outside : ∀ token ∈ margin.leading ++ [opening],
      token.isTrivia = true ∨ token.isLayout = true := by
    rw [List.forall_mem_append, List.forall_mem_singleton]
    exact ⟨fun token member => .inl (leading token member), .inr (by simp [Token.isLayout, kind])⟩
  have closing : ∀ token ∈ [dedent], token.isTrivia = true ∨ token.isLayout = true :=
    List.forall_mem_singleton.2 (.inr (by simp [Token.isLayout, dedents]))
  rw [inMargin]
  refine ⟨?_, ?_, fun rest => ?_⟩
  · simp only [List.filter_append, (filter_of_noDedent whole.noDedent).1,
      (filter_of_noDedent noDedent).1, inside.content, List.filter_cons, dedents]
    simp
  · simp only [List.countP_append, (filter_of_noDedent whole.noDedent).2,
      (filter_of_noDedent noDedent).2, List.countP_cons, hasBlock, inside.blocks, dedents]
    simp
  · simp only [List.append_assoc]
    rw [Line.logical_line _ whole, ← List.append_assoc margin.leading,
      Line.logical_between _ outside, inside.lines, Line.logical_between _ closing,
      List.filterMap_cons, isLine, List.cons_append]

end Accounts

mutual

private theorem Stmt.accounts : (stmt : Stmt) → {tokens : List Token} → stmt.Covers tokens →
    Accounts stmt.nodes stmt.tokens tokens
  | .trivia trivia, tokens, covers => by
    obtain ⟨rfl, areTrivia⟩ := covers
    exact .trivia areTrivia
  | .simple line, tokens, covers => by
    obtain ⟨rfl, whole⟩ := covers
    exact .line whole rfl rfl
  | .compound header margin body, tokens, covers => by
    obtain ⟨indent, inner, dedent, rfl, whole, indents, inside, dedents⟩ := covers
    exact .block whole indents (bodyAccounts body inside) dedents rfl rfl
  | .function header margin body, tokens, covers => by
    obtain ⟨line, indent, inner, dedent, rfl, whole, opens, indents, inside, dedents⟩ := covers
    rw [Stmt.nodes, Stmt.tokens, opens.tokens_eq]
    exact .block whole indents (bodyAccounts body inside) dedents (congrArg some opens.tokens_eq) rfl
  | .inlineFunction header suite, tokens, covers => by
    obtain ⟨whole, opens, -⟩ := covers
    rw [Stmt.nodes, Stmt.tokens, opens.tokens_eq]
    exact .line whole (congrArg some opens.tokens_eq) rfl
  | .prologue _, _, covers | .runtimeImport, _, covers => covers.elim

private theorem bodyAccounts : (body : List Stmt) → {tokens : List Token} → BodyCovers body tokens →
    Accounts (bodyNodes body) (bodyTokens body) tokens
  | [], tokens, covers => by
    cases covers
    rw [bodyNodes, bodyTokens]
    exact .nil
  | stmt :: rest, tokens, covers => by
    obtain ⟨front, back, rfl, coversFirst, coversRest⟩ := covers
    rw [bodyNodes, bodyTokens]
    exact (stmt.accounts coversFirst).append (bodyAccounts rest coversRest)

end

def Stmt.Classed (stmt : Stmt) : Prop := ∀ line ∈ stmt.line?, Line.startsFunction line = stmt.isFunction

def Opener.Classed : Opener → Prop
  | compound header => Line.startsFunction header = false
  | function header => Line.startsFunction header.tokens = true

private theorem Reader.kept_classed : Reader.Kept Stmt.Classed Opener.Classed where
  trivia := fun _ => nofun
  simple := by
    rintro line other _ ⟨⟩
    exact other
  compound := fun _ other _ => other
  function := by
    intro first more behind header starts read
    rwa [Opener.Classed, Header.tokens_read_tail read]
  inlineFunction := by
    rintro first more behind header starts read _ ⟨⟩
    rwa [Header.tokens_read read]
  close := by
    rintro (header | header) classed margin body _ ⟨⟩
    · exact classed
    · exact classed

private theorem filterMap_isFunction {nodes : List Stmt} (classed : ∀ stmt ∈ nodes, stmt.Classed) :
    (nodes.filter Stmt.isFunction).filterMap Stmt.line? =
      (nodes.filterMap Stmt.line?).filter Line.startsFunction := by
  rw [List.filterMap_filter, List.filter_filterMap]
  refine List.filterMap_congr fun stmt member => ?_
  have starts := classed stmt member
  cases found : stmt.line? with
  | none => simp
  | some line =>
    rw [Option.filter_some, starts line found]

/-- The tree that is read from tokens loses none of them. -/
theorem Program.lossless_ofTokens {tokens : List Token} {program : Program}
    (read : Program.ofTokens tokens = .ok program) : program.Lossless tokens := by
  have classed := Reader.kept_classed.ofTokens read
  obtain ⟨front, back, covers, isRest, rfl⟩ := covers_ofTokens read
  have accounts := bodyAccounts program.body covers
  have lines := accounts.lines []
  have untilEnd : Token.untilEnd (front ++ back) = front := by
    have inside : ∀ token ∈ front, (token.kind != .endMarker) = true :=
      fun token member => by simpa using bodyNe_endMarker program.body covers token member
    have outside : back.takeWhile (·.kind != .endMarker) = [] := by
      cases back with
      | nil => rfl
      | cons stop others => simp [isRest stop rfl]
    rw [Token.untilEnd, List.takeWhile_append_of_pos inside, outside, List.append_nil]
  have none : Line.logical [] [] = [] := rfl
  rw [List.append_nil, none, List.append_nil] at lines
  refine ⟨?_, ?_, ?_⟩
  · rw [untilEnd]
    exact accounts.content
  · rw [untilEnd]
    exact accounts.blocks
  · rw [untilEnd, lines, filterMap_isFunction classed]

/-- A decorated function inside an asynchronous one, trivia in every gap, and tokens behind the end:
`async def f(# c` and `a, *, b = 1,):` hold `@d` and `def g(): a`. -/
def woundTokens : List Token :=
  let token kind text : Token := ⟨kind, text, .origin, .origin⟩
  let stop := token .newline "\n"
  let blank := token .nl "\n"
  [blank, token .name "async", token .name "def", token .name "f", token .op "(",
    token .comment "# c", blank, token .name "a", token .op ",", blank, token .op "*",
    token .op ",", token .name "b", token .op "=", token .number "1", blank, token .op ",",
    blank, token .op ")", token .op ":", token .comment "# d", stop, blank, token .indent " ",
    token .op "@", token .name "d", stop, blank,
    token .name "def", token .name "g", token .op "(", token .op ")", token .op ":",
    token .name "a", stop, token .dedent "", token .name "a", stop,
    token .endMarker "", token .dedent "", token .op ")"]

theorem woundTokens_lossless : ∃ program, Program.ofTokens woundTokens = .ok program ∧
    (bodyNodes program.body).length = 6 ∧ program.Lossless woundTokens := by
  have nodes : ((Program.ofTokens woundTokens).map fun program =>
      (bodyNodes program.body).length).toOption = some 6 := by
    decide +kernel
  cases read : Program.ofTokens woundTokens with
  | error fault =>
    rw [read] at nodes
    cases nodes
  | ok program =>
    rw [read] at nodes
    exact ⟨program, rfl, Option.some.inj nodes, Program.lossless_ofTokens read⟩

end DeferredDefaults
