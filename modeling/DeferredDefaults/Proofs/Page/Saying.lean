import DeferredDefaults.Proofs.Page.Heading
import DeferredDefaults.Proofs.Page.Statements
import DeferredDefaults.Proofs.Page.Typesetting
import DeferredDefaults.Proofs.Token.Nesting

/-!
A tree in print says what it says. Every way of printing statements conveys the tokens they have
been read from, if blocks are indented as layout has found them, and statements that are printed one
after the other convey all their tokens.
-/

set_option autoImplicit false
set_option relaxedAutoImplicit false

namespace DeferredDefaults

open Text.Identifier (isIdentifier)

/-- Every block is indented by space, deeper than the block around it, and begins with code. -/
def Deepens : (widths : List Nat) → List Token → Prop
  | _, [] => True
  | widths, token :: rest =>
    (token.kind = .indent → token.text.toList.all Lexeme.isSpace = true ∧
      widths.headD 0 < Layout.width token.text.toList ∧
      ∀ next ∈ rest.head?, next.isSignificant = true) ∧
    Deepens (Layout.widthsAfter widths token) rest

theorem deepens_append {widths : List Nat} {front back : List Token}
    (deepens : Deepens widths (front ++ back)) :
    Deepens widths front ∧ Deepens (front.foldl Layout.widthsAfter widths) back := by
  induction front generalizing widths with
  | nil => exact ⟨trivial, deepens⟩
  | cons token rest ih =>
    obtain ⟨own, others⟩ := deepens
    refine ⟨⟨fun isIndent => ?_, (ih others).1⟩, (ih others).2⟩
    obtain ⟨spaces, deeper, begins⟩ := own isIndent
    exact ⟨spaces, deeper, fun next found => begins next (List.mem_head?_append_of_mem_head? found)⟩

private theorem widths_line {line : List Token} (noLayout : ∀ token ∈ line, token.isLayout = false)
    (widths : List Nat) : line.foldl Layout.widthsAfter widths = widths := by
  induction line with
  | nil => rfl
  | cons token rest ih =>
    rw [List.forall_mem_cons] at noLayout
    rw [List.foldl_cons, Layout.widths_of_not_isLayout noLayout.1, ih noLayout.2]

private theorem deepens_line {line : List Token} (noLayout : ∀ token ∈ line, token.isLayout = false)
    (widths : List Nat) : Deepens widths line := by
  induction line generalizing widths with
  | nil => trivial
  | cons token rest ih =>
    rw [List.forall_mem_cons] at noLayout
    refine ⟨fun isIndent => ?_, ih noLayout.2 _⟩
    have isLayout := noLayout.1
    simp [Token.isLayout, isIndent] at isLayout

private theorem Token.isLayout_of_isTrivia {token : Token} (trivia : token.isTrivia = true) :
    token.isLayout = false := by
  rcases Token.kind_of_isTrivia trivia with kind | kind <;> simp [Token.isLayout, kind]

private theorem Layout.width_append_blanks (margin : List Char) (count : Nat) :
    width (margin ++ List.replicate count ' ') = width margin + count := by
  induction count with
  | zero => rw [List.replicate_zero, List.append_nil, Nat.add_zero]
  | succ count ih =>
    rw [List.replicate_succ', ← List.append_assoc, width, List.foldl_append, ← width, ih]
    rfl

def Stmt.isPlain : Stmt → Bool
  | simple _ | prologue _ => true
  | _ => false

def Stmt.begins (options : Options) (stmt : Stmt) : Bool :=
  !stmt.isTrivia && !Page.isSilent options stmt

private theorem bodyLinear_append (options : Options) (front back : List Stmt) :
    bodyLinear options (front ++ back) = bodyLinear options front ++ bodyLinear options back := by
  induction front with
  | nil => rw [bodyLinear]; rfl
  | cons stmt rest ih => rw [List.cons_append, bodyLinear, bodyLinear, ih, List.append_assoc]

namespace Page

variable {options : Options} {code : List Char} {page : Page} {later : List Token}
  {blocks : List Nat} {found : List (Kind × String)} {indent : String} {begins : Bool}

/-- Printing the statements at an indentation carries their tokens over into what they say. -/
structure Conveys (options : Options) (stmts : List Stmt) (tokens : List Token) : Prop where
  widths : ∀ widths, tokens.foldl Layout.widthsAfter widths = widths
  begins : (∃ token ∈ tokens, token.isTrivia = false) → stmts.any (Stmt.begins options) = true
  proceeds : ∀ ⦃code : List Char⦄ ⦃page : Page⦄ ⦃later : List Token⦄ ⦃blocks : List Nat⦄
    ⦃found : List (Kind × String)⦄ ⦃indent : String⦄ ⦃begins : Bool⦄,
    indent.toList.all Lexeme.isSpace = true → Layout.width indent.toList = blocks.headD 0 →
    Deepens blocks tokens →
    Proceeds code (statements options indent stmts page) later (Lines begins blocks · found) →
    Proceeds code page (tokens ++ later)
      (Lines (stmts.any (Stmt.begins options) || begins) blocks · (bodyLinear options stmts ++ found))

namespace Conveys

private theorem nil : Conveys options [] [] := ⟨fun _ => rfl, nofun, fun _ _ _ _ _ _ _ _ _ _ => id⟩

private theorem append {front back : List Stmt} {tokens more : List Token}
    (first : Conveys options front tokens) (second : Conveys options back more) :
    Conveys options (front ++ back) (tokens ++ more) where
  widths := fun widths => by rw [List.foldl_append, first.widths, second.widths]
  begins := by
    rintro ⟨token, member, code⟩
    rw [List.any_append, Bool.or_eq_true]
    rcases List.mem_append.1 member with inFront | inBack
    · exact .inl (first.begins ⟨token, inFront, code⟩)
    · exact .inr (second.begins ⟨token, inBack, code⟩)
  proceeds := by
    intro code page later blocks found indent begins spaces level deepens proceeds
    rw [statements_append] at proceeds
    obtain ⟨deepensFirst, deepensSecond⟩ := deepens_append deepens
    rw [first.widths] at deepensSecond
    rw [List.append_assoc, List.any_append, Bool.or_assoc, bodyLinear_append, List.append_assoc]
    exact first.proceeds spaces level deepensFirst
      (second.proceeds spaces level deepensSecond proceeds)

private theorem trivia {tokens : List Token} (trivia : ∀ token ∈ tokens, token.isTrivia = true) :
    Conveys options [.trivia tokens] tokens where
  widths := widths_line fun token member => Token.isLayout_of_isTrivia (trivia token member)
  begins := by
    rintro ⟨token, member, code⟩
    rw [trivia token member] at code
    cases code
  proceeds := fun _ _ _ _ _ _ _ _ _ _ proceeds => Proceeds.trivia trivia proceeds

private theorem simple {line : List Token} (whole : Line.IsWhole line) :
    Conveys options [.simple line] line where
  widths := widths_line whole.noLayout
  begins := fun _ => rfl
  proceeds := by
    intro code page later blocks found indent begins spaces level _ proceeds
    rw [bodyLinear, bodyLinear, List.append_nil]
    exact Proceeds.line whole spaces level (proceeds.imp fun _ lines => lines.yields)

theorem added {stmt : Stmt} (lines : List String)
    (prints : ∀ indent page, statement options indent stmt page =
      lines.foldl (addedLine · indent) page)
    (linear : stmt.linear options = lines.flatMap lineGist)
    (isBegin : stmt.begins options = !lines.isEmpty) (areLines : ∀ line ∈ lines, Phrase.IsLine line) :
    Conveys options [stmt] [] where
  widths := fun _ => rfl
  begins := nofun
  proceeds := by
    intro code page later blocks found indent begins spaces level _ proceeds
    rw [statements, statements, prints] at proceeds
    rw [bodyLinear, bodyLinear, List.append_nil, linear, List.any_cons, List.any_nil, isBegin,
      Bool.or_false]
    exact Proceeds.addedLines areLines spaces level proceeds

end Conveys

theorem isPrefix_line (page : Page) (indent : String) (line : List Token) :
    page.text.toList <+: (page.line indent line).text.toList := by
  cases line with
  | nil => exact List.prefix_rfl
  | cons first rest =>
    refine (isPrefix_freshLine page).trans (List.IsPrefix.trans ?_ (isPrefix_tokens _ _))
    rw [text_moveTo, text_write, String.toList_append]
    exact List.prefix_append _ _

theorem isPrefix_addedLines (page : Page) (indent : String) (lines : List String) :
    page.text.toList <+: (lines.foldl (addedLine · indent) page).text.toList := by
  induction lines generalizing page with
  | nil => exact List.prefix_rfl
  | cons line rest ih =>
    refine (isPrefix_freshLine page).trans (List.IsPrefix.trans ?_ (ih _))
    exact ⟨(indent ++ line ++ "\n").toList, by simp [addedLine]⟩

private theorem isPrefix_plain {body : List Stmt} (isBody : ∀ stmt ∈ body, stmt.isPlain = true)
    (indent : String) (page : Page) :
    page.text.toList <+: (statements options indent body page).text.toList := by
  induction body generalizing page with
  | nil => exact List.prefix_rfl
  | cons stmt rest ih =>
    rw [List.forall_mem_cons] at isBody
    refine List.IsPrefix.trans ?_ (ih isBody.2 _)
    cases stmt with
    | simple line => exact isPrefix_line page indent line
    | prologue resolutions => exact isPrefix_addedLines page indent _
    | trivia | compound | function | inlineFunction | runtimeImport => cases isBody.1

private theorem widths_block {header leading inner : List Token} {first last : Token}
    (noLayout : ∀ token ∈ header, token.isLayout = false) (isIndent : first.kind = .indent)
    (trivia : ∀ token ∈ leading, token.isTrivia = true)
    (inside : ∀ widths, inner.foldl Layout.widthsAfter widths = widths)
    (isDedent : last.kind = .dedent) (widths : List Nat) :
    (header ++ (leading ++ [first]) ++ inner ++ [last]).foldl Layout.widthsAfter widths = widths := by
  have noLayoutLeading := fun token member => Token.isLayout_of_isTrivia (trivia token member)
  simp only [List.foldl_append, List.foldl_cons, List.foldl_nil, widths_line noLayout,
    widths_line noLayoutLeading, inside]
  simp [Layout.widthsAfter, isIndent, isDedent]

private theorem Proceeds.block {body : List Stmt} {inner leading : List Token} {first last : Token}
    (conveys : Conveys options body inner) (isIndent : first.kind = .indent)
    (trivia : ∀ token ∈ leading, token.isTrivia = true) (isDedent : last.kind = .dedent)
    (deepens : Deepens blocks (leading ++ first :: (inner ++ [last])))
    (proceeds : Proceeds code (statements options first.text body (page.tokens leading)) later
      (Lines begins blocks · found)) :
    Proceeds code page (leading ++ first :: (inner ++ last :: later))
      (Yields {} blocks · (blockGist (bodyLinear options body) ++ found)) := by
  have noLayout := fun token member => Token.isLayout_of_isTrivia (trivia token member)
  have firstLayout : first.isLayout = true := by simp [Token.isLayout, isIndent]
  have lastLayout : last.isLayout = true := by simp [Token.isLayout, isDedent]
  have entered := (deepens_append deepens).2
  rw [widths_line noLayout] at entered
  obtain ⟨own, inside⟩ := entered
  obtain ⟨spaces, deeper, code_⟩ := own isIndent
  rw [Layout.widthsAfter, isIndent] at inside
  have hasCode : ∃ token ∈ inner, token.isTrivia = false := by
    cases inner with
    | nil =>
      have significant := code_ last rfl
      rw [Token.isSignificant, lastLayout] at significant
      simp at significant
    | cons token others =>
      have significant := code_ token rfl
      simp only [Token.isSignificant, Bool.not_eq_true', Bool.or_eq_false_iff] at significant
      exact ⟨token, List.mem_cons_self, significant.1.1⟩
  have closed := Proceeds.layout lastLayout (proceeds.imp fun _ lines => lines.closes deeper)
  have begun := conveys.proceeds spaces rfl (deepens_append inside).1 closed
  rw [conveys.begins hasCode, Bool.true_or] at begun
  have opened := Proceeds.trivia trivia (Proceeds.layout firstLayout begun)
  have said : blockGist (bodyLinear options body) ++ found =
      (.indent, "") :: (bodyLinear options body ++ (.dedent, "") :: found) := by
    simp [blockGist]
  rw [said]
  exact opened.imp fun _ lines => lines.opens deeper

namespace Conveys

private theorem compound {body : List Stmt} {header indent inner : List Token} {margin : Margin}
    {last : Token} (whole : Line.IsWhole header) (covers : margin.Covers indent)
    (conveys : Conveys options body inner) (isDedent : last.kind = .dedent) :
    Conveys options [.compound header margin body] (header ++ indent ++ inner ++ [last]) := by
  obtain ⟨first, isMargin, isIndent, trivia, rfl⟩ := covers
  refine ⟨widths_block whole.noLayout isIndent trivia conveys.widths isDedent, fun _ => rfl, ?_⟩
  intro code page later blocks found indent begins spaces level deepens proceeds
  simp only [List.append_assoc, List.cons_append] at deepens ⊢
  have below := (deepens_append deepens).2
  rw [widths_line whole.noLayout] at below
  simp only [statements, statement, isMargin] at proceeds
  have block := Proceeds.block conveys isIndent trivia isDedent below proceeds
  rw [bodyLinear, bodyLinear, List.append_nil, Stmt.linear, List.append_assoc]
  exact Proceeds.line whole spaces level block

section Functions

variable {body : List Stmt} {header : Header}

private theorem function {indent inner : List Token} {margin : Margin} {last : Token}
    (heads : Heads options header) (whole : Line.IsWhole header.tokens) (some : header.tail ≠ [])
    (covers : margin.Covers indent) (conveys : Conveys options body inner)
    (isDedent : last.kind = .dedent) :
    Conveys options [.function header margin body] (header.tokens ++ indent ++ inner ++ [last]) := by
  obtain ⟨first, isMargin, isIndent, trivia, rfl⟩ := covers
  refine ⟨widths_block whole.noLayout isIndent trivia conveys.widths isDedent, fun _ => rfl, ?_⟩
  intro code page later blocks found indent begins spaces level deepens proceeds
  simp only [List.append_assoc, List.cons_append] at deepens ⊢
  have below := (deepens_append deepens).2
  rw [widths_line whole.noLayout] at below
  simp only [statements, statement, isMargin] at proceeds
  have block := Proceeds.block conveys isIndent trivia isDedent below proceeds
  have wholeLine : Line.IsWhole (header.tokens ++ []) := by rwa [List.append_nil]
  have printed := Proceeds.headLine heads wholeLine some spaces level block
  rw [List.append_nil] at printed
  simp only [bodyLinear, Stmt.linear, isMargin, List.append_nil, List.append_assoc]
  exact printed

variable {suite : List Token}

private theorem inlineFunction (heads : Heads options header)
    (whole : Line.IsWhole (header.tokens ++ suite)) (some : header.tail ≠ [])
    (kept : inlineLine? options body = .some suite) :
    Conveys options [.function header .inline body] (header.tokens ++ suite) := by
  refine ⟨widths_line whole.noLayout, fun _ => rfl, ?_⟩
  intro code page later blocks found indent begins spaces level deepens proceeds
  simp only [statements, statement, Margin.inline, kept] at proceeds
  have printed := Proceeds.headLine heads whole some spaces level
    (proceeds.imp fun _ lines => lines.yields)
  simp only [bodyLinear, Stmt.linear, Margin.inline, kept, List.append_nil, List.append_assoc]
    at printed ⊢
  exact printed

private theorem expandedFunction (heads : Heads options header) (closes : header.Closes)
    (whole : Line.IsWhole (header.tokens ++ suite)) (some : suite ≠ [])
    (hasCode : suite.any fun token => !token.isTrivia && token.kind != .newline)
    (expanded : inlineLine? options body = none) (isBody : ∀ stmt ∈ body, stmt.isPlain = true)
    (isBegin : body.any (Stmt.begins options) = true)
    (conveys : Line.IsWhole suite → Conveys options body suite) :
    Conveys options [.function header .inline body] (header.tokens ++ suite) := by
  refine ⟨widths_line whole.noLayout, fun _ => rfl, ?_⟩
  intro code page later blocks found indent begins spaces level _ proceeds
  simp only [statements, statement, Margin.inline, expanded] at proceeds
  obtain ⟨inHeader, line, stop, rfl, isNewline, inLine⟩ := whole.split some
  have inTail : ∀ token ∈ header.tail, token.isLayout = false ∧ token.kind ≠ .newline :=
    fun token member => inHeader token (List.mem_append_right _ member)
  have codeInLine : ∃ token ∈ line, token.isTrivia = false := by
    obtain ⟨token, member, code⟩ := List.any_eq_true.1 hasCode
    simp only [Bool.and_eq_true, Bool.not_eq_true', bne_iff_ne] at code
    rcases List.mem_append.1 member with inside | isStop
    · exact ⟨token, inside, code.1⟩
    · rw [List.mem_singleton.1 isStop] at code
      exact absurd isNewline code.2
  have inner : (indent ++ innerIndent).toList = indent.toList ++ List.replicate 4 ' ' :=
    String.toList_append
  have deeper : blocks.headD 0 < Layout.width (indent ++ innerIndent).toList := by
    rw [inner, Layout.width_append_blanks, level]
    omega
  have innerSpaces : (indent ++ innerIndent).toList.all Lexeme.isSpace = true := by
    rw [inner, List.all_append, spaces]
    rfl
  have isPrefix : (page.header options indent header).text.toList <+: code := by
    obtain ⟨rest, split, -⟩ := proceeds
    refine List.IsPrefix.trans ?_ ⟨rest, split.symm⟩
    refine List.IsPrefix.trans ?_ (isPrefix_freshLine _)
    refine List.IsPrefix.trans ?_ (isPrefix_plain isBody _ _)
    rw [Page.tokens, List.foldl_nil, text_moveTo, text_write, String.toList_append]
    exact List.prefix_append _ _
  have printed := Proceeds.headAbove heads closes inTail inLine codeInLine spaces level deeper
    isPrefix fun noTrivia => by
      have wholeSuite : Line.IsWhole (line ++ [stop]) := by
        refine ⟨line, stop, rfl, isNewline, fun token member => (inLine token member).symm, ?_⟩
        cases line with
        | nil => exact absurd codeInLine (by simp)
        | cons first more => exact noTrivia
      have closed := (Proceeds.freshLine proceeds).imp fun _ lines => lines.closes deeper
      have below := (conveys wholeSuite).proceeds innerSpaces rfl
        (deepens_line wholeSuite.noLayout _) closed
      rw [isBegin, Bool.true_or] at below
      exact below
  simp only [bodyLinear, Stmt.linear, Margin.inline, expanded, blockGist, List.append_nil,
    List.append_assoc, List.cons_append, List.nil_append] at printed ⊢
  exact printed

end Functions

end Conveys

structure Named (options : Options) : Prop where
  wrapper : isIdentifier options.wrapperName.toList = true
  evaluator : isIdentifier options.evaluatorName.toList = true

def BodyConveys (options : Options) : List Stmt → List Token → Prop
  | [], tokens => tokens = []
  | stmt :: rest, tokens => ∃ front back, tokens = front ++ back ∧
    Conveys options [stmt] front ∧ BodyConveys options rest back

private theorem BodyConveys.conveys {body : List Stmt} {tokens : List Token}
    (conveys : BodyConveys options body tokens) : Conveys options body tokens := by
  induction body generalizing tokens with
  | nil =>
    cases conveys
    exact .nil
  | cons stmt rest ih =>
    obtain ⟨front, back, rfl, first, others⟩ := conveys
    exact first.append (ih others)

/-- A statement without tokens may stand anywhere between others. -/
theorem BodyConveys.insertAt {body : List Stmt} {tokens : List Token}
    (conveys : BodyConveys options body tokens) {stmt : Stmt} (added : Conveys options [stmt] [])
    (index : Nat) : Conveys options (LateBinding.insertAt index stmt body) tokens := by
  induction index generalizing body tokens with
  | zero => exact added.append conveys.conveys
  | succ index ih =>
    cases body with
    | nil =>
      cases conveys
      exact added
    | cons first rest =>
      obtain ⟨front, back, rfl, conveysFirst, others⟩ := conveys
      exact conveysFirst.append (ih others)

section Tree

variable (named : Named options) {resolutions : List Resolution}
include named

private theorem conveys_prologue (sound : ∀ resolution ∈ resolutions, resolution.Sound) :
    Conveys options [.prologue resolutions] [] := by
  refine .added (prologueLines options resolutions) (fun _ _ => rfl) rfl ?_ ?_
  · simp [Stmt.begins, Stmt.isTrivia, isSilent]
  · intro line member
    unfold prologueLines at member
    split at member
    · rw [List.mem_singleton.1 member]
      exact isLine_evaluatorLine named.evaluator
    · obtain ⟨resolution, isResolution, rfl⟩ := List.mem_map.1 member
      have isSound := sound resolution isResolution
      exact isLine_assignmentLine named.wrapper isSound.name isSound.dependencies

private theorem heads_of_bound {old new : Header} (shaped : old.Shaped)
    (bound : LateBinding.Bound old new resolutions) {suite : List Token}
    (whole : Line.IsWhole (old.tokens ++ suite)) (begins : old.head ≠ []) (ends : old.tail ≠ []) :
    Heads options new := by
  have first : ∃ first more, old.head = first :: more ∧ first.isTrivia = false := by
    obtain ⟨-, -, -, -, -, noTrivia⟩ := id whole
    obtain ⟨first, more, isHead⟩ := List.exists_cons_of_ne_nil begins
    exact ⟨first, more, isHead, noTrivia first (by simp [Header.tokens, isHead])⟩
  rw [Header.tokens, List.append_assoc] at whole
  refine ⟨named.wrapper, ?_, ?_, ?_, bound.items⟩
  · rwa [bound.head]
  · rw [bound.head, bound.parameters]
    exact (whole.split (by simp [ends])).1
  · rw [bound.head, bound.parameters]
    exact shaped.within

/-- A function with its suite on its line, once late binding has made a block of the suite. -/
private theorem conveys_inlineFunction {old new : Header} (shaped : old.Shaped)
    (closes : old.Closes) (bound : LateBinding.Bound old new resolutions) {suite line : List Token}
    (whole : Line.IsWhole line) (opens : old.OpensSuite suite line)
    (hasCode : suite.any fun token => !token.isTrivia && token.kind != .newline) :
    Conveys options
      [.function new .inline (LateBinding.addPrologue resolutions [.simple suite])] line := by
  have tokens := opens.tokens_eq
  obtain ⟨begins, ends⟩ : old.head ≠ [] ∧ old.tail ≠ [] := by
    obtain ⟨first, more, read, -⟩ := opens
    exact ⟨(Header.plain_read read).1, (Header.plain_read read).2.1⟩
  subst tokens
  have heads := heads_of_bound named shaped bound whole begins ends
  rw [← bound.tokens] at whole ⊢
  have plain : ∀ stmt ∈ LateBinding.addPrologue resolutions [.simple suite],
      stmt = .prologue resolutions ∨ stmt = .simple suite := fun stmt member =>
    (LateBinding.mem_insertAt.1 member).imp_right List.mem_singleton.1
  cases kept : inlineLine? options (LateBinding.addPrologue resolutions [.simple suite]) with
  | some line =>
    have same : line = suite := by
      rcases plain _ (mem_of_inlineLine? kept) with isPrologue | isLine
      · cases isPrologue
      · cases isLine
        rfl
    rw [same] at kept
    exact .inlineFunction heads whole (bound.tail ▸ ends) kept
  | none =>
    have closesNew : new.Closes := by
      refine ⟨?_, ?_⟩
      · rw [bound.tail]
        exact closes.colon
      · rw [bound.tokens]
        exact closes.closed
    have some : suite ≠ [] := by
      rintro rfl
      cases hasCode
    refine .expandedFunction heads closesNew whole some hasCode kept ?_ ?_ ?_
    · intro stmt member
      rcases plain stmt member with rfl | rfl <;> rfl
    · exact List.any_eq_true.2
        ⟨.simple suite, LateBinding.mem_insertAt.2 (.inr (List.mem_singleton.2 rfl)), rfl⟩
    · intro wholeSuite
      have conveys : BodyConveys options [.simple suite] suite :=
        ⟨suite, [], (List.append_nil _).symm, .simple wholeSuite, rfl⟩
      exact conveys.insertAt (conveys_prologue named bound.resolutions) _

end Tree

mutual

/-- What late binding makes of a statement that has been read conveys its tokens. -/
theorem conveys_statement {marker : String} (named : Named options) : (stmt : Stmt) →
    {tokens : List Token} → stmt.Covers tokens →
    (∀ node ∈ stmt.nodes, node.Shaped) → NamesAreIdentifiers tokens → {next : Stmt} →
    LateBinding.statement marker stmt = .ok next → Conveys options [next] tokens
  | .trivia trivia, _, covers, _, _, _, bound => by
    obtain ⟨rfl, areTrivia⟩ := covers
    cases bound
    exact .trivia areTrivia
  | .simple line, _, covers, _, _, _, bound => by
    obtain ⟨rfl, whole⟩ := covers
    cases bound
    exact .simple whole
  | .compound header margin body, _, covers, shaped, identifiers, _, bound => by
    obtain ⟨indent, inner, dedent, rfl, whole, indents, inside, isDedent⟩ := covers
    rw [Stmt.nodes, List.forall_mem_cons] at shaped
    simp only [NamesAreIdentifiers, List.forall_mem_append] at identifiers
    obtain ⟨next, boundBody, bound⟩ := bind_eq_ok.1 bound
    cases bound
    exact .compound whole indents
      (conveys_statements named body inside shaped.2 identifiers.1.2 boundBody).conveys isDedent
  | .function header margin body, _, covers, shaped, identifiers, _, bound => by
    obtain ⟨line, indent, inner, dedent, rfl, whole, opens, indents, inside, isDedent⟩ := covers
    rw [Stmt.nodes, List.forall_mem_cons] at shaped
    simp only [NamesAreIdentifiers, List.forall_mem_append] at identifiers
    obtain ⟨⟨header', resolutions⟩, boundHeader, bound⟩ := bind_eq_ok.1 bound
    obtain ⟨next, boundBody, bound⟩ := bind_eq_ok.1 bound
    cases bound
    have tokens := opens.tokens_eq
    subst tokens
    have inParameters : NamesAreIdentifiers header.parameters.tokens := fun token member =>
      identifiers.1.1.1 token (by simp [Header.tokens, member])
    have isBound := LateBinding.bound_of_header shaped.1 opens.plain inParameters boundHeader
    obtain ⟨begins, ends⟩ : header.head ≠ [] ∧ header.tail ≠ [] := by
      obtain ⟨base, behind, ⟨first, more, read, -⟩, -, rfl⟩ := opens
      obtain ⟨begins, ends, -⟩ := Header.plain_read read
      exact ⟨begins, by simp [ends]⟩
    have wholeLine : Line.IsWhole (header.tokens ++ []) := by rwa [List.append_nil]
    have heads := heads_of_bound named shaped.1 isBound wholeLine begins ends
    have conveys := (conveys_statements named body inside shaped.2 identifiers.1.2 boundBody).insertAt
      (conveys_prologue named isBound.resolutions) (LateBinding.prologueIndex next)
    rw [← isBound.tokens] at whole ⊢
    exact .function heads whole (isBound.tail ▸ ends) indents conveys isDedent
  | .inlineFunction header suite, line, covers, shaped, identifiers, _, bound => by
    obtain ⟨whole, opens, hasCode⟩ := covers
    rw [Stmt.nodes, List.forall_mem_singleton] at shaped
    obtain ⟨⟨header', resolutions⟩, boundHeader, bound⟩ := bind_eq_ok.1 bound
    cases bound
    have inParameters : NamesAreIdentifiers header.parameters.tokens := fun token member =>
      identifiers token (by rw [← opens.tokens_eq]; simp [Header.tokens, member])
    have isBound := LateBinding.bound_of_header shaped.1 opens.plain inParameters boundHeader
    exact conveys_inlineFunction named shaped.1 shaped.2 isBound whole opens hasCode
  | .prologue _, _, covers, _, _, _, _ | .runtimeImport, _, covers, _, _, _, _ => covers.elim

/-- What late binding makes of statements that have been read conveys their tokens. -/
theorem conveys_statements {marker : String} (named : Named options) : (body : List Stmt) →
    {tokens : List Token} → BodyCovers body tokens → (∀ node ∈ bodyNodes body, node.Shaped) →
    NamesAreIdentifiers tokens → {next : List Stmt} →
    LateBinding.statements marker body = .ok next → BodyConveys options next tokens
  | [], _, covers, _, _, _, bound => by
    cases covers
    cases bound
    rfl
  | stmt :: rest, _, covers, shaped, identifiers, _, bound => by
    obtain ⟨front, back, rfl, coversFirst, coversRest⟩ := covers
    rw [bodyNodes, List.forall_mem_append] at shaped
    rw [NamesAreIdentifiers, List.forall_mem_append] at identifiers
    obtain ⟨first, boundFirst, bound⟩ := bind_eq_ok.1 bound
    obtain ⟨others, boundRest, bound⟩ := bind_eq_ok.1 bound
    cases bound
    exact ⟨front, back, rfl,
      conveys_statement named stmt coversFirst shaped.1 identifiers.1 boundFirst,
      conveys_statements named rest coversRest shaped.2 identifiers.2 boundRest⟩

end

end Page

end DeferredDefaults
