import DeferredDefaults.Expansion
import DeferredDefaults.Proofs.Expansion.Agreement
import DeferredDefaults.Proofs.LateBinding.Unmarked
import DeferredDefaults.Proofs.Page.Withholding
import DeferredDefaults.Proofs.Sigil.Stability
import DeferredDefaults.Proofs.Tree.Completion

/-!
The marker stays out of the code. Where every sigil opens the default of a parameter, and the marker
that stands for it is read as a name of its own, expansion rejects the text or defers the default,
and nothing in print brings the marker about.
-/

set_option autoImplicit false
set_option relaxedAutoImplicit false

namespace DeferredDefaults

open Text (Sealed Blunt Bare)

def unnamed (marker : String) (tokens : List Token) : Bool :=
  tokens.all fun token => !token.isName marker

def ParameterItem.opensSlot (marker : String) : ParameterItem → Bool
  | .separator value => unnamed marker (value.token :: value.suffix)
  | .parameter value =>
    unnamed marker (value.stars ++ value.name :: value.hint) &&
      (value.default.all fun default => unnamed marker (default.eq :: default.value.tokens.tail)) &&
      unnamed marker value.suffix

def Header.opensSlots (marker : String) (header : Header) : Bool :=
  unnamed marker (header.head ++ header.parameters.leading ++ header.tail) &&
    header.parameters.items.all (ParameterItem.opensSlot marker)

mutual

/-- In the statement the marker is nothing but the first token of defaults of parameters. -/
def Stmt.opensSlots (marker : String) : Stmt → Bool
  | .trivia tokens => unnamed marker tokens
  | .simple line => unnamed marker line
  | .compound header margin body =>
    unnamed marker (header ++ margin.tokens) && bodyOpensSlots marker body
  | .function header margin body =>
    header.opensSlots marker && unnamed marker margin.tokens && bodyOpensSlots marker body
  | .inlineFunction header line => header.opensSlots marker && unnamed marker line
  | .prologue _ | .runtimeImport => true

/-- In the statements the marker is nothing but the first token of defaults of parameters. -/
def bodyOpensSlots (marker : String) : List Stmt → Bool
  | [] => true
  | stmt :: rest => stmt.opensSlots marker && bodyOpensSlots marker rest

end

/-- In the program the marker is nothing but the first token of defaults of parameters. -/
def Program.opensSlots (marker : String) (program : Program) : Bool :=
  bodyOpensSlots marker program.body

private theorem unnamed_iff {marker : String} {tokens : List Token} :
    unnamed marker tokens = true ↔ Unnamed marker tokens := by
  simp [unnamed, Unnamed]

/-- The name of the marker, unless options say otherwise. -/
abbrev markerName : String := ({} : Options).markerName

private theorem Guarded.lacks_of_unnamed {tokens : List Token} (guarded : Guarded tokens)
    (none : unnamed markerName tokens = true) : ∀ token ∈ tokens, Lacks token.text.toList :=
  fun token member => guarded.lacks token member (unnamed_iff.1 none token member)

structure Resolution.Withheld (resolution : Resolution) : Prop where
  name : Lacks resolution.name.toList
  dependencies : ∀ name ∈ resolution.dependencies, Lacks name.toList

namespace LateBinding

variable {scope : Scope} {resolutions : List Resolution}

private theorem lacks_parameter {value : Parameter}
    (opens : ParameterItem.opensSlot markerName (.parameter value) = true)
    (guarded : Guarded value.tokens) :
    (∀ token ∈ value.stars ++ value.name :: value.hint, Lacks token.text.toList) ∧
      (∀ default ∈ value.default, Guarded default.tokens ∧
        ∀ token ∈ default.eq :: default.value.tokens.tail, Lacks token.text.toList) ∧
      ∀ token ∈ value.suffix, Lacks token.text.toList := by
  simp only [ParameterItem.opensSlot, Bool.and_eq_true, Option.all_eq_true] at opens
  obtain ⟨⟨noName, inDefault⟩, noSuffix⟩ := opens
  obtain ⟨front, suffix⟩ := guarded_append guarded
  obtain ⟨named, slot⟩ := guarded_append front
  refine ⟨named.lacks_of_unnamed noName, fun default isDefault => ?_,
    suffix.lacks_of_unnamed noSuffix⟩
  rw [Option.mem_def.1 isDefault, Option.map_some, Option.getD_some] at slot
  refine ⟨slot, fun token member => slot.lacks token ?_ ?_⟩
  · exact List.mem_cons.2 ((List.mem_cons.1 member).imp_right List.mem_of_mem_tail)
  · exact unnamed_iff.1 (inDefault default isDefault) token member

private theorem Turns.withheld {before after : ParameterItem}
    (turns : Turns markerName scope before after resolutions)
    (names : ∀ name ∈ scope.positional ++ scope.keywordOnly, Lacks name.toList)
    (plain : Parameters.Plain before) (opens : before.opensSlot markerName = true)
    (guarded : Guarded before.tokens) :
    after.Withheld ∧ ∀ resolution ∈ resolutions, resolution.Withheld := by
  cases turns with
  | separator value => exact ⟨guarded.lacks_of_unnamed opens, List.forall_mem_nil _⟩
  | @kept value noMarker =>
    obtain ⟨named, inDefault, inSuffix⟩ := lacks_parameter opens guarded
    refine ⟨⟨named, fun default isDefault => ?_, inSuffix⟩, List.forall_mem_nil _⟩
    obtain ⟨slot, behind⟩ := inDefault default isDefault
    obtain ⟨notVariadic, tokens, isValue⟩ := plain default isDefault
    obtain ⟨eq, value⟩ := default
    subst isValue
    rw [List.forall_mem_cons] at behind
    refine ⟨behind.1, fun token member => ?_⟩
    cases tokens with
    | nil => cases member
    | cons first rest =>
      rcases List.mem_cons.1 member with rfl | inRest
      · refine slot.lacks token ?_ (noMarker eq _ isDefault notVariadic token rfl)
        exact List.mem_cons_of_mem _ member
      · exact behind.2 token inRest
  | @deferred value eq tokens call passed isDefault found =>
    obtain ⟨named, inDefault, inSuffix⟩ := lacks_parameter opens guarded
    have visible : ∀ name ∈ scope.visible passed value.kind, Lacks name.toList :=
      fun name member => names name (mem_of_mem_visible member)
    have behind := (inDefault _ isDefault).2
    rw [List.forall_mem_cons] at behind
    refine ⟨⟨named, ?_, inSuffix⟩, ?_⟩
    · rintro default ⟨⟩
      refine ⟨behind.1, visible, ?_⟩
      rw [MarkerCall.tokens_ofTokens? found]
      exact behind.2
    · rw [List.forall_mem_singleton]
      exact ⟨named value.name (by simp), visible⟩

private theorem withheld_header {old new : Header}
    (plain : ∀ item ∈ old.parameters.items, Parameters.Plain item)
    (opens : old.opensSlots markerName = true) (guarded : Guarded old.tokens)
    (bound : header markerName old = .ok (new, resolutions)) :
    (∀ token ∈ new.head ++ new.parameters.leading ++ new.tail, Lacks token.text.toList) ∧
      (∀ item ∈ new.parameters.items, item.Withheld) ∧
      ∀ resolution ∈ resolutions, resolution.Withheld := by
  obtain ⟨⟨list, own⟩, boundItems, bound⟩ := bind_eq_ok.1 bound
  cases bound
  rw [Header.opensSlots, Bool.and_eq_true, List.all_eq_true] at opens
  obtain ⟨noName, inItems⟩ := opens
  have around : ∀ token ∈ old.head ++ old.parameters.leading ++ old.tail,
      Lacks token.text.toList := by
    intro token member
    refine guarded.lacks token ?_ (unnamed_iff.1 noName token member)
    simp only [List.mem_append] at member
    simp only [Header.tokens, Parameters.tokens, List.mem_append]
    rcases member with (inHead | inLeading) | inTail
    · exact .inl (.inl inHead)
    · exact .inl (.inr (.inl inLeading))
    · exact .inr inTail
  have inItem : ∀ item ∈ old.parameters.items, Guarded item.tokens := by
    intro item isItem
    obtain ⟨front, back, split⟩ := List.append_of_mem isItem
    have inList := (guarded_append (guarded_append (guarded_append guarded).1).2).2
    rw [split, List.flatMap_append, List.flatMap_cons] at inList
    exact (guarded_append (guarded_append inList).2).1
  have names : ∀ name ∈ (Scope.ofParameters old.parameters).positional ++
      (Scope.ofParameters old.parameters).keywordOnly, Lacks name.toList :=
    forall_mem_scope fun value isItem =>
      (lacks_parameter (inItems _ isItem) (inItem _ isItem)).1 value.name (by simp)
  obtain ⟨turned, resolved⟩ := turns_items boundItems
  refine ⟨around, fun item member => ?_, fun resolution member => ?_⟩
  · obtain ⟨before, isItem, own, turns⟩ := turned item member
    exact (turns.withheld names (plain _ isItem) (inItems _ isItem) (inItem _ isItem)).1
  · obtain ⟨before, isItem, after, own, turns, isOwn⟩ := resolved resolution member
    exact (turns.withheld names (plain _ isItem) (inItems _ isItem) (inItem _ isItem)).2
      resolution isOwn

end LateBinding

private theorem withheld_prologue {resolutions : List Resolution}
    (sound : ∀ resolution ∈ resolutions, resolution.Sound)
    (withheld : ∀ resolution ∈ resolutions, resolution.Withheld) :
    (Stmt.prologue resolutions).Withheld := by
  intro indent page spaces clean
  refine clean.addedLines spaces fun line member => ?_
  obtain ⟨resolution, isResolution, rfl⟩ := List.mem_map.1 member
  have isSound := sound resolution isResolution
  have lacks := withheld resolution isResolution
  rw [Page.textOf_assignmentWords]
  have stands : Phrase.Stands (.name "if" :: Page.assignmentWords {} resolution) none :=
    Page.stands_assignmentWords (by decide) isSound.name isSound.dependencies
  refine stands.lacks fun text isWord => ?_
  simp only [Page.assignmentWords, List.mem_append, List.mem_cons, Word.name.injEq, reduceCtorEq,
    List.not_mem_nil, or_false, false_or] at isWord
  rcases isWord with rfl | (rfl | rfl | rfl | rfl | rfl) | listed
  · decide
  · decide
  · exact lacks.name
  · decide
  · exact lacks.name
  · exact lacks.name
  · exact lacks.dependencies text (Phrase.mem_of_mem_listed listed)

private theorem withheld_import : Stmt.runtimeImport.Withheld :=
  fun _ _ spaces clean => clean.addedLine spaces (by decide +kernel)

private theorem withheld_line {line : List Token} (whole : Line.IsWhole line)
    (guarded : Guarded line) (none : unnamed markerName line = true) :
    (Stmt.simple line).Withheld := by
  intro indent page spaces clean
  have some : line ≠ [] := by
    obtain ⟨code, stop, rfl, -⟩ := whole
    simp
  have strung : Strung (line ++ []) := by
    rw [List.append_nil]
    exact guarded.strung whole.noLayout
  exact (clean.line spaces strung (guarded.lacks_of_unnamed none) some).toClean

private theorem Page.Clean.block {page : Page} (clean : page.Clean) {margin : Margin}
    {tokens : List Token} (covers : margin.Covers tokens) (guarded : Guarded tokens)
    (none : unnamed markerName margin.tokens = true) {body : List Stmt}
    (withheld : ∀ stmt ∈ body, stmt.Withheld) : ∃ inner, margin.indent = some inner ∧
      (Page.statements {} inner.text body (page.tokens margin.leading)).Clean := by
  obtain ⟨inner, isIndent, isKind, trivia, rfl⟩ := covers
  rw [Margin.tokens, unnamed_iff, unnamed_append] at none
  obtain ⟨leading, last⟩ := guarded_append guarded
  have spaces := (last.edged inner (List.mem_singleton.2 rfl)).indent isKind
  have led := clean.trivia trivia leading.edged (leading.lacks_of_unnamed (unnamed_iff.2 none.1))
  exact ⟨inner, isIndent, led.statements withheld spaces⟩

section Functions

variable {old new : Header} {resolutions : List Resolution} {line suite : List Token}

private theorem Page.Clean.boundHeader {page : Page} (clean : page.Clean) {indent : String}
    (spaces : Bare markerText indent.toList) (whole : Line.IsWhole (old.tokens ++ suite))
    (begins : old.head ≠ []) (guarded : Guarded (old.tokens ++ suite))
    (isBound : LateBinding.Bound old new resolutions)
    (around : ∀ token ∈ new.head ++ new.parameters.leading ++ new.tail, Lacks token.text.toList)
    (items : ∀ item ∈ new.parameters.items, item.Withheld) :
    (page.header {} indent new).Awaits suite := by
  have strung : Strung (new.tokens ++ suite) := by
    rw [isBound.tokens]
    exact guarded.strung whole.noLayout
  refine clean.header spaces ?_ around (fun item member => ?_) strung
  · rwa [isBound.head]
  · exact ⟨isBound.items item member, items item member⟩

/-- A function with its suite on its line, once late binding has made a block of the suite. -/
private theorem withheld_inlineFunction (whole : Line.IsWhole line)
    (opens : old.OpensSuite suite line)
    (hasCode : suite.any fun token => !token.isTrivia && token.kind != .newline)
    (guarded : Guarded line) (unnamed : unnamed markerName suite = true)
    (isBound : LateBinding.Bound old new resolutions)
    (around : ∀ token ∈ new.head ++ new.parameters.leading ++ new.tail, Lacks token.text.toList)
    (items : ∀ item ∈ new.parameters.items, item.Withheld)
    (resolved : ∀ resolution ∈ resolutions, resolution.Withheld) :
    (Stmt.function new .inline (LateBinding.addPrologue resolutions [.simple suite])).Withheld := by
  intro indent page spaces clean
  have begins : old.head ≠ [] := by
    obtain ⟨first, more, read, -⟩ := opens
    exact (Header.plain_read read).1
  have tokens := opens.tokens_eq
  subst tokens
  have inSuite := (guarded_append guarded).2
  have lacks := inSuite.lacks_of_unnamed unnamed
  have noLayout : ∀ token ∈ suite, token.isLayout = false := fun token member =>
    whole.noLayout token (List.mem_append_right _ member)
  have strung : Strung (suite ++ []) := by
    rw [List.append_nil]
    exact inSuite.strung noLayout
  have some : suite ≠ [] := by
    rintro rfl
    cases hasCode
  have headed := clean.boundHeader spaces whole begins guarded isBound around items
  have plain : ∀ stmt ∈ LateBinding.addPrologue resolutions [.simple suite],
      stmt = .prologue resolutions ∨ stmt = .simple suite := fun stmt member =>
    (LateBinding.mem_insertAt.1 member).imp_right List.mem_singleton.1
  simp only [Page.statement, Margin.inline]
  cases kept : Page.inlineLine? {} (LateBinding.addPrologue resolutions [.simple suite]) with
  | some line =>
    rcases plain _ (Page.mem_of_inlineLine? kept) with isPrologue | isLine
    · cases isPrologue
    · cases isLine
      rw [← List.append_nil suite] at headed
      exact (Page.Withholds.tokens lacks strung headed).toClean
  | none =>
    refine (Page.Clean.statements ?_ ?_ ?_).freshLine.1
    · exact (headed.writeBare (by decide)).moveTo none
    · intro stmt member
      rcases plain stmt member with rfl | rfl
      · exact withheld_prologue isBound.resolutions resolved
      · intro indent page spaces clean
        exact (clean.line spaces strung lacks some).toClean
    · rw [String.toList_append]
      exact spaces.append (by decide)

end Functions

private theorem guarded_block {header indent inner : List Token} {dedent : Token}
    (guarded : Guarded (header ++ indent ++ inner ++ [dedent])) :
    Guarded header ∧ Guarded indent ∧ Guarded inner := by
  obtain ⟨front, insideBlock⟩ := guarded_append (guarded_append guarded).1
  exact ⟨(guarded_append front).1, (guarded_append front).2, insideBlock⟩

mutual

/-- What late binding makes of a statement keeps the marker out of print. -/
private theorem withheld_statement : (stmt : Stmt) → {tokens : List Token} → stmt.Covers tokens →
    (∀ node ∈ stmt.nodes, node.Shaped) → NamesAreIdentifiers tokens → Guarded tokens →
    stmt.opensSlots markerName = true → {next : Stmt} →
    LateBinding.statement markerName stmt = .ok next → next.Withheld
  | .trivia trivia, _, covers, _, _, guarded, opens, _, bound => by
    obtain ⟨rfl, areTrivia⟩ := covers
    cases bound
    intro indent page _ clean
    exact clean.trivia areTrivia guarded.edged (guarded.lacks_of_unnamed opens)
  | .simple line, _, covers, _, _, guarded, opens, _, bound => by
    obtain ⟨rfl, whole⟩ := covers
    cases bound
    exact withheld_line whole guarded opens
  | .compound header margin body, _, covers, shaped, identifiers, guarded, opens, _, bound => by
    obtain ⟨indent, inner, dedent, rfl, whole, indents, inside, isDedent⟩ := covers
    rw [Stmt.nodes, List.forall_mem_cons] at shaped
    simp only [NamesAreIdentifiers, List.forall_mem_append] at identifiers
    obtain ⟨next, boundBody, bound⟩ := bind_eq_ok.1 bound
    cases bound
    rw [Stmt.opensSlots, Bool.and_eq_true, unnamed_iff, unnamed_append] at opens
    obtain ⟨⟨noneAbove, noneBeside⟩, inBody⟩ := opens
    obtain ⟨above, beside, below⟩ := guarded_block guarded
    have withheld := withheld_statements body inside shaped.2 identifiers.1.2 below inBody boundBody
    intro outer page spaces clean
    have headed := withheld_line whole above (unnamed_iff.2 noneAbove) spaces clean
    obtain ⟨first, isFirst, printed⟩ :=
      headed.block indents beside (unnamed_iff.2 noneBeside) withheld
    simpa only [Page.statement, isFirst] using printed
  | .function header margin body, _, covers, shaped, identifiers, guarded, opens, _, bound => by
    obtain ⟨line, indent, inner, dedent, rfl, whole, opensBlock, indents, inside, isDedent⟩ := covers
    rw [Stmt.nodes, List.forall_mem_cons] at shaped
    simp only [NamesAreIdentifiers, List.forall_mem_append] at identifiers
    obtain ⟨⟨header', resolutions⟩, boundHeader, bound⟩ := bind_eq_ok.1 bound
    obtain ⟨next, boundBody, bound⟩ := bind_eq_ok.1 bound
    cases bound
    simp only [Stmt.opensSlots, Bool.and_eq_true] at opens
    obtain ⟨⟨inHeader, noneBeside⟩, inBody⟩ := opens
    have tokens := opensBlock.tokens_eq
    subst tokens
    obtain ⟨above, beside, below⟩ := guarded_block guarded
    have inParameters : NamesAreIdentifiers header.parameters.tokens := fun token member =>
      identifiers.1.1.1 token (by simp [Header.tokens, member])
    have isBound := LateBinding.bound_of_header shaped.1 opensBlock.plain inParameters boundHeader
    obtain ⟨around, items, resolved⟩ := LateBinding.withheld_header opensBlock.plain inHeader above
      boundHeader
    have begins : header.head ≠ [] := by
      obtain ⟨base, behind, ⟨first, more, read, -⟩, -, rfl⟩ := opensBlock
      exact (Header.plain_read read).1
    have withheld : ∀ stmt ∈ LateBinding.addPrologue resolutions next, stmt.Withheld := by
      intro stmt member
      rcases LateBinding.mem_insertAt.1 member with rfl | isOld
      · exact withheld_prologue isBound.resolutions resolved
      · exact withheld_statements body inside shaped.2 identifiers.1.2 below inBody boundBody stmt
          isOld
    intro outer page spaces clean
    rw [← List.append_nil header.tokens] at whole above
    have headed := clean.boundHeader spaces whole begins above isBound around items
    obtain ⟨first, isFirst, printed⟩ := headed.block indents beside noneBeside withheld
    simpa only [Page.statement, isFirst] using printed
  | .inlineFunction header suite, line, covers, shaped, identifiers, guarded, opens, _, bound => by
    obtain ⟨whole, opensSuite, hasCode⟩ := covers
    rw [Stmt.nodes, List.forall_mem_singleton] at shaped
    obtain ⟨⟨header', resolutions⟩, boundHeader, bound⟩ := bind_eq_ok.1 bound
    cases bound
    rw [Stmt.opensSlots, Bool.and_eq_true] at opens
    have inLine : Guarded (header.tokens ++ suite) := by rwa [opensSuite.tokens_eq]
    have inParameters : NamesAreIdentifiers header.parameters.tokens := fun token member =>
      identifiers token (by rw [← opensSuite.tokens_eq]; simp [Header.tokens, member])
    have isBound := LateBinding.bound_of_header shaped.1 opensSuite.plain inParameters boundHeader
    obtain ⟨around, items, resolved⟩ := LateBinding.withheld_header opensSuite.plain opens.1
      (guarded_append inLine).1 boundHeader
    exact withheld_inlineFunction whole opensSuite hasCode guarded opens.2 isBound around items
      resolved
  | .prologue _, _, covers, _, _, _, _, _, _ | .runtimeImport, _, covers, _, _, _, _, _, _ =>
    covers.elim

private theorem withheld_statements : (body : List Stmt) → {tokens : List Token} →
    BodyCovers body tokens → (∀ node ∈ bodyNodes body, node.Shaped) → NamesAreIdentifiers tokens →
    Guarded tokens → bodyOpensSlots markerName body = true → {next : List Stmt} →
    LateBinding.statements markerName body = .ok next → ∀ stmt ∈ next, stmt.Withheld
  | [], _, covers, _, _, _, _, _, bound => by
    cases bound
    exact List.forall_mem_nil _
  | stmt :: rest, _, covers, shaped, identifiers, guarded, opens, _, bound => by
    obtain ⟨front, back, rfl, coversFirst, coversRest⟩ := covers
    rw [bodyNodes, List.forall_mem_append] at shaped
    rw [NamesAreIdentifiers, List.forall_mem_append] at identifiers
    rw [bodyOpensSlots, Bool.and_eq_true] at opens
    obtain ⟨guardedFirst, guardedRest⟩ := guarded_append guarded
    obtain ⟨first, boundFirst, bound⟩ := bind_eq_ok.1 bound
    obtain ⟨others, boundRest, bound⟩ := bind_eq_ok.1 bound
    cases bound
    rw [List.forall_mem_cons]
    exact ⟨
      withheld_statement stmt coversFirst shaped.1 identifiers.1 guardedFirst opens.1 boundFirst,
      withheld_statements rest coversRest shaped.2 identifiers.2 guardedRest opens.2 boundRest⟩

end

def Lexeme.ComeFrom (lexemes : List Lexeme) (tokens : List Token) : Prop :=
  ∀ lexeme ∈ lexemes, lexeme.kind.hasToken = true → ∃ token ∈ tokens,
    token.text = String.ofList lexeme.text ∧ (token.kind = .name → lexeme.kind = .name)

private theorem Lexeme.hasToken_of_mem_padOf {indent : List Char} {rows columns : Nat} :
    ∀ lexeme ∈ padOf indent rows columns, lexeme.kind.hasToken = false := by
  have inSpace : ∀ text, ∀ lexeme ∈ spaceOf text, lexeme.kind.hasToken = false := by
    intro text lexeme member
    unfold spaceOf at member
    split at member
    · cases member
    · rw [List.mem_singleton.1 member]
      rfl
  intro lexeme member
  unfold padOf at member
  split at member
  · exact inSpace _ lexeme member
  · rcases List.mem_append.1 member with inFront | right
    · rcases List.mem_append.1 inFront with margin | down
      · exact inSpace _ lexeme margin
      · rw [List.eq_of_mem_replicate down]
        rfl
    · exact inSpace _ lexeme right

private theorem Lexeme.comeFrom_pad (writer : SourceText) (token : Token) (tokens : List Token) :
    ComeFrom (writer.pad token) tokens := by
  intro lexeme member hasToken
  rw [hasToken_of_mem_padOf lexeme member] at hasToken
  cases hasToken

private theorem Lexeme.ComeFrom.token {lexemes : List Lexeme} {rest : List Token}
    (others : ComeFrom lexemes rest) {phase : Phase} {lexeme : Lexeme} {token : Token}
    (kind : token.kind = phase.kindOf lexeme.kind) (text : token.text = String.ofList lexeme.text)
    (writer : SourceText) (blocks : List Token) :
    ComeFrom (writer.pad token ++ lexeme :: lexemes) (blocks ++ token :: rest) := by
  refine List.forall_mem_append.2 ⟨comeFrom_pad _ _ _, List.forall_mem_cons.2 ⟨fun _ => ?_, ?_⟩⟩
  · exact ⟨token, by simp, text, (Lexeme.kind_of_kindOf kind).2.1⟩
  · intro other isOther hasToken
    obtain ⟨token, isToken, same⟩ := others other isOther hasToken
    exact ⟨token, by simp [isToken], same⟩

private theorem Written.comeFrom {phase : Phase} {writer : SourceText} {tokens : List Token}
    {lexemes : List Lexeme} (written : Written phase writer tokens lexemes) :
    Lexeme.ComeFrom lexemes tokens := by
  induction written with
  | token _ _ kind text _ _ _ ih => exact ih.token kind text _ []
  | first _ _ _ _ _ _ kind text _ _ _ ih => exact ih.token kind text _ _
  | @opened _ _ block _ _ _ _ _ _ _ _ _ _ kind text _ _ _ ih => exact ih.token kind text _ [block]
  | ended => exact List.forall_mem_nil _
  | cutOff => exact Lexeme.comeFrom_pad _ _ _

private theorem lacks_empty : Lacks [] := fun found => markerText_ne_nil (List.infix_nil.1 found)

private theorem lacks_layout {token : Token} (edged : token.Edged)
    (empty : token.kind ≠ .indent → token.text = "") : Lacks token.text.toList := by
  by_cases isIndent : token.kind = .indent
  · exact (edged.indent isIndent).free markerText_ne_nil
  · rw [empty isIndent]
    exact lacks_empty

private theorem lacks_tokenize {source : String} {tokens : List Token}
    (absent : Lacks source.toList) (tokenized : tokenize source = .ok tokens) :
    ∀ token ∈ tokens, Lacks token.text.toList := by
  intro token member
  rcases Layout.mem_run (Lexeme.reads_split source.toList) tokenized token member with
    ⟨-, empty⟩ | ⟨-, empty⟩ | ⟨before, lexeme, rest, isLexeme, -, -, rfl⟩
  · exact lacks_layout ((fenced_tokenize tokenized).1 token member) empty
  · rw [empty]
    exact lacks_empty
  · rw [Layout.text_tokenFor, String.toList_ofList]
    have within : lexeme.text <:+: ((Lexeme.split source.toList).map Lexeme.text).flatten :=
      List.infix_of_mem_flatten (List.mem_map_of_mem isLexeme)
    have whole : ((Lexeme.split source.toList).map Lexeme.text).flatten = source.toList :=
      Lexeme.flatMap_text_split source.toList
    rw [whole] at within
    exact fun found => absent (found.trans within)

private theorem guarded_markedText {source text : String} {tokens again : List Token}
    (absent : Lacks source.toList) (tokenized : tokenize source = .ok tokens)
    (clears : Sigil.Clears markerName tokens)
    (marked : Expansion.markedText {} source = .ok text) (read : tokenize text = .ok again) :
    Guarded again := by
  obtain ⟨edged, fenced⟩ := fenced_tokenize read
  refine ⟨fenced, edged, fun token member noMarker => ?_⟩
  obtain ⟨_, isText, written⟩ := Expansion.split_markedText (by decide) tokenized clears
  cases isText.symm.trans marked
  rcases Layout.mem_run (Lexeme.reads_split text.toList) read token member with
    ⟨-, empty⟩ | ⟨-, empty⟩ | ⟨before, lexeme, rest, isLexeme, -, hasToken, rfl⟩
  · exact lacks_layout (edged token member) empty
  · rw [empty]
    exact lacks_empty
  · obtain ⟨origin, isOrigin, text, named⟩ := written.comeFrom lexeme isLexeme hasToken
    rw [Layout.text_tokenFor, ← text]
    rcases Sigil.mem_mark origin isOrigin with ⟨isName, isMarker⟩ | ⟨source, isSource, -, same⟩
    · refine absurd noMarker ?_
      rw [Token.isName, Layout.name_tokenFor.2 (named isName), Layout.text_tokenFor, ← text, isMarker]
      simp
    · rw [same]
      exact lacks_tokenize absent tokenized source isSource

private theorem namesAreIdentifiers_tokenize {source : String} {tokens : List Token}
    (tokenized : tokenize source = .ok tokens) : NamesAreIdentifiers tokens := by
  intro token member isName
  rcases Layout.mem_run (Lexeme.reads_split source.toList) tokenized token member with
    ⟨isLayout, -⟩ | ⟨newline, -⟩ | ⟨before, lexeme, rest, -, ⟨filled, read, -⟩, -, rfl⟩
  · simp [Token.isLayout, isName] at isLayout
  · simp [isName] at newline
  · rw [Layout.name_tokenFor.1 isName] at read
    rw [Layout.text_tokenFor, String.toList_ofList]
    exact Lexeme.isIdentifier_of_first filled read

namespace Expansion

/-- In the tree of the marked text the marker is nothing but the first token of defaults of
parameters. -/
def sigilsOpenSlots (source : String) : Bool :=
  match markedText {} source >>= tokenize >>= Program.ofTokens with
  | .ok program => program.opensSlots markerName
  | .error _ => true

/-- Where all sigils open defaults, and the marker stays a name of its own, no marker is left. -/
theorem marker_withheld {source code : String} (absent : ¬ markerText <:+: source.toList)
    (slots : sigilsOpenSlots source = true)
    (clears : ∀ tokens, tokenize source = .ok tokens → Sigil.Clears markerName tokens)
    (expands : throughText {} source = .ok code) : ¬ markerText <:+: code.toList := by
  obtain ⟨text, marked, reread⟩ := bind_eq_ok.1 expands
  obtain ⟨again, read, printed⟩ := bind_eq_ok.1 reread
  obtain ⟨expanded, ofAgain, isCode⟩ := bind_eq_ok.1 printed
  obtain ⟨program, ofTokens, late⟩ := bind_eq_ok.1 ofAgain
  obtain ⟨next, bound, isExpanded⟩ := bind_eq_ok.1 late
  obtain ⟨body, boundBody, isNext⟩ := bind_eq_ok.1 bound
  cases isCode
  cases isExpanded
  cases isNext
  obtain ⟨tokens, tokenized⟩ : ∃ tokens, tokenize source = .ok tokens := by
    obtain ⟨marks, isMarks, -⟩ := bind_eq_ok.1 marked
    obtain ⟨tokens, tokenized, -⟩ := map_eq_ok.1 isMarks
    exact ⟨tokens, tokenized⟩
  have opens : program.opensSlots markerName = true := by
    rw [sigilsOpenSlots, marked, show Except.ok text >>= tokenize = .ok again from read,
      show Except.ok again >>= Program.ofTokens = .ok program from ofTokens] at slots
    exact slots
  have guarded := guarded_markedText absent tokenized (clears tokens tokenized) marked read
  obtain ⟨front, stop, rfl, -, covers⟩ := Program.covers_of_nested
    (Layout.nested_run Layout.stacked_initial read) ofTokens
  have names := namesAreIdentifiers_tokenize read
  rw [NamesAreIdentifiers, List.forall_mem_append] at names
  have withheld := withheld_statements program.body covers (Program.shaped_ofTokens ofTokens) names.1
    (guarded_append guarded).1 opens boundBody
  refine (Page.clean_empty.statements (fun stmt member => ?_) (by decide)).lacks
  rcases LateBinding.mem_insertAt.1 member with rfl | isOld
  · exact withheld_import
  · exact withheld stmt isOld

def slotsSource : String := "def f(a, b=>\n (a), *, c=>  (a,b)):\n b\n"

theorem marker_withheld_slots : ∃ code, throughText {} slotsSource = .ok code ∧
    ¬ markerText <:+: code.toList := by
  have apart : (tokenize slotsSource).toOption.any (Sigil.followedBy Token.endsName) = true := by
    decide +kernel
  have clears : ∀ tokens, tokenize slotsSource = .ok tokens → Sigil.Clears markerName tokens := by
    intro tokens tokenized
    rw [tokenized] at apart
    exact Sigil.clears_of_endsName (by decide) tokenized apart
  have succeeds : (throughText {} slotsSource).isOk = true := by decide +kernel
  cases expands : throughText {} slotsSource with
  | error fault =>
    rw [expands] at succeeds
    cases succeeds
  | ok code =>
    exact ⟨code, rfl, marker_withheld (by decide +kernel) (by decide +kernel) clears expands⟩

/-- In front of a name the marker is read as a part of it, and is printed. -/
example : (throughText {} "def f(a, b => a): pass\n").toOption.any
    (fun code => decide (markerText <:+: code.toList)) = true := by decide +kernel

end Expansion

end DeferredDefaults
