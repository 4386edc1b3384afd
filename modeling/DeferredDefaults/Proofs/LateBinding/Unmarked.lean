import DeferredDefaults.Proofs.LateBinding.Exhaustive
import DeferredDefaults.Proofs.Page.Typesetting

/-!
Late binding of a tree in which nothing calls the marker. It succeeds, defers no default and adds
prologues without resolutions. Where late defaults are resolved by assignments such a prologue has
no lines, so the tree is printed as before, up to the import.
-/

set_option autoImplicit false
set_option relaxedAutoImplicit false

namespace DeferredDefaults

def Unnamed (marker : String) (tokens : List Token) : Prop :=
  ∀ token ∈ tokens, token.isName marker = false

theorem unnamed_append {marker : String} {front back : List Token} :
    Unnamed marker (front ++ back) ↔ Unnamed marker front ∧ Unnamed marker back :=
  List.forall_mem_append

private theorem Deferred.ofTokens?_of_unnamed {marker : String} {tokens : List Token}
    (unnamed : Unnamed marker tokens) (name : String) (dependencies : List String) :
    Deferred.ofTokens? marker name dependencies tokens = .ok none := by
  cases tokens with
  | nil => rfl
  | cons first rest =>
    have noName := unnamed first List.mem_cons_self
    simp [Deferred.ofTokens?, MarkerCall.ofTokens?, noName]

namespace LateBinding

variable {marker : String}

private theorem parameter_of_unnamed {value : Parameter} (unnamed : Unnamed marker value.tokens)
    (scope : Scope) (passed : Scope.Passed) :
    parameter marker scope passed value = .ok (value, []) := by
  unfold parameter
  split
  · next eq tokens default =>
    have inside : Unnamed marker tokens := by
      intro token member
      refine unnamed token ?_
      simp [Parameter.tokens, default, ParameterDefault.tokens, DefaultValue.tokens, member]
    split
    · rfl
    · simp only [Deferred.ofTokens?_of_unnamed inside]
      rfl
  · rfl

private theorem items_of_unnamed {list : List ParameterItem}
    (unnamed : Unnamed marker (list.flatMap ParameterItem.tokens)) (scope : Scope)
    (passed : Scope.Passed) : items marker scope passed list = .ok (list, []) := by
  induction list generalizing passed with
  | nil => rfl
  | cons item rest ih =>
    rw [List.flatMap_cons, unnamed_append] at unnamed
    cases item with
    | separator value =>
      rw [items, ih unnamed.2]
      rfl
    | parameter value =>
      rw [items, parameter_of_unnamed unnamed.1, ih unnamed.2]
      rfl

private theorem header_of_unnamed {first : Header} (unnamed : Unnamed marker first.tokens) :
    header marker first = .ok (first, []) := by
  have inside : Unnamed marker (first.parameters.items.flatMap ParameterItem.tokens) := by
    intro token member
    refine unnamed token ?_
    simp only [Header.tokens, Parameters.tokens, List.mem_append]
    exact .inl (.inr (.inr member))
  rw [header, items_of_unnamed inside]
  rfl

end LateBinding

namespace Page

variable {options : Options}

/-- A statement that is printed like another and plays its part at the front of a body. -/
structure PrintsAs (options : Options) (next stmt : Stmt) : Prop where
  print : ∀ indent page, statement options indent next page = statement options indent stmt page
  trivia : next.isTrivia = stmt.isTrivia
  docstring : next.isDocstring = stmt.isDocstring
  future : next.isFutureImport = stmt.isFutureImport

theorem PrintsAs.refl (options : Options) (stmt : Stmt) : PrintsAs options stmt stmt :=
  ⟨fun _ _ => rfl, rfl, rfl, rfl⟩

theorem statements_printsAs {next body : List Stmt}
    (same : List.Forall₂ (PrintsAs options) next body) (indent : String) (page : Page) :
    statements options indent next page = statements options indent body page := by
  induction same generalizing page with
  | nil => rfl
  | cons head _ ih => rw [statements, statements, head.print, ih]

private theorem statements_addPrologue (style : options.prologue = .assignments) (indent : String)
    (body : List Stmt) (page : Page) :
    statements options indent (LateBinding.addPrologue [] body) page =
      statements options indent body page := by
  have silent : ∀ page, statement options indent (.prologue []) page = page := by
    intro page
    simp [statement, prologueLines, style]
  rw [LateBinding.addPrologue, LateBinding.insertAt, statements_append, statements, silent,
    ← statements_append, List.take_append_drop]

private theorem inlineLine?_addPrologue (style : options.prologue = .assignments)
    (line : List Token) :
    inlineLine? options (LateBinding.addPrologue [] [.simple line]) = some line := by
  have silent : isSilent options (.prologue []) = true := by simp [isSilent, prologueLines, style]
  have kept : isSilent options (.simple line) = false := rfl
  simp only [LateBinding.addPrologue, LateBinding.insertAt, LateBinding.prologueIndex]
  cases docstring : Stmt.isDocstring (.simple line) with
  | true => simp [inlineLine?, Stmt.isTrivia, docstring, silent, kept]
  | false => simp [inlineLine?, Stmt.isTrivia, docstring, silent, kept]

private theorem PrintsAs.compound {next body : List Stmt}
    (same : List.Forall₂ (PrintsAs options) next body) (header : List Token) (margin : Margin) :
    PrintsAs options (.compound header margin next) (.compound header margin body) := by
  refine ⟨fun indent page => ?_, rfl, rfl, rfl⟩
  simp only [statement, statements_printsAs same]

private theorem PrintsAs.function (style : options.prologue = .assignments) {next body : List Stmt}
    (same : List.Forall₂ (PrintsAs options) next body) (header : Header) (leading : List Token)
    (inner : Token) :
    PrintsAs options (.function header ⟨leading, some inner⟩ (LateBinding.addPrologue [] next))
      (.function header ⟨leading, some inner⟩ body) := by
  refine ⟨fun indent page => ?_, rfl, rfl, rfl⟩
  simp only [statement, statements_addPrologue style, statements_printsAs same]

private theorem PrintsAs.inlineFunction (style : options.prologue = .assignments) (header : Header)
    (line : List Token) :
    PrintsAs options (.function header .inline (LateBinding.addPrologue [] [.simple line]))
      (.inlineFunction header line) := by
  refine ⟨fun indent page => ?_, rfl, rfl, rfl⟩
  simp only [statement, Margin.inline, inlineLine?_addPrologue style]

mutual

theorem printsAs_statement {marker : String} (style : options.prologue = .assignments) :
    (stmt : Stmt) → {tokens : List Token} →
    stmt.Covers tokens → Unnamed marker tokens →
    ∃ next, LateBinding.statement marker stmt = .ok next ∧ PrintsAs options next stmt
  | .trivia trivia, _, _, _ => ⟨_, rfl, .refl options _⟩
  | .simple line, _, _, _ => ⟨_, rfl, .refl options _⟩
  | .compound header margin body, _, covers, unnamed => by
    obtain ⟨indent, inner, dedent, rfl, -, -, inside, -⟩ := covers
    simp only [unnamed_append] at unnamed
    obtain ⟨next, bound, same⟩ := printsAs_statements style body inside unnamed.1.2
    refine ⟨.compound header margin next, ?_, .compound same header margin⟩
    rw [LateBinding.statement, bound]
    rfl
  | .function header margin body, _, covers, unnamed => by
    obtain ⟨line, _, inner, dedent, rfl, -, opens, ⟨indent, isIndent, -⟩, inside, -⟩ := covers
    simp only [unnamed_append] at unnamed
    obtain ⟨next, bound, same⟩ := printsAs_statements style body inside unnamed.1.2
    have unnamedHeader : Unnamed marker header.tokens := by
      rw [opens.tokens_eq]
      exact unnamed.1.1.1
    refine ⟨.function header margin (LateBinding.addPrologue [] next), ?_, ?_⟩
    · rw [LateBinding.statement, LateBinding.header_of_unnamed unnamedHeader, bound]
      rfl
    · obtain ⟨leading, _⟩ := margin
      cases isIndent
      exact .function style same header leading indent
  | .inlineFunction header suite, _, covers, unnamed => by
    obtain ⟨-, opens, -⟩ := covers
    rw [← opens.tokens_eq, unnamed_append] at unnamed
    refine ⟨.function header .inline (LateBinding.addPrologue [] [.simple suite]), ?_,
      .inlineFunction style header suite⟩
    rw [LateBinding.statement, LateBinding.header_of_unnamed unnamed.1]
    rfl
  | .prologue _, _, covers, _ | .runtimeImport, _, covers, _ => covers.elim

theorem printsAs_statements {marker : String} (style : options.prologue = .assignments) :
    (body : List Stmt) → {tokens : List Token} →
    BodyCovers body tokens → Unnamed marker tokens →
    ∃ next, LateBinding.statements marker body = .ok next ∧
      List.Forall₂ (PrintsAs options) next body
  | [], _, _, _ => ⟨[], rfl, .nil⟩
  | stmt :: rest, _, covers, unnamed => by
    obtain ⟨front, back, rfl, coversFirst, coversRest⟩ := covers
    rw [unnamed_append] at unnamed
    obtain ⟨first, boundFirst, sameFirst⟩ := printsAs_statement style stmt coversFirst unnamed.1
    obtain ⟨others, boundRest, sameRest⟩ := printsAs_statements style rest coversRest unnamed.2
    refine ⟨first :: others, ?_, .cons sameFirst sameRest⟩
    rw [LateBinding.statements, boundFirst, boundRest]
    rfl

end

private theorem futureLength_printsAs {next body : List Stmt}
    (same : List.Forall₂ (PrintsAs options) next body) :
    LateBinding.futureLength next = LateBinding.futureLength body := by
  induction same with
  | nil => rfl
  | cons head _ ih =>
    rw [LateBinding.futureLength, LateBinding.futureLength, head.future, head.trivia, ih]

private theorem prologueIndex_printsAs {next body : List Stmt}
    (same : List.Forall₂ (PrintsAs options) next body) :
    LateBinding.prologueIndex next = LateBinding.prologueIndex body := by
  induction same with
  | nil => rfl
  | cons head _ ih =>
    rw [LateBinding.prologueIndex_cons, LateBinding.prologueIndex_cons, head.trivia,
      head.docstring, ih]

theorem importIndex_printsAs {next body : List Stmt}
    (same : List.Forall₂ (PrintsAs options) next body) :
    LateBinding.importIndex next = LateBinding.importIndex body := by
  simp only [LateBinding.importIndex, prologueIndex_printsAs same]
  rw [futureLength_printsAs (List.forall₂_drop _ same)]

end Page

end DeferredDefaults
