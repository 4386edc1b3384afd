import Mathlib.Data.List.Basic
import DeferredDefaults.Proofs.Expansion.Faithful
import DeferredDefaults.Proofs.LateBinding.Rejection

/-!
How the expression of a late default is grouped. The call of the wrapper takes over the parentheses
of the marker call, and only a tuple gets parentheses of its own. So a token of the only argument
stands one bracket deep in the call of the wrapper if it stands outside brackets in the argument,
where the lambda does not hold what binds looser than its body.
-/

set_option autoImplicit false
set_option relaxedAutoImplicit false

namespace DeferredDefaults

/-- The token binds looser than the body of a lambda: the `for` of a comprehension, or `:=`. -/
def Token.isLoose (token : Token) : Bool := token.isName "for" || token.isOp ":="

def depthSaid (depth : Nat) (said : Kind × String) : Nat :=
  Token.depthAfter depth ⟨said.1, said.2, .origin, .origin⟩

private theorem foldl_depthSaid_gist (tokens : List Token) (depth : Nat) :
    (gist tokens).foldl depthSaid depth = tokens.foldl Token.depthAfter depth := by
  induction tokens generalizing depth with
  | nil => rfl
  | cons token rest ih =>
    have single : (token.kind.gist token.text).foldl depthSaid depth = token.depthAfter depth := by
      obtain ⟨kind, text, start, stop⟩ := token
      cases kind <;>
        simp [Kind.gist, depthSaid, Token.depthAfter, Token.opensBracket, Token.closesBracket,
          Token.isOp]
    rw [gist_cons, List.foldl_append, single, ih, List.foldl_cons]

namespace Deferred

/-- The wrapper and the lambda in front of the expression. -/
def opening (options : Options) (deferred : Deferred) : List (Kind × String) :=
  [(Kind.name, options.wrapperName), (.op, "("), (.name, "lambda")] ++
    listing deferred.dependencies ++ [(Kind.op, ":")]

private theorem depth_opening (options : Options) (deferred : Deferred) :
    (deferred.opening options).foldl depthSaid 0 = 1 := by
  rw [opening, ← Page.gist_lambdaWords, foldl_depthSaid_gist, Page.depth_lambdaWords]

private theorem linear_single (options : Options) {deferred : Deferred} {argument : Argument}
    (single : deferred.call.args = [argument]) : deferred.linear options =
      deferred.opening options ++ gist argument.value ++ gist [deferred.call.closing] := by
  simp [linear, body, opening, isTuple, single]

private theorem linear_tuple (options : Options) {deferred : Deferred}
    (tuple : deferred.isTuple = true) :
    deferred.linear options = deferred.opening options ++ (.op, "(") ::
      (gist (deferred.call.args.flatMap Argument.tokens) ++
        (.op, ")") :: gist [deferred.call.closing]) := by
  simp [linear, body, opening, tuple]

end Deferred

/-! Where a late default is said -/

variable {options : Options} {deferred : Deferred}

private theorem infix_blockGist (body : List (Kind × String)) : body <:+: blockGist body :=
  ⟨[(.indent, "")], [(.dedent, "")], rfl⟩

private theorem Header.infix_linear {header : Header} {parameter : Parameter}
    (member : parameter ∈ header.parameters.list) (late : parameter.deferred? = some deferred) :
    deferred.linear options <:+: header.linear options := by
  obtain ⟨item, isItem, found⟩ := List.mem_filterMap.1 member
  have slot : ∃ eq, parameter.default = some ⟨eq, .deferred deferred⟩ := by
    unfold Parameter.deferred? at late
    split at late
    · next eq value isDefault =>
      cases late
      exact ⟨eq, isDefault⟩
    · cases late
  obtain ⟨eq, isDefault⟩ := slot
  cases item with
  | separator value => cases found
  | parameter value =>
    cases found
    have inItem : deferred.linear options <:+: (ParameterItem.parameter parameter).linear options := by
      rw [ParameterItem.linear, isDefault]
      refine ⟨gist (parameter.stars ++ parameter.name :: parameter.hint) ++ gist [eq],
        gist parameter.suffix, ?_⟩
      simp [ParameterDefault.linear]
    have inItems : (ParameterItem.parameter parameter).linear options <:+:
        header.parameters.items.flatMap (ParameterItem.linear options) :=
      List.infix_of_mem_flatten (List.mem_map_of_mem isItem)
    exact (inItem.trans inItems).trans (List.infix_append _ _ _)

/-- A body whose line stays with the header has no functions. -/
theorem bodyFunctions_of_inlineLine? {body : List Stmt} {line : List Token}
    (stays : Page.inlineLine? options body = some line) : bodyFunctions body = [] := by
  have silent : ∀ stmt ∈ body, stmt.functions = [] := by
    intro stmt member
    unfold Page.inlineLine? at stays
    split at stays
    · next kept =>
      cases isSilent : Page.isSilent options stmt with
      | true => cases stmt <;> first | rfl | cases isSilent
      | false =>
        have isKept : stmt ∈ body.filter fun stmt => !Page.isSilent options stmt := by
          rw [List.mem_filter, isSilent]
          exact ⟨member, rfl⟩
        rw [kept, List.mem_singleton] at isKept
        rw [isKept]
        rfl
    · cases stays
  clear stays
  induction body with
  | nil => rfl
  | cons stmt rest ih =>
    rw [List.forall_mem_cons] at silent
    rw [bodyFunctions, silent.1, List.nil_append, ih silent.2]

mutual

/-- A statement says the late defaults of all functions in it. -/
private theorem Stmt.infix_linear : (stmt : Stmt) → ∀ function ∈ stmt.functions,
    ∀ parameter ∈ function.1.parameters.list, parameter.deferred? = some deferred →
      deferred.linear options <:+: stmt.linear options
  | .trivia _ | .simple _ | .prologue _ | .runtimeImport => List.forall_mem_nil _
  | .compound header _ body => by
    intro function member parameter isParameter late
    have inner := bodyInfix_linear body function member parameter isParameter late
    rw [Stmt.linear]
    exact (inner.trans (infix_blockGist _)).trans (List.suffix_append _ _).isInfix
  | .inlineFunction header line => by
    rintro function member parameter isParameter late
    rw [Stmt.functions, List.mem_singleton] at member
    rw [member] at isParameter
    rw [Stmt.linear]
    exact (Header.infix_linear isParameter late).trans (List.prefix_append _ _).isInfix
  | .function header margin body => by
    intro function member parameter isParameter late
    rw [Stmt.functions, List.mem_cons] at member
    rw [Stmt.linear]
    rcases member with rfl | inside
    · exact (Header.infix_linear isParameter late).trans (List.prefix_append _ _).isInfix
    · have inner := bodyInfix_linear body function inside parameter isParameter late
      have block : deferred.linear options <:+: blockGist (bodyLinear options body) :=
        inner.trans (infix_blockGist _)
      refine List.IsInfix.trans ?_ (List.suffix_append _ _).isInfix
      cases margin.indent with
      | some indent => exact block
      | none =>
        cases stays : Page.inlineLine? options body with
        | some line =>
          rw [bodyFunctions_of_inlineLine? stays] at inside
          cases inside
        | none => exact block.trans (List.suffix_cons _ _).isInfix

private theorem bodyInfix_linear : (body : List Stmt) → ∀ function ∈ bodyFunctions body,
    ∀ parameter ∈ function.1.parameters.list, parameter.deferred? = some deferred →
      deferred.linear options <:+: bodyLinear options body
  | [] => List.forall_mem_nil _
  | stmt :: rest => by
    intro function member parameter isParameter late
    rw [bodyFunctions, List.mem_append] at member
    rw [bodyLinear]
    rcases member with here | later
    · exact (Stmt.infix_linear stmt function here parameter isParameter late).trans
        (List.prefix_append _ _).isInfix
    · exact (bodyInfix_linear rest function later parameter isParameter late).trans
        (List.suffix_append _ _).isInfix

end

/-! Where a late default comes from -/

def Deferred.IsRead (marker : String) (deferred : Deferred) : Prop :=
  ∃ name dependencies tokens,
    Deferred.ofTokens? marker name dependencies tokens = .ok (some deferred)

namespace LateBinding

variable {marker : String}

private theorem isRead_parameter {scope : Scope} {passed : Scope.Passed} {old new : Parameter}
    {own : List Resolution} (plain : Parameters.Plain (.parameter old))
    (bound : parameter marker scope passed old = .ok (new, own))
    (late : new.deferred? = some deferred) : deferred.IsRead marker := by
  cases isDefault : old.default with
  | none =>
    simp only [parameter, isDefault] at bound
    cases bound
    simp [Parameter.deferred?, isDefault] at late
  | some slot =>
    obtain ⟨fixed, tokens, isExpression⟩ := plain slot isDefault
    obtain ⟨eq, _⟩ := slot
    cases isExpression
    simp only [parameter, isDefault, fixed, Bool.false_eq_true, if_false] at bound
    obtain ⟨result, read, bound⟩ := bind_eq_ok.1 bound
    cases result with
    | none =>
      cases bound
      simp [Parameter.deferred?, isDefault] at late
    | some found =>
      cases bound
      cases late
      exact ⟨_, _, _, read⟩

private theorem isRead_items {scope : Scope} {passed : Scope.Passed} {old new : List ParameterItem}
    {resolutions : List Resolution} (plain : ∀ item ∈ old, Parameters.Plain item)
    (bound : items marker scope passed old = .ok (new, resolutions)) :
    ∀ parameter ∈ new.filterMap ParameterItem.parameter?, parameter.deferred? = some deferred →
      deferred.IsRead marker := by
  induction old generalizing passed new resolutions with
  | nil =>
    cases bound
    exact List.forall_mem_nil _
  | cons item rest ih =>
    rw [List.forall_mem_cons] at plain
    cases item with
    | separator value =>
      obtain ⟨⟨others, more⟩, boundRest, bound⟩ := bind_eq_ok.1 bound
      cases bound
      have others := ih plain.2 boundRest
      exact others
    | parameter value =>
      obtain ⟨⟨first, own⟩, boundFirst, bound⟩ := bind_eq_ok.1 bound
      obtain ⟨⟨others, more⟩, boundRest, bound⟩ := bind_eq_ok.1 bound
      cases bound
      exact List.forall_mem_cons.2 ⟨isRead_parameter plain.1 boundFirst, ih plain.2 boundRest⟩

private theorem isRead_header {old new : Header} {resolutions : List Resolution}
    (plain : ∀ item ∈ old.parameters.items, Parameters.Plain item)
    (bound : header marker old = .ok (new, resolutions)) :
    ∀ parameter ∈ new.parameters.list, parameter.deferred? = some deferred →
      deferred.IsRead marker := by
  obtain ⟨⟨list, own⟩, boundItems, bound⟩ := bind_eq_ok.1 bound
  cases bound
  exact isRead_items plain boundItems

mutual

private theorem isRead_statement : (stmt : Stmt) →
    (∀ function ∈ stmt.functions, ∀ item ∈ function.1.parameters.items, Parameters.Plain item) →
    {next : Stmt} → statement marker stmt = .ok next →
    ∀ function ∈ next.functions, ∀ parameter ∈ function.1.parameters.list,
      parameter.deferred? = some deferred → deferred.IsRead marker
  | .trivia _, _, _, bound | .simple _, _, _, bound | .prologue _, _, _, bound
  | .runtimeImport, _, _, bound => by
    cases bound
    exact List.forall_mem_nil _
  | .compound _ _ body, plain, _, bound => by
    obtain ⟨body', boundBody, bound⟩ := bind_eq_ok.1 bound
    cases bound
    exact isRead_statements body plain boundBody
  | .function first margin body, plain, _, bound => by
    rw [Stmt.functions, List.forall_mem_cons] at plain
    obtain ⟨⟨first', resolutions⟩, boundHeader, bound⟩ := bind_eq_ok.1 bound
    obtain ⟨body', boundBody, bound⟩ := bind_eq_ok.1 bound
    cases bound
    rw [Stmt.functions, addPrologue, bodyFunctions_insertAt rfl, List.forall_mem_cons]
    exact ⟨isRead_header plain.1 boundHeader, isRead_statements body plain.2 boundBody⟩
  | .inlineFunction first line, plain, _, bound => by
    rw [Stmt.functions, List.forall_mem_singleton] at plain
    obtain ⟨⟨first', resolutions⟩, boundHeader, bound⟩ := bind_eq_ok.1 bound
    cases bound
    rw [Stmt.functions, addPrologue, bodyFunctions_insertAt rfl, List.forall_mem_cons]
    exact ⟨isRead_header plain boundHeader, List.forall_mem_nil _⟩

private theorem isRead_statements : (body : List Stmt) →
    (∀ function ∈ bodyFunctions body, ∀ item ∈ function.1.parameters.items,
      Parameters.Plain item) →
    {next : List Stmt} → statements marker body = .ok next →
    ∀ function ∈ bodyFunctions next, ∀ parameter ∈ function.1.parameters.list,
      parameter.deferred? = some deferred → deferred.IsRead marker
  | [], _, _, bound => by
    cases bound
    exact List.forall_mem_nil _
  | stmt :: rest, plain, _, bound => by
    rw [bodyFunctions, List.forall_mem_append] at plain
    obtain ⟨stmt', boundFirst, bound⟩ := bind_eq_ok.1 bound
    obtain ⟨rest', boundRest, bound⟩ := bind_eq_ok.1 bound
    cases bound
    rw [bodyFunctions, List.forall_mem_append]
    exact ⟨isRead_statement stmt plain.1 boundFirst, isRead_statements rest plain.2 boundRest⟩

end

end LateBinding

namespace Deferred

/-- No token of the argument that binds looser than the body of a lambda stands directly in the call
of the wrapper. -/
def StaysWhole (options : Options) (deferred : Deferred) (argument : Argument) : Prop :=
  ∀ front token behind, argument.value = front ++ token :: behind → token.isLoose = true →
    1 < (deferred.opening options ++ gist front).foldl depthSaid 0

/-- The expression of a late default, and how deep its tokens stand in the call of the wrapper. -/
structure Grouped (options : Options) (deferred : Deferred) : Prop where
  /-- The only argument is the body of the lambda, and its tokens stand one bracket deeper. -/
  single : ∀ argument, deferred.call.args = [argument] →
    deferred.linear options =
      deferred.opening options ++ gist argument.value ++ gist [deferred.call.closing] ∧
    ∀ front behind, argument.value = front ++ behind →
      (deferred.opening options ++ gist front).foldl depthSaid 0 =
        front.foldl Token.depthAfter 0 + 1
  /-- It stays one expression exactly if what binds looser stands in brackets already. -/
  whole : ∀ argument, deferred.call.args = [argument] → (deferred.StaysWhole options argument ↔
    ∀ front token behind, argument.value = front ++ token :: behind → token.isLoose = true →
      0 < front.foldl Token.depthAfter 0)
  /-- A tuple has parentheses of its own, and its tokens stand two brackets deeper. -/
  tuple : 1 < deferred.call.args.length →
    deferred.linear options = deferred.opening options ++ (.op, "(") ::
      (gist (deferred.call.args.flatMap Argument.tokens) ++
        (.op, ")") :: gist [deferred.call.closing]) ∧
    ∀ front behind, deferred.call.args.flatMap Argument.tokens = front ++ behind →
      (deferred.opening options ++ (.op, "(") :: gist front).foldl depthSaid 0 =
        front.foldl Token.depthAfter 0 + 2

private theorem IsRead.within {marker : String} (read : deferred.IsRead marker)
    {front behind : List Token}
    (split : deferred.call.args.flatMap Argument.tokens = front ++ behind) : Within 1 front := by
  obtain ⟨name, dependencies, tokens, read⟩ := read
  obtain ⟨-, -, inner, encloses, args⟩ :=
    MarkerCall.encloses_of_ofTokens? (Deferred.ofTokens?_eq_some read)
  have whole := MarkerCall.tokens_arguments (Pieces.ofTokens {} inner)
  rw [Pieces.tokens_ofTokens, ← args, split, List.append_assoc] at whole
  rw [← whole] at encloses
  exact (within_append.1 encloses.within).1

private theorem IsRead.depth_single {marker : String} (read : deferred.IsRead marker)
    (options : Options) {argument : Argument} (single : deferred.call.args = [argument])
    {front behind : List Token} (split : argument.value = front ++ behind) :
    (deferred.opening options ++ gist front).foldl depthSaid 0 =
      front.foldl Token.depthAfter 0 + 1 := by
  have whole : deferred.call.args.flatMap Argument.tokens =
      front ++ (behind ++ argument.comma.toList) := by
    simp [single, Argument.tokens, split]
  have deeper : front.foldl Token.depthAfter 1 = _ := (read.within whole).foldl_add 1
  rw [List.foldl_append, depth_opening, foldl_depthSaid_gist, deeper]

private theorem IsRead.depth_tuple {marker : String} (read : deferred.IsRead marker)
    (options : Options) {front behind : List Token}
    (split : deferred.call.args.flatMap Argument.tokens = front ++ behind) :
    (deferred.opening options ++ (.op, "(") :: gist front).foldl depthSaid 0 =
      front.foldl Token.depthAfter 0 + 2 := by
  have opens : depthSaid 1 (.op, "(") = 2 := by decide
  have deeper : front.foldl Token.depthAfter 2 = _ := (read.within split).foldl_add 2
  rw [List.foldl_append, depth_opening, List.foldl_cons, opens, foldl_depthSaid_gist, deeper]

private theorem IsRead.grouped {marker : String} (read : deferred.IsRead marker)
    (options : Options) :
    deferred.Grouped options where
  single argument single :=
    ⟨linear_single options single, fun front behind split => read.depth_single options single split⟩
  whole argument single := by
    constructor
    · intro stays front token behind split loose
      have deep := stays front token behind split loose
      rw [read.depth_single options single split] at deep
      omega
    · intro bracketed front token behind split loose
      have deep := bracketed front token behind split loose
      rw [read.depth_single options single split]
      omega
  tuple several := by
    have tuple : deferred.isTuple = true := by simpa [isTuple] using several
    exact ⟨linear_tuple options tuple, fun front behind split => read.depth_tuple options split⟩

end Deferred

namespace Expansion

private theorem isRead_throughTokens {source : String} {expanded : Expanded}
    (expands : throughTokens options source = .ok expanded) :
    ∀ function ∈ bodyFunctions expanded.program.body, ∀ parameter ∈ function.1.parameters.list,
      parameter.deferred? = some deferred → deferred.IsRead options.markerName := by
  obtain ⟨marked, -, expands⟩ := bind_eq_ok.1 expands
  obtain ⟨program, read, expands⟩ := bind_eq_ok.1 expands
  obtain ⟨next, bound, expands⟩ := bind_eq_ok.1 expands
  obtain ⟨body, boundBody, isNext⟩ := bind_eq_ok.1 bound
  cases expands
  cases isNext
  obtain ⟨front, back, covers, -⟩ := Program.covers_ofTokens read
  rw [bodyFunctions_insertAt rfl]
  exact LateBinding.isRead_statements program.body (plain_bodyFunctions program.body covers)
    boundBody

/-- The code of an expanded tree holds every late default as one call of the wrapper on a lambda. A
tuple has parentheses of its own; the only argument of a marker call has not, and it stays one
expression exactly if what binds looser than the body of a lambda stands in brackets of it. -/
theorem code_grouped (identifiers : options.AreIdentifiers) {source : String}
    {tokens : List Token} (tokenized : tokenize source = .ok tokens)
    (noStray : ∀ token ∈ tokens, token.kind ≠ .stray)
    (finished : Lexeme.Finished (Lexeme.split source.toList))
    (apart : Sigil.followedBy Token.endsName tokens = true) {expanded : Expanded}
    (expands : throughTokens options source = .ok expanded) :
    ∃ again, tokenize expanded.code = .ok again ∧
      ∀ function ∈ bodyFunctions expanded.program.body,
        ∀ parameter ∈ function.1.parameters.list, ∀ deferred,
          parameter.deferred? = some deferred →
            deferred.linear options <:+: gist again ∧ deferred.Grouped options := by
  obtain ⟨code, front, stop, text, conveys, deepens, isStop, spells⟩ :=
    conveys_throughTokens identifiers tokenized noStray finished apart expands
  obtain ⟨again, tokenizes, said⟩ := Page.tokenize_render conveys deepens isStop spells
  rw [code]
  refine ⟨again, tokenizes, fun function isFunction parameter isParameter deferred late => ⟨?_, ?_⟩⟩
  · rw [said]
    exact (bodyInfix_linear _ function isFunction parameter isParameter late).trans
      (List.prefix_append _ _).isInfix
  · exact (isRead_throughTokens expands function isFunction parameter isParameter late).grouped _

/-- A generator expression and an assignment, outside parentheses of their own and in a tuple. -/
def looseSource : String :=
  "def f(b, c => (x for x in b)): return c\n" ++
    "class A:\n  def g(b, *, d=>(y := b), e => ((z := b), [z for z in b])): pass\n"

theorem code_grouped_loose : ∃ expanded, throughTokens {} looseSource = .ok expanded ∧
    ∃ again, tokenize expanded.code = .ok again ∧
      ∀ function ∈ bodyFunctions expanded.program.body,
        ∀ parameter ∈ function.1.parameters.list, ∀ deferred,
          parameter.deferred? = some deferred →
            deferred.linear {} <:+: gist again ∧ deferred.Grouped {} := by
  have identifiers : ({} : Options).AreIdentifiers :=
    ⟨by decide +kernel, by decide +kernel, by decide +kernel, by decide +kernel⟩
  have finished : Lexeme.Finished (Lexeme.split looseSource.toList) := by
    unfold Lexeme.Finished
    decide +kernel
  have holds : ((tokenize looseSource).toOption.any fun tokens =>
      (throughTokens {} looseSource).isOk && tokens.all (fun token => token.kind != .stray) &&
        Sigil.followedBy Token.endsName tokens) = true := by decide +kernel
  cases tokenized : tokenize looseSource with
  | error fault =>
    rw [tokenized] at holds
    cases holds
  | ok tokens =>
    rw [tokenized, toOption_ok, Option.any_some] at holds
    simp only [Bool.and_eq_true, List.all_eq_true, bne_iff_ne] at holds
    obtain ⟨⟨isOk, noStray⟩, apart⟩ := holds
    cases expands : throughTokens {} looseSource with
    | error fault =>
      rw [expands] at isOk
      cases isOk
    | ok expanded =>
      exact ⟨expanded, rfl, code_grouped identifiers tokenized noStray finished apart expands⟩

end Expansion

end DeferredDefaults
