import DeferredDefaults.Proofs.LateBinding.Exhaustive
import DeferredDefaults.Proofs.Tree.Headline

/-!
Which late defaults are refused. Binding accepts a default that begins with the marker if it is one
whole call with arguments, none of them a keyword argument; it does not look for code in the
arguments, so that one of trivia alone passes. It stops at the first default that is refused, and
names its parameter: those of a function come before those of the functions in its body.
-/

set_option autoImplicit false
set_option relaxedAutoImplicit false

namespace DeferredDefaults

/-- The tokens are one whole call of `marker`, with `inner` between its parentheses. Brackets of any
sort close each other. -/
structure MarkerCall.Encloses (marker : String) (inner tokens : List Token) : Prop where
  split : ∃ name gap opening closing, tokens = name :: (gap ++ opening :: (inner ++ [closing])) ∧
    name.isName marker = true ∧ (∀ token ∈ gap, token.isTrivia = true) ∧
    opening.isOp "(" = true ∧ closing.closesBracket = true
  /-- The brackets inside are closed inside. -/
  within : Within 1 inner
  ends : inner.foldl Token.depthAfter 1 = 1

def MarkerCall.argumentsIn (inner : List Token) : List (List Token) :=
  (arguments (Pieces.ofTokens {} inner)).1.map Argument.value

def Argument.NamesValue (value : List Token) : Prop :=
  ∃ before name between eq behind, value = before ++ name :: (between ++ eq :: behind) ∧
    (∀ token ∈ before, token.isTrivia = true) ∧ (∀ token ∈ between, token.isTrivia = true) ∧
    name.kind = .name ∧ eq.isOp "=" = true

namespace Deferred

/-- The default is a whole marker call with arguments, each with code and none naming its value. -/
def Proper (marker : String) (tokens : List Token) : Prop :=
  ∃ inner, MarkerCall.Encloses marker inner tokens ∧ MarkerCall.argumentsIn inner ≠ [] ∧
    ∀ argument ∈ MarkerCall.argumentsIn inner,
      (∃ token ∈ argument, token.isTrivia = false) ∧ ¬ Argument.NamesValue argument

/-- The default is a whole marker call, none of its arguments names its value, and one of them has no
code. -/
def Hollow (marker : String) (tokens : List Token) : Prop :=
  ∃ inner, MarkerCall.Encloses marker inner tokens ∧
    (∃ argument ∈ MarkerCall.argumentsIn inner, ∀ token ∈ argument, token.isTrivia = true) ∧
    ∀ argument ∈ MarkerCall.argumentsIn inner, ¬ Argument.NamesValue argument

def IsAccepted (marker : String) (tokens : List Token) : Prop :=
  (tokens.head?.any fun first => first.isName marker) = true → Proper marker tokens ∨
    Hollow marker tokens

/-- What is wrong with a default that begins with the marker, and where. -/
inductive Faulty (marker : String) (tokens : List Token) : DeferFault → Position → Prop
  /-- It is not one whole call. -/
  | notParenthesized {first : Token} : tokens.head? = some first → first.isName marker = true →
      (∀ inner, ¬ MarkerCall.Encloses marker inner tokens) →
      Faulty marker tokens .notParenthesized first.start
  /-- Only trivia stands between its parentheses. -/
  | noExpression {first : Token} {inner : List Token} : tokens.head? = some first →
      MarkerCall.Encloses marker inner tokens → (∀ token ∈ inner, token.isTrivia = true) →
      Faulty marker tokens .noExpression first.start
  /-- This argument is the first that names its value. -/
  | keywordArgument {inner argument : List Token} {before after : List (List Token)} {first : Token} :
      MarkerCall.Encloses marker inner tokens →
      MarkerCall.argumentsIn inner = before ++ argument :: after →
      (∀ earlier ∈ before, ¬ Argument.NamesValue earlier) → Argument.NamesValue argument →
      argument.head? = some first → Faulty marker tokens .keywordArgument first.start

end Deferred

/-- Binding accepts the default of the parameter, if it has one. -/
def Parameter.IsAccepted (marker : String) (parameter : Parameter) : Prop :=
  ∀ eq tokens, parameter.default = some ⟨eq, .expression tokens⟩ →
    Deferred.IsAccepted marker tokens

/-- The default of the parameter is faulty. -/
def Parameter.Faulty (marker : String) (parameter : Parameter) (cause : DeferFault)
    (position : Position) : Prop :=
  ∃ eq tokens, parameter.default = some ⟨eq, .expression tokens⟩ ∧
    Deferred.Faulty marker tokens cause position

/-- The parameters of all functions, those of a function before those of the functions in its
body. -/
def Program.parameters (program : Program) : List Parameter :=
  (bodyFunctions program.body).flatMap fun function => function.1.parameters.list

private theorem Token.pos_of_depthAfter {token : Token} {depth : Nat}
    (inside : 0 < token.depthAfter (depth + 1)) (closes : token.closesBracket = true) :
    0 < depth := by
  simpa [depthAfter, Token.opensBracket_of_closesBracket closes, closes] using inside

theorem Within.foldl_add {tokens : List Token} {depth : Nat} (within : Within (depth + 1) tokens)
    (more : Nat) :
    tokens.foldl Token.depthAfter (depth + more) = tokens.foldl Token.depthAfter depth + more := by
  induction tokens generalizing depth with
  | nil => rfl
  | cons token rest ih =>
    have inside := Token.pos_of_depthAfter within.2.pos
    have behind := within.2
    rw [Token.depthAfter_add (.inr inside)] at behind
    rw [List.foldl_cons, List.foldl_cons, Token.depthAfter_add (.inr inside), ih behind]

private theorem Cut.atClose_of_within {depth : Nat} {before : List Token} {closing : Token}
    (within : Within (depth + 1) before) (ends : before.foldl Token.depthAfter (depth + 1) = 1)
    (closes : closing.closesBracket = true) (after : List Token) :
    atClose depth (before ++ closing :: after) = some ⟨before, closing, after⟩ := by
  induction before generalizing depth with
  | nil =>
    have top : depth = 0 := by simpa using ends
    rw [List.nil_append, atClose_cons, if_pos ⟨top, closes⟩]
  | cons token rest ih =>
    have deep := Token.pos_of_depthAfter within.2.pos
    have level : token.depthAfter (depth + 1) = token.depthAfter depth + 1 :=
      Token.depthAfter_add (.inr deep)
    have inside : ¬ (depth = 0 ∧ token.closesBracket = true) := by
      rintro ⟨rfl, closes⟩
      exact absurd (deep closes) (Nat.lt_irrefl 0)
    have behind := within.2
    rw [level] at behind
    rw [List.foldl_cons, level] at ends
    rw [List.cons_append, atClose_cons, if_neg inside, ih behind ends]
    rfl

private theorem Pieces.ofTokens_of_isTrivia {tokens : List Token}
    (trivia : ∀ token ∈ tokens, token.isTrivia = true) (splitter : Splitter) :
    Pieces.ofTokens splitter tokens = ⟨[], tokens⟩ := by
  induction tokens generalizing splitter with
  | nil => rfl
  | cons token rest ih =>
    rw [List.forall_mem_cons] at trivia
    have noComma : token.isOp "," = false := by
      have kinds := trivia.1
      simp only [Token.isTrivia, Bool.or_eq_true, beq_iff_eq] at kinds
      rcases kinds with kind | kind <;> simp [Token.isOp, kind]
    rw [ofTokens, ih trivia.2, Splitter.separates, noComma, Bool.and_false]
    rfl

namespace MarkerCall

variable {marker : String} {inner other tokens : List Token} {call : MarkerCall}

private theorem argumentsIn_eq_nil :
    argumentsIn inner = [] ↔ ∀ token ∈ inner, token.isTrivia = true := by
  constructor
  · intro none
    have whole := Pieces.tokens_ofTokens {} inner
    revert none whole
    rw [argumentsIn, arguments]
    generalize Pieces.ofTokens {} inner = pieces
    obtain ⟨ended, last⟩ := pieces
    split
    · next trivia =>
      intro none whole
      have noEnded : ended = [] := by simpa using none
      rw [noEnded, Pieces.tokens, List.flatMap_nil, List.nil_append] at whole
      exact whole ▸ List.all_eq_true.1 trivia
    · intro none
      simp at none
  · intro trivia
    have last : inner.all Token.isTrivia = true := List.all_eq_true.2 trivia
    rw [argumentsIn, Pieces.ofTokens_of_isTrivia trivia, arguments, if_pos last]
    rfl

theorem encloses_of_ofTokens? (found : ofTokens? marker tokens = some call) :
    tokens.head? = some call.name ∧ call.name.isName marker = true ∧ ∃ inner,
      Encloses marker inner tokens ∧ call.args = (arguments (Pieces.ofTokens {} inner)).1 := by
  cases tokens with
  | nil => cases found
  | cons name rest =>
    simp only [ofTokens?] at found
    split at found
    · next isName =>
      split at found
      · cases found
      · next opening others isRest =>
        split at found
        · next isOpening =>
          split at found
          · next body closing close =>
            cases found
            obtain ⟨within, ends, closes⟩ := Cut.within_atClose close 0
            refine ⟨rfl, isName, body, ⟨⟨name, rest.takeWhile Token.isTrivia, opening, closing, ?_,
              isName, List.all_eq_true.1 List.all_takeWhile, isOpening, closes⟩, within, ends⟩, rfl⟩
            · have whole := List.takeWhile_append_dropWhile (p := Token.isTrivia) (l := rest)
              have cut := Cut.tokens_atClose close
              rw [isRest, ← cut] at whole
              exact congrArg _ whole.symm
          · cases found
        · cases found
    · cases found

/-- A name, trivia and parentheses around tokens that close what they open are read as a call. -/
theorem ofTokens?_of_within {name opening closing : Token} {gap : List Token}
    (isName : name.isName marker = true) (trivia : ∀ token ∈ gap, token.isTrivia = true)
    (isOpening : opening.isOp "(" = true) (closes : closing.closesBracket = true)
    (within : Within 1 inner) (ends : inner.foldl Token.depthAfter 1 = 1) :
    ofTokens? marker (name :: (gap ++ opening :: (inner ++ [closing]))) =
      some ⟨name, gap, opening, (arguments (Pieces.ofTokens {} inner)).1,
        (arguments (Pieces.ofTokens {} inner)).2, closing⟩ := by
  have noTrivia : opening.isTrivia = false := by
    simp [Token.isTrivia, (Token.isOp_iff.1 isOpening).1]
  have opens : (gap ++ opening :: (inner ++ [closing])).dropWhile Token.isTrivia =
      opening :: (inner ++ [closing]) := by
    rw [List.dropWhile_append_of_pos trivia, List.dropWhile_cons_of_neg (by simp [noTrivia])]
  have gapEnds : (gap ++ opening :: (inner ++ [closing])).takeWhile Token.isTrivia = gap := by
    rw [List.takeWhile_append_of_pos trivia, List.takeWhile_cons_of_neg (by simp [noTrivia]),
      List.append_nil]
  have close := Cut.atClose_of_within within ends closes []
  simp only [ofTokens?, isName, if_true, opens, isOpening, close, gapEnds]

private theorem Encloses.ofTokens? (encloses : Encloses marker inner tokens) :
    ∃ call, MarkerCall.ofTokens? marker tokens = some call ∧
      call.args = (arguments (Pieces.ofTokens {} inner)).1 := by
  obtain ⟨name, gap, opening, closing, rfl, isName, trivia, isOpening, closes⟩ := encloses.split
  exact ⟨_, ofTokens?_of_within isName trivia isOpening closes encloses.within encloses.ends, rfl⟩

private theorem Encloses.argumentsIn_eq (encloses : Encloses marker inner tokens)
    (again : Encloses marker other tokens) : argumentsIn other = argumentsIn inner := by
  obtain ⟨call, found, args⟩ := encloses.ofTokens?
  obtain ⟨same, foundSame, argsSame⟩ := again.ofTokens?
  rw [found, Option.some.injEq] at foundSame
  rw [argumentsIn, argumentsIn, ← args, ← argsSame, foundSame]

end MarkerCall

private theorem Argument.isKeyword_iff {argument : Argument} :
    argument.isKeyword = true ↔ NamesValue argument.value := by
  have code : ∀ {token : Token}, (!token.isTrivia) = true ↔ ¬ token.isTrivia = true := by simp
  rw [isKeyword]
  constructor
  · intro isKeyword
    split at isKeyword
    · next first second rest significant =>
      obtain ⟨before, behind, whole, trivia, -, significant⟩ := List.filter_eq_cons_iff.1 significant
      obtain ⟨between, after, rfl, triviaBetween, -, -⟩ := List.filter_eq_cons_iff.1 significant
      rw [Bool.and_eq_true, beq_iff_eq] at isKeyword
      refine ⟨before, first, between, second, after, whole, ?_, ?_, isKeyword.1, isKeyword.2⟩
      · exact fun token member => by simpa using trivia token member
      · exact fun token member => by simpa using triviaBetween token member
    · cases isKeyword
  · rintro ⟨before, name, between, eq, behind, whole, trivia, triviaBetween, isName, isOp⟩
    have none : ∀ {list : List Token}, (∀ token ∈ list, token.isTrivia = true) →
        list.filter (fun token => !token.isTrivia) = [] := by
      intro list trivia
      exact List.filter_eq_nil_iff.2 fun token member => by simp [trivia token member]
    have nameCode : name.isTrivia = false := by simp [Token.isTrivia, isName]
    have eqCode : eq.isTrivia = false := by simp [Token.isTrivia, (Token.isOp_iff.1 isOp).1]
    have significant : argument.value.filter (fun token => !token.isTrivia) =
        name :: eq :: behind.filter (fun token => !token.isTrivia) := by
      rw [whole, List.filter_append, none trivia, List.nil_append,
        List.filter_cons_of_pos (by simp [nameCode]), List.filter_append, none triviaBetween,
        List.nil_append, List.filter_cons_of_pos (by simp [eqCode])]
    rw [significant]
    simp [isName, isOp]

namespace Deferred

variable {marker : String} {tokens : List Token}

private theorem Faulty.not_isAccepted {cause : DeferFault} {position : Position}
    (faulty : Faulty marker tokens cause position) : ¬ IsAccepted marker tokens := by
  have called : ∀ {inner}, MarkerCall.Encloses marker inner tokens →
      (tokens.head?.any fun first => first.isName marker) = true := by
    rintro inner ⟨⟨name, _, _, _, rfl, isName, -⟩, -, -⟩
    exact isName
  intro accepted
  cases faulty with
  | notParenthesized isFirst isName other =>
    have leads : (tokens.head?.any fun first => first.isName marker) = true := by
      rw [isFirst]
      exact isName
    rcases accepted leads with ⟨inner, encloses, -⟩ | ⟨inner, encloses, -⟩ <;>
      exact other inner encloses
  | noExpression isFirst encloses trivia =>
    have none := MarkerCall.argumentsIn_eq_nil.2 trivia
    rcases accepted (called encloses) with ⟨inner, again, some, -⟩ |
      ⟨inner, again, ⟨argument, member, -⟩, -⟩
    · exact some ((encloses.argumentsIn_eq again).trans none)
    · rw [encloses.argumentsIn_eq again, none] at member
      cases member
  | @keywordArgument _ argument _ _ _ encloses split _ names _ =>
    have member : ∀ {inner}, MarkerCall.Encloses marker inner tokens →
        argument ∈ MarkerCall.argumentsIn inner := by
      intro inner again
      rw [encloses.argumentsIn_eq again, split]
      exact List.mem_append_right _ List.mem_cons_self
    rcases accepted (called encloses) with ⟨inner, again, -, proper⟩ | ⟨inner, again, -, proper⟩
    · exact (proper _ (member again)).2 names
    · exact proper _ (member again) names

private theorem decided_ofTokens? (marker name : String) (dependencies : List String)
    (tokens : List Token) :
    (IsAccepted marker tokens ∧ ∃ found, ofTokens? marker name dependencies tokens = .ok found) ∨
      ∃ cause position, Faulty marker tokens cause position ∧
        ofTokens? marker name dependencies tokens = .error (.lateDefault name cause position) := by
  unfold ofTokens?
  cases found : MarkerCall.ofTokens? marker tokens with
  | none =>
    cases isFirst : tokens.head? with
    | none =>
      refine .inl ⟨fun leads => ?_, _, rfl⟩
      rw [isFirst] at leads
      cases leads
    | some first =>
      cases isName : first.isName marker with
      | false =>
        refine .inl ⟨fun leads => ?_, none, by simp [isName]⟩
        rw [isFirst, Option.any_some, isName] at leads
        cases leads
      | true =>
        refine .inr ⟨_, _, .notParenthesized isFirst isName fun inner encloses => ?_, by simp [isName]⟩
        obtain ⟨call, isCall, -⟩ := encloses.ofTokens?
        rw [found] at isCall
        cases isCall
  | some call =>
    obtain ⟨isFirst, isName, inner, encloses, args⟩ := MarkerCall.encloses_of_ofTokens? found
    have values : MarkerCall.argumentsIn inner = call.args.map Argument.value := by
      rw [MarkerCall.argumentsIn, args]
    by_cases empty : call.args = []
    · refine .inr ⟨_, _, .noExpression isFirst encloses ?_, by simp [empty, MarkerCall.position]⟩
      rw [← MarkerCall.argumentsIn_eq_nil, values, empty, List.map_nil]
    · have some : call.args.isEmpty = false := by simpa using empty
      simp only [some, Bool.false_eq_true, if_false]
      cases keyword : call.args.find? Argument.isKeyword with
      | none =>
        have unnamed : ∀ argument ∈ MarkerCall.argumentsIn inner,
            ¬ Argument.NamesValue argument := by
          rw [values, List.forall_mem_map]
          intro argument member
          rw [← Argument.isKeyword_iff]
          exact List.find?_eq_none.1 keyword argument member
        refine .inl ⟨fun _ => ?_, _, rfl⟩
        by_cases code : ∀ argument ∈ MarkerCall.argumentsIn inner,
            ∃ token ∈ argument, token.isTrivia = false
        · refine .inl ⟨inner, encloses, ?_, fun argument member =>
            ⟨code argument member, unnamed argument member⟩⟩
          rw [values]
          simpa using empty
        · simp only [not_forall, not_exists, not_and, Bool.not_eq_false] at code
          obtain ⟨argument, member, hollow⟩ := code
          exact .inr ⟨inner, encloses, ⟨argument, member, hollow⟩, unnamed⟩
      | some argument =>
        obtain ⟨isKeyword, before, after, split, earlier⟩ :=
          List.find?_eq_some_iff_append.1 keyword
        have names := Argument.isKeyword_iff.1 isKeyword
        obtain ⟨first, leads⟩ : ∃ first, argument.value.head? = Option.some first := by
          obtain ⟨_, _, _, _, _, whole, -⟩ := names
          rw [← Option.isSome_iff_exists, whole]
          simp
        have whole : MarkerCall.argumentsIn inner =
            before.map Argument.value ++ argument.value :: after.map Argument.value := by
          rw [values, split, List.map_append, List.map_cons]
        refine .inr ⟨_, _, .keywordArgument encloses whole ?_ names leads, by simp [leads]⟩
        rw [List.forall_mem_map]
        intro other member
        rw [← Argument.isKeyword_iff]
        simpa using earlier other member

end Deferred

private theorem Parameter.Faulty.not_isAccepted {marker : String} {parameter : Parameter}
    {cause : DeferFault} {position : Position} (faulty : parameter.Faulty marker cause position) :
    ¬ parameter.IsAccepted marker := by
  obtain ⟨eq, tokens, default, faulty⟩ := faulty
  exact fun accepted => faulty.not_isAccepted (accepted eq tokens default)

namespace LateBinding

/-- The first parameter that is not accepted decides what comes of binding `parameters`. -/
inductive Decided (marker : String) {α : Type} (parameters : List Parameter) : Except Fault α → Prop
  | ok {value : α} : (∀ parameter ∈ parameters, parameter.IsAccepted marker) →
      Decided marker parameters (.ok value)
  | error {before after : List Parameter} {parameter : Parameter} {cause : DeferFault}
      {position : Position} : parameters = before ++ parameter :: after →
      (∀ earlier ∈ before, earlier.IsAccepted marker) → parameter.Faulty marker cause position →
      Decided marker parameters (.error (.lateDefault parameter.name.text cause position))

variable {marker : String} {α β : Type}

private theorem Decided.nil (value : α) :
    Decided marker [] (.ok value) := .ok (List.forall_mem_nil _)

private theorem Decided.bind {front back : List Parameter} {first : Except Fault α}
    {next : α → Except Fault β} (decided : Decided marker front first)
    (later : ∀ value, Decided marker back (next value)) :
    Decided marker (front ++ back) (first >>= next) := by
  cases decided with
  | @error before after parameter _ _ split earlier faulty =>
    have whole : front ++ back = before ++ parameter :: (after ++ back) := by
      rw [split, List.append_assoc, List.cons_append]
    exact .error whole earlier faulty
  | @ok value accepted =>
    have behind := later value
    change Decided marker (front ++ back) (next value)
    cases found : next value with
    | ok result =>
      rw [found] at behind
      cases behind with
      | ok others => exact .ok (List.forall_mem_append.2 ⟨accepted, others⟩)
    | error fault =>
      rw [found] at behind
      cases behind with
      | @error before after parameter _ _ split earlier faulty =>
        have whole : front ++ back = (front ++ before) ++ parameter :: after := by
          rw [split, List.append_assoc]
        exact .error whole (List.forall_mem_append.2 ⟨accepted, earlier⟩) faulty

private theorem Decided.andThen {parameters : List Parameter} {first : Except Fault α}
    {next : α → Except Fault β} (decided : Decided marker parameters first)
    (finishes : ∀ value, ∃ result, next value = .ok result) :
    Decided marker parameters (first >>= next) := by
  rw [← List.append_nil parameters]
  refine decided.bind fun value => ?_
  obtain ⟨result, finished⟩ := finishes value
  rw [finished]
  exact .nil result

private theorem decided_parameter (scope : Scope) (passed : Scope.Passed) {value : Parameter}
    (plain : Parameters.Plain (.parameter value)) :
    Decided marker [value] (parameter marker scope passed value) := by
  cases isDefault : value.default with
  | none =>
    simp only [parameter, isDefault]
    refine .ok (List.forall_mem_singleton.2 fun eq tokens found => ?_)
    rw [isDefault] at found
    cases found
  | some slot =>
    obtain ⟨fixed, tokens, isExpression⟩ := plain slot isDefault
    obtain ⟨eq, _⟩ := slot
    cases isExpression
    simp only [parameter, isDefault, fixed, Bool.false_eq_true, if_false]
    rcases Deferred.decided_ofTokens? marker value.name.text (scope.visible passed value.kind)
      tokens with ⟨accepted, result, found⟩ | ⟨cause, position, faulty, found⟩
    · rw [found]
      have isAccepted : ∀ parameter ∈ [value], parameter.IsAccepted marker := by
        refine List.forall_mem_singleton.2 fun eq other found => ?_
        rw [isDefault] at found
        cases found
        exact accepted
      cases result <;> exact .ok isAccepted
    · rw [found]
      exact .error (List.nil_append [value]).symm (List.forall_mem_nil _)
        ⟨eq, tokens, isDefault, faulty⟩

private theorem decided_items (scope : Scope) (passed : Scope.Passed) {list : List ParameterItem}
    (plain : ∀ item ∈ list, Parameters.Plain item) :
    Decided marker (list.filterMap ParameterItem.parameter?) (items marker scope passed list) := by
  induction list generalizing passed with
  | nil => exact .nil _
  | cons item rest ih =>
    rw [List.forall_mem_cons] at plain
    cases item with
    | separator value => exact (ih passed plain.2).andThen fun _ => ⟨_, rfl⟩
    | parameter value =>
      refine (decided_parameter scope passed plain.1).bind fun _ => ?_
      exact (ih (passed.next value) plain.2).andThen fun _ => ⟨_, rfl⟩

private theorem decided_header {first : Header}
    (plain : ∀ item ∈ first.parameters.items, Parameters.Plain item) :
    Decided marker first.parameters.list (header marker first) :=
  (decided_items _ _ plain).andThen fun _ => ⟨_, rfl⟩

mutual

private theorem decided_statement : (stmt : Stmt) →
    (∀ function ∈ stmt.functions, ∀ item ∈ function.1.parameters.items, Parameters.Plain item) →
    Decided marker (stmt.functions.flatMap fun function => function.1.parameters.list)
      (statement marker stmt)
  | .trivia _, _ | .simple _, _ | .prologue _, _ | .runtimeImport, _ => .nil _
  | .compound _ _ body, plain =>
    (decided_statements body plain).andThen fun _ => ⟨_, rfl⟩
  | .function first _ body, plain => by
    rw [Stmt.functions, List.forall_mem_cons] at plain
    refine (decided_header plain.1).bind fun _ => ?_
    exact (decided_statements body plain.2).andThen fun _ => ⟨_, rfl⟩
  | .inlineFunction first _, plain => by
    rw [Stmt.functions, List.forall_mem_singleton] at plain
    exact (decided_header plain).bind fun _ => .nil _

private theorem decided_statements : (body : List Stmt) →
    (∀ function ∈ bodyFunctions body, ∀ item ∈ function.1.parameters.items,
      Parameters.Plain item) →
    Decided marker ((bodyFunctions body).flatMap fun function => function.1.parameters.list)
      (statements marker body)
  | [], _ => .nil _
  | stmt :: rest, plain => by
    rw [bodyFunctions, List.forall_mem_append] at plain
    rw [bodyFunctions, List.flatMap_append]
    refine (decided_statement stmt plain.1).bind fun _ => ?_
    exact (decided_statements rest plain.2).andThen fun _ => ⟨_, rfl⟩

end

end LateBinding

mutual

/-- The parameters of the functions of a statement that has been read have ordinary defaults, and
only those that can have one. -/
theorem Stmt.plain_functions : (stmt : Stmt) → {tokens : List Token} → stmt.Covers tokens →
    ∀ function ∈ stmt.functions, ∀ item ∈ function.1.parameters.items, Parameters.Plain item
  | .trivia _, _, _ | .simple _, _, _ => List.forall_mem_nil _
  | .compound _ _ body, _, covers => by
    obtain ⟨indent, inner, dedent, -, -, -, bodyCovers, -⟩ := covers
    exact plain_bodyFunctions body bodyCovers
  | .function first _ body, _, covers => by
    obtain ⟨line, indent, inner, dedent, -, -, opens, -, bodyCovers, -⟩ := covers
    exact List.forall_mem_cons.2 ⟨opens.plain, plain_bodyFunctions body bodyCovers⟩
  | .inlineFunction first _, _, ⟨_, opens, _⟩ => List.forall_mem_singleton.2 opens.plain

theorem plain_bodyFunctions : (body : List Stmt) → {tokens : List Token} → BodyCovers body tokens →
    ∀ function ∈ bodyFunctions body, ∀ item ∈ function.1.parameters.items, Parameters.Plain item
  | [], _, _ => List.forall_mem_nil _
  | stmt :: rest, _, covers => by
    obtain ⟨front, back, -, firstCovers, restCovers⟩ := covers
    exact List.forall_mem_append.2
      ⟨Stmt.plain_functions stmt firstCovers, plain_bodyFunctions rest restCovers⟩

end

/-- Late binding of a program that has been read succeeds exactly if every default that begins with
the marker is a whole call of it with arguments, none of which names its value. Otherwise it fails
because of the first parameter whose default is not, functions in the order of the text. -/
theorem Program.bindLate_rejects {marker : String} {tokens : List Token} {program : Program}
    (read : Program.ofTokens tokens = .ok program) :
    ((∃ bound, program.bindLate marker = .ok bound) ↔
      ∀ parameter ∈ program.parameters, parameter.IsAccepted marker) ∧
    ∀ fault, program.bindLate marker = .error fault →
      ∃ before parameter after cause position,
        program.parameters = before ++ parameter :: after ∧
        (∀ earlier ∈ before, earlier.IsAccepted marker) ∧ ¬ parameter.IsAccepted marker ∧
        parameter.Faulty marker cause position ∧
        fault = .lateDefault parameter.name.text cause position := by
  obtain ⟨front, back, covers, -⟩ := Program.covers_ofTokens read
  have decided : LateBinding.Decided marker program.parameters (program.bindLate marker) :=
    (LateBinding.decided_statements program.body
      (plain_bodyFunctions program.body covers)).andThen fun _ => ⟨_, rfl⟩
  cases found : program.bindLate marker with
  | ok bound =>
    rw [found] at decided
    cases decided with
    | ok accepted => exact ⟨⟨fun _ => accepted, fun _ => ⟨bound, rfl⟩⟩, nofun⟩
  | error fault =>
    rw [found] at decided
    cases decided with
    | @error before after parameter cause position split earlier faulty =>
      refine ⟨⟨nofun, fun accepted => ?_⟩, ?_⟩
      · refine absurd (accepted parameter ?_) faulty.not_isAccepted
        rw [split]
        exact List.mem_append_right _ List.mem_cons_self
      · rintro fault ⟨⟩
        exact ⟨before, parameter, after, cause, position, split, earlier, faulty.not_isAccepted,
          faulty, rfl⟩

/-- `def f(a, b = m(a), c = m(,)):` holds `def g(d = m(e, x = b)): d` and `def h(i = m): i`. -/
def refusedTokens : List Token :=
  let token kind text row col : Token := ⟨kind, text, ⟨row, col⟩, ⟨row, col⟩⟩
  [token .name "def" 1 0, token .name "f" 1 4, token .op "(" 1 5, token .name "a" 1 6,
    token .op "," 1 7, token .name "b" 1 9, token .op "=" 1 11, token .name "m" 1 13,
    token .op "(" 1 14, token .name "a" 1 15, token .op ")" 1 16, token .op "," 1 17,
    token .name "c" 1 19, token .op "=" 1 21, token .name "m" 1 23, token .op "(" 1 24,
    token .op "," 1 25, token .op ")" 1 26, token .op ")" 1 27, token .op ":" 1 28,
    token .newline "\n" 1 29, token .indent " " 2 0,
    token .name "def" 2 1, token .name "g" 2 5, token .op "(" 2 6, token .name "d" 2 7,
    token .op "=" 2 9, token .name "m" 2 11, token .op "(" 2 12, token .name "e" 2 13,
    token .op "," 2 14, token .name "x" 2 16, token .op "=" 2 18, token .name "b" 2 20,
    token .op ")" 2 21, token .op ")" 2 22, token .op ":" 2 23, token .name "d" 2 25,
    token .newline "\n" 2 26,
    token .name "def" 3 1, token .name "h" 3 5, token .op "(" 3 6, token .name "i" 3 7,
    token .op "=" 3 9, token .name "m" 3 11, token .op ")" 3 12, token .op ":" 3 13,
    token .name "i" 3 15, token .newline "\n" 3 16, token .dedent "" 4 0, token .endMarker "" 4 0]

/-- The defaults of `b` and `c` are accepted, the latter with an argument that has no code; that of
`d` is refused, and that of `i` not reached. -/
theorem refusedTokens_rejects :
    ∃ program, Program.ofTokens refusedTokens = .ok program ∧
      program.bindLate "m" = .error (.lateDefault "d" .keywordArgument ⟨2, 16⟩) ∧
      (¬ ∀ parameter ∈ program.parameters, parameter.IsAccepted "m") ∧
      ∃ before parameter after cause position,
        program.parameters = before ++ parameter :: after ∧
        (∀ earlier ∈ before, earlier.IsAccepted "m") ∧ ¬ parameter.IsAccepted "m" ∧
        parameter.Faulty "m" cause position ∧
        Fault.lateDefault "d" .keywordArgument ⟨2, 16⟩ =
          .lateDefault parameter.name.text cause position := by
  have refused : (Program.ofTokens refusedTokens).toOption.any (fun program =>
      match program.bindLate "m" with
      | .error fault => fault == .lateDefault "d" .keywordArgument ⟨2, 16⟩
      | .ok _ => false) = true := by decide +kernel
  obtain ⟨program, read, failed⟩ : ∃ program, Program.ofTokens refusedTokens = .ok program ∧
      program.bindLate "m" = .error (.lateDefault "d" .keywordArgument ⟨2, 16⟩) := by
    cases read : Program.ofTokens refusedTokens with
    | error fault =>
      rw [read] at refused
      cases refused
    | ok program =>
      rw [read, toOption_ok, Option.any_some] at refused
      refine ⟨program, rfl, ?_⟩
      cases failed : program.bindLate "m" with
      | ok bound =>
        rw [failed] at refused
        cases refused
      | error fault =>
        rw [failed] at refused
        rw [beq_iff_eq.1 refused]
  obtain ⟨succeeds, fails⟩ := @Program.bindLate_rejects "m" refusedTokens program read
  refine ⟨program, read, failed, fun accepted => ?_, fails _ failed⟩
  obtain ⟨bound, success⟩ := succeeds.2 accepted
  rw [failed] at success
  cases success

end DeferredDefaults
