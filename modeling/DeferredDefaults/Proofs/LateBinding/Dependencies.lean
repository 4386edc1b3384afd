import Mathlib.Data.List.Forall2
import DeferredDefaults.LateBinding
import DeferredDefaults.Proofs.Success

/-!
Which names a late default reads. Late binding finds them by counting: the positional parameters
without a default, those with one that have been passed, and the keyword-only ones that have been
passed. Where the positional parameters without a default come first, the count is the number of
parameters in front, so that a late default reads exactly the names declared before it.
-/

set_option autoImplicit false
set_option relaxedAutoImplicit false

namespace DeferredDefaults

def Parameter.namesOf (select : Parameter.Kind → Bool) (list : List Parameter) : List String :=
  (list.filter fun parameter => select parameter.kind).map (·.name.text)

def Parameter.deferred? (parameter : Parameter) : Option Deferred :=
  match parameter.default with
  | some ⟨_, .deferred deferred⟩ => some deferred
  | _ => none

/-- The parameter gets a late default: it can have one, and its default is a call of `marker`. -/
def Parameter.isLate (marker : String) (parameter : Parameter) : Bool :=
  !parameter.kind.isVariadic && parameter.isMarked marker

def Parameter.resolution? (parameter : Parameter) : Option Resolution :=
  parameter.deferred?.map fun deferred => ⟨parameter.name.text, deferred.dependencies⟩

/-- How the parameters are resolved that got a late default, in order of declaration. -/
def Parameter.resolutions (marker : String) (old new : List Parameter) : List Resolution :=
  (old.zip new).filterMap fun (source, result) =>
    if source.isLate marker then result.resolution? else none

namespace Parameters

/-- The names that a parameter of this kind reads, `before` being the parameters in front: the
positional ones in front, or all positional ones and the keyword-only ones in front. -/
def readable (parameters : Parameters) (before : List Parameter) (kind : Parameter.Kind) :
    List String :=
  if kind.isPositional then Parameter.namesOf Parameter.Kind.isPositional before
  else parameters.names Parameter.Kind.isPositional ++
    Parameter.namesOf (· == .keywordOnly) before

/-- No positional parameter without a default comes behind a positional one with a default. -/
def DefaultsTrail (parameters : Parameters) : Prop :=
  parameters.list.Pairwise fun front back =>
    front.kind.isPositional → front.default.isSome → back.kind.isPositional → back.default.isSome

instance (parameters : Parameters) : Decidable parameters.DefaultsTrail :=
  inferInstanceAs (Decidable (parameters.list.Pairwise _))

def defaultedCount (parameters : Parameters) : Nat :=
  parameters.list.countP fun parameter =>
    parameter.kind.isPositional && parameter.default.isSome

end Parameters

namespace Scope

def Passed.past (passed : Passed) (parameters : List Parameter) : Passed :=
  parameters.foldl Passed.next passed

private theorem Passed.defaulted_past (passed : Passed) (parameters : List Parameter) :
    (passed.past parameters).defaulted = passed.defaulted + parameters.countP fun parameter =>
      parameter.kind.isPositional && parameter.default.isSome := by
  induction parameters generalizing passed with
  | nil => rfl
  | cons parameter rest ih =>
    rw [past, List.foldl_cons, ← past, ih, List.countP_cons]
    simp only [next]
    omega

private theorem Passed.keywordOnly_past (passed : Passed) (parameters : List Parameter) :
    (passed.past parameters).keywordOnly = passed.keywordOnly +
      (Parameter.namesOf (· == .keywordOnly) parameters).length := by
  induction parameters generalizing passed with
  | nil => rfl
  | cons parameter rest ih =>
    rw [past, List.foldl_cons, ← past, ih, next, Parameter.namesOf, Parameter.namesOf,
      List.filter_cons]
    by_cases keyword : parameter.kind == .keywordOnly
    · simp only [keyword, if_true, List.map_cons, List.length_cons]
      omega
    · simp only [keyword, if_false, Bool.false_eq_true]
      omega

variable {parameters : Parameters} {before after : List Parameter} {parameter : Parameter}

theorem namesOf_split (select : Parameter.Kind → Bool)
    (split : parameters.list = before ++ parameter :: after) :
    parameters.names select = Parameter.namesOf select before ++
      Parameter.namesOf select (parameter :: after) := by
  simp [Parameters.names, Parameter.namesOf, split]

private theorem length_namesOf_isPositional (list : List Parameter) :
    (Parameter.namesOf Parameter.Kind.isPositional list).length =
      (list.countP fun parameter => parameter.kind.isPositional && parameter.default.isNone) +
        list.countP fun parameter =>
          parameter.kind.isPositional && parameter.default.isSome := by
  induction list with
  | nil => rfl
  | cons parameter rest ih =>
    rw [Parameter.namesOf, List.length_map] at ih
    rw [Parameter.namesOf, List.length_map, List.filter_cons, List.countP_cons,
      List.countP_cons]
    cases parameter.kind.isPositional <;> cases parameter.default <;> simp [ih] <;> omega

private theorem required_eq_countP (trail : parameters.DefaultsTrail)
    (split : parameters.list = before ++ parameter :: after)
    (positional : parameter.kind.isPositional = true) (defaulted : parameter.default.isSome) :
    (ofParameters parameters).required =
      before.countP fun parameter =>
        parameter.kind.isPositional && parameter.default.isNone := by
  have behind : (parameter :: after).countP (fun parameter =>
      parameter.kind.isPositional && parameter.default.isNone) = 0 := by
    rw [List.countP_eq_zero]
    intro other member required
    rw [Bool.and_eq_true] at required
    have hasDefault : other.default.isSome := by
      rcases List.mem_cons.1 member with rfl | later
      · exact defaulted
      · rw [Parameters.DefaultsTrail, split, List.pairwise_append] at trail
        have ordered := List.rel_of_pairwise_cons trail.2.1 later
        exact ordered positional defaulted required.1
    rw [Option.isNone_iff_eq_none.1 required.2] at hasDefault
    cases hasDefault
  show parameters.list.countP _ = _
  rw [split, List.countP_append, behind, Nat.add_zero]

private theorem visible_positional (trail : parameters.DefaultsTrail)
    (split : parameters.list = before ++ parameter :: after)
    (positional : parameter.kind.isPositional = true) (defaulted : parameter.default.isSome) :
    (ofParameters parameters).visible (Passed.past {} before) parameter.kind =
      parameters.readable before parameter.kind := by
  have count : (ofParameters parameters).required + (Passed.past {} before).defaulted =
      (Parameter.namesOf Parameter.Kind.isPositional before).length := by
    rw [required_eq_countP trail split positional defaulted, Passed.defaulted_past,
      length_namesOf_isPositional]
    show _ + (0 + _) = _
    omega
  rw [visible, if_pos positional, Parameters.readable, if_pos positional, count]
  show (parameters.names Parameter.Kind.isPositional).take _ = _
  rw [namesOf_split _ split, List.take_left]

/-- What counting makes visible to a keyword-only parameter are all positional names and the
keyword-only ones in front of it. -/
private theorem visible_keywordOnly (split : parameters.list = before ++ parameter :: after)
    (keyword : parameter.kind.isPositional = false) :
    (ofParameters parameters).visible (Passed.past {} before) parameter.kind =
      parameters.readable before parameter.kind := by
  have notPositional : ¬ parameter.kind.isPositional = true := by simp [keyword]
  have count : (Passed.past {} before).keywordOnly =
      (Parameter.namesOf (· == .keywordOnly) before).length := by
    rw [Passed.keywordOnly_past]
    exact Nat.zero_add _
  rw [visible, if_neg notPositional, Parameters.readable, if_neg notPositional, count,
    List.take_length_add_append]
  show _ ++ (parameters.names (· == .keywordOnly)).take _ = _
  rw [namesOf_split (· == .keywordOnly) split, List.take_left]
  rfl

private theorem required_add_defaultedCount (parameters : Parameters) :
    (ofParameters parameters).required + parameters.defaultedCount =
      (ofParameters parameters).positional.length :=
  (length_namesOf_isPositional parameters.list).symm

private theorem slices_in_range (split : parameters.list = before ++ parameter :: after) :
    (parameter.kind.isPositional = true → parameter.default.isSome →
      (ofParameters parameters).required + (Passed.past {} before).defaulted <
        (ofParameters parameters).positional.length) ∧
    (parameter.kind = .keywordOnly →
      (ofParameters parameters).positional.length + (Passed.past {} before).keywordOnly <
        ((ofParameters parameters).positional ++ (ofParameters parameters).keywordOnly).length) := by
  constructor
  · intro positional defaulted
    have more : before.countP (fun parameter =>
        parameter.kind.isPositional && parameter.default.isSome) < parameters.defaultedCount := by
      rw [Parameters.defaultedCount, split, List.countP_append, List.countP_cons]
      simp only [positional, defaulted, Bool.and_self, if_true]
      omega
    rw [← required_add_defaultedCount, Passed.defaulted_past]
    show _ + (0 + _) < _
    omega
  · intro keyword
    have longer : (Parameter.namesOf (· == .keywordOnly) before).length <
        (parameters.names (· == .keywordOnly)).length := by
      rw [namesOf_split _ split, List.length_append]
      simp [Parameter.namesOf, keyword]
    rw [List.length_append, Passed.keywordOnly_past]
    show _ + (0 + _) < _ + (parameters.names (· == .keywordOnly)).length
    omega

end Scope

namespace LateBinding

/-- A parameter list before and after late binding, with the resolutions: the parameters that get a
late default get one that reads what counting makes visible, and the others stay. -/
inductive Deferrals (marker : String) (scope : Scope) :
    Scope.Passed → List Parameter → List Parameter → List Resolution → Prop
  | nil {passed : Scope.Passed} : Deferrals marker scope passed [] [] []
  | kept {passed : Scope.Passed} {parameter : Parameter} {old new : List Parameter}
      {resolutions : List Resolution} :
      parameter.isLate marker = false →
      Deferrals marker scope (passed.next parameter) old new resolutions →
      Deferrals marker scope passed (parameter :: old) (parameter :: new) resolutions
  | deferred {passed : Scope.Passed} {parameter : Parameter} {old new : List Parameter}
      {resolutions : List Resolution} (eq : Token) (call : MarkerCall) :
      parameter.isLate marker = true →
      Deferrals marker scope (passed.next parameter) old new resolutions →
      Deferrals marker scope passed (parameter :: old)
        ({ parameter with
            default := some ⟨eq, .deferred ⟨scope.visible passed parameter.kind, call⟩⟩ } :: new)
        (⟨parameter.name.text, scope.visible passed parameter.kind⟩ :: resolutions)

/-- Nothing is read from a default that is not a marker call; from one that is, the call. -/
theorem isCall_of_ofTokens? {marker name : String} {dependencies : List String}
    {tokens : List Token} {result : Option Deferred}
    (read : Deferred.ofTokens? marker name dependencies tokens = .ok result) :
    (result = none ∧ MarkerCall.isCall marker tokens = false) ∨
      ∃ call, result = some ⟨dependencies, call⟩ ∧ MarkerCall.isCall marker tokens = true := by
  unfold Deferred.ofTokens? at read
  split at read
  · next missing =>
    left
    have isCall : MarkerCall.isCall marker tokens = false := by
      simp [MarkerCall.isCall, missing]
    split at read
    · split at read
      · cases read
      · cases read
        exact ⟨rfl, isCall⟩
    · cases read
      exact ⟨rfl, isCall⟩
  · next call found =>
    right
    split at read
    · cases read
    · split at read
      · cases read
      · cases read
        exact ⟨call, rfl, by simp [MarkerCall.isCall, found]⟩

private theorem deferrals_of_parameter {marker : String} {scope : Scope} {passed : Scope.Passed}
    {old new : Parameter} {own : List Resolution}
    (bound : parameter marker scope passed old = .ok (new, own)) {olds news : List Parameter}
    {others : List Resolution}
    (rest : Deferrals marker scope (passed.next old) olds news others) :
    Deferrals marker scope passed (old :: olds) (new :: news) (own ++ others) := by
  unfold parameter at bound
  split at bound
  · next eq tokens slot =>
    split at bound
    · next variadic =>
      cases bound
      exact .kept (by simp [Parameter.isLate, variadic]) rest
    · next named =>
      rw [Bool.not_eq_true] at named
      obtain ⟨result, read, bound⟩ := bind_eq_ok.1 bound
      rcases isCall_of_ofTokens? read with ⟨rfl, isCall⟩ | ⟨call, rfl, isCall⟩
      · cases bound
        exact .kept (by simp [Parameter.isLate, Parameter.isMarked, slot, isCall]) rest
      · cases bound
        have late : old.isLate marker = true := by
          simp [Parameter.isLate, Parameter.isMarked, slot, isCall, named]
        exact .deferred eq call late rest
  · next other =>
    cases bound
    refine .kept ?_ rest
    have unmarked : old.isMarked marker = false := by
      unfold Parameter.isMarked
      split
      · next eq tokens slot => exact absurd slot (other eq tokens)
      · rfl
    simp [Parameter.isLate, unmarked]

theorem deferrals_of_items {marker : String} {scope : Scope} {passed : Scope.Passed}
    {old new : List ParameterItem} {resolutions : List Resolution}
    (bound : items marker scope passed old = .ok (new, resolutions)) :
    Deferrals marker scope passed (old.filterMap ParameterItem.parameter?)
      (new.filterMap ParameterItem.parameter?) resolutions := by
  induction old generalizing passed new resolutions with
  | nil =>
    cases bound
    exact .nil
  | cons item rest ih =>
    cases item with
    | separator value =>
      obtain ⟨⟨others, later⟩, boundRest, finished⟩ := bind_eq_ok.1 bound
      cases finished
      have later := ih boundRest
      exact later
    | parameter value =>
      obtain ⟨⟨value', own⟩, boundOwn, bound⟩ := bind_eq_ok.1 bound
      obtain ⟨⟨others, later⟩, boundRest, finished⟩ := bind_eq_ok.1 bound
      cases finished
      exact deferrals_of_parameter boundOwn (ih boundRest)

namespace Deferrals

variable {marker : String} {scope : Scope} {passed : Scope.Passed} {old new : List Parameter}
  {resolutions : List Resolution}

private theorem map_kind_name (deferrals : Deferrals marker scope passed old new resolutions) :
    (new.map fun parameter => (parameter.kind, parameter.name)) =
      old.map fun parameter => (parameter.kind, parameter.name) := by
  induction deferrals with
  | nil => rfl
  | kept _ _ ih => simp [ih]
  | deferred _ _ _ _ ih => simp [ih]

private theorem forall₂_isLate (deferrals : Deferrals marker scope passed old new resolutions) :
    List.Forall₂ (fun source result =>
      if source.isLate marker then result.deferred?.isSome else result = source) old new := by
  induction deferrals with
  | nil => exact .nil
  | kept eager _ ih => exact .cons (by simp [eager]) ih
  | deferred _ _ late _ ih => exact .cons (by simp [late, Parameter.deferred?]) ih

private theorem resolutions_eq (deferrals : Deferrals marker scope passed old new resolutions) :
    resolutions = Parameter.resolutions marker old new := by
  induction deferrals with
  | nil => rfl
  | kept eager _ ih =>
    simp only [Parameter.resolutions, List.zip_cons_cons, List.filterMap_cons, eager,
      Bool.false_eq_true, if_false]
    exact ih
  | deferred _ _ late _ ih =>
    simp only [Parameter.resolutions, List.zip_cons_cons, List.filterMap_cons, late, if_true]
    exact congrArg _ ih

private theorem dependencies_eq (deferrals : Deferrals marker scope passed old new resolutions)
    {before after : List Parameter} {source result : Parameter}
    (split : old = before ++ source :: after) (late : source.isLate marker = true)
    (found : new[before.length]? = some result) :
    ∃ call, result.deferred? = some ⟨scope.visible (passed.past before) source.kind, call⟩ := by
  induction deferrals generalizing before with
  | nil => simp at split
  | @kept passed parameter old new resolutions eager rest ih =>
    cases before with
    | nil =>
      rw [List.nil_append, List.cons.injEq] at split
      rw [split.1, late] at eager
      cases eager
    | cons first before =>
      rw [List.cons_append, List.cons.injEq] at split
      rw [← split.1]
      exact ih split.2 (by simpa using found)
  | @deferred passed parameter old new resolutions eq call late' rest ih =>
    cases before with
    | nil =>
      rw [List.nil_append, List.cons.injEq] at split
      rw [← split.1]
      cases found
      exact ⟨call, rfl⟩
    | cons first before =>
      rw [List.cons_append, List.cons.injEq] at split
      rw [← split.1]
      exact ih split.2 (by simpa using found)

end Deferrals

end LateBinding

mutual

/-- The functions of a statement with their bodies, an outer one before those in its body. -/
def Stmt.functions : Stmt → List (Header × List Stmt)
  | .compound _ _ body => bodyFunctions body
  | .function header _ body => (header, body) :: bodyFunctions body
  | .inlineFunction header line => [(header, [.simple line])]
  | .trivia _ | .simple _ | .prologue _ | .runtimeImport => []

/-- The functions of a list of statements, at any depth. -/
def bodyFunctions : List Stmt → List (Header × List Stmt)
  | [] => []
  | stmt :: rest => stmt.functions ++ bodyFunctions rest

end

/-- Late binding of one function, before and after. -/
structure Infers (marker : String) (old new : Header × List Stmt) : Prop where
  /-- Kinds and names stay. -/
  signature : (new.1.parameters.list.map fun parameter => (parameter.kind, parameter.name)) =
    old.1.parameters.list.map fun parameter => (parameter.kind, parameter.name)
  /-- Exactly the defaults that call the marker become late ones. -/
  deferred : List.Forall₂ (fun source result =>
    if source.isLate marker then result.deferred?.isSome else result = source)
      old.1.parameters.list new.1.parameters.list
  /-- A late default reads the names declared in front of it. -/
  dependencies : ∀ before source after result,
    old.1.parameters.list = before ++ source :: after → source.isLate marker = true →
    new.1.parameters.list[before.length]? = some result →
    ∃ call, result.deferred? = some ⟨old.1.parameters.readable before source.kind, call⟩
  /-- The prologue resolves the late defaults in the order of declaration. -/
  prologue : ∃ body, LateBinding.statements marker old.2 = .ok body ∧
    new.2 = LateBinding.addPrologue
      (Parameter.resolutions marker old.1.parameters.list new.1.parameters.list) body
  /-- The required positional parameters are the positional ones less those with a default. -/
  offset : (Scope.ofParameters old.1.parameters).required + old.1.parameters.defaultedCount =
    (Scope.ofParameters old.1.parameters).positional.length
  /-- Every slice that is taken to find the names is in range. -/
  slices : ∀ before parameter after, old.1.parameters.list = before ++ parameter :: after →
    (parameter.kind.isPositional = true → parameter.default.isSome →
      (Scope.ofParameters old.1.parameters).required +
        (Scope.Passed.past {} before).defaulted <
          (Scope.ofParameters old.1.parameters).positional.length) ∧
    (parameter.kind = .keywordOnly →
      (Scope.ofParameters old.1.parameters).positional.length +
        (Scope.Passed.past {} before).keywordOnly <
          ((Scope.ofParameters old.1.parameters).positional ++
            (Scope.ofParameters old.1.parameters).keywordOnly).length)

namespace LateBinding

theorem default_isSome_of_isLate {marker : String} {parameter : Parameter}
    (late : parameter.isLate marker = true) : parameter.default.isSome = true := by
  rw [Parameter.isLate, Bool.and_eq_true] at late
  unfold Parameter.isMarked at late
  split at late
  · next slot => simp [slot]
  · cases late.2

theorem visible_eq_readable {marker : String} {parameters : Parameters}
    (trail : parameters.DefaultsTrail) {before after : List Parameter} {parameter : Parameter}
    (split : parameters.list = before ++ parameter :: after)
    (late : parameter.isLate marker = true) :
    (Scope.ofParameters parameters).visible (Scope.Passed.past {} before) parameter.kind =
      parameters.readable before parameter.kind := by
  cases positional : parameter.kind.isPositional with
  | true => exact Scope.visible_positional trail split positional (default_isSome_of_isLate late)
  | false => exact Scope.visible_keywordOnly split positional

/-- A function and what binding makes of it: the defaults of its header are deferred, and its body
is bound and gets a prologue. -/
def BindsFunction (marker : String) (old new : Header × List Stmt) : Prop :=
  ∃ resolutions bound, header marker old.1 = .ok (new.1, resolutions) ∧
    statements marker old.2 = .ok bound ∧ new.2 = addPrologue resolutions bound

private theorem BindsFunction.infers {marker : String} {old new : Header × List Stmt}
    (binds : BindsFunction marker old new) (trail : old.1.parameters.DefaultsTrail) :
    Infers marker old new := by
  obtain ⟨oldHeader, body⟩ := old
  obtain ⟨newHeader, newBody⟩ := new
  obtain ⟨resolutions, bound, boundHeader, boundBody, rfl⟩ := binds
  obtain ⟨⟨items', found⟩, boundItems, finished⟩ := bind_eq_ok.1 boundHeader
  cases finished
  have deferrals := deferrals_of_items boundItems
  refine ⟨deferrals.map_kind_name, deferrals.forall₂_isLate, ?_, ?_, ?_, ?_⟩
  · intro before source after result split late found
    obtain ⟨call, read⟩ := deferrals.dependencies_eq split late found
    exact ⟨call, by rw [read, visible_eq_readable trail split late]⟩
  · exact ⟨bound, boundBody, by rw [deferrals.resolutions_eq]; rfl⟩
  · exact Scope.required_add_defaultedCount oldHeader.parameters
  · intro before parameter after split
    exact Scope.slices_in_range split

end LateBinding

theorem bodyFunctions_append (front back : List Stmt) :
    bodyFunctions (front ++ back) = bodyFunctions front ++ bodyFunctions back := by
  induction front with
  | nil => rw [bodyFunctions]; rfl
  | cons stmt rest ih =>
    rw [List.cons_append, bodyFunctions, bodyFunctions, ih, List.append_assoc]

theorem bodyFunctions_insertAt {stmt : Stmt} (plain : stmt.functions = []) (index : Nat)
    (body : List Stmt) :
    bodyFunctions (LateBinding.insertAt index stmt body) = bodyFunctions body := by
  rw [LateBinding.insertAt, bodyFunctions_append, bodyFunctions, plain, List.nil_append,
    ← bodyFunctions_append, List.take_append_drop]

namespace LateBinding

variable {marker : String}

mutual

theorem binds_functions {old new : Stmt} (bound : statement marker old = .ok new) :
    List.Forall₂ (BindsFunction marker) old.functions new.functions := by
  cases old with
  | compound first margin body =>
    obtain ⟨body', boundBody, finished⟩ := bind_eq_ok.1 bound
    cases finished
    exact binds_bodyFunctions boundBody
  | function first margin body =>
    obtain ⟨⟨first', resolutions⟩, boundHeader, bound⟩ := bind_eq_ok.1 bound
    obtain ⟨body', boundBody, finished⟩ := bind_eq_ok.1 bound
    cases finished
    rw [Stmt.functions, Stmt.functions]
    refine .cons ⟨resolutions, body', boundHeader, boundBody, rfl⟩ ?_
    rw [addPrologue, bodyFunctions_insertAt rfl]
    exact binds_bodyFunctions boundBody
  | inlineFunction first line =>
    obtain ⟨⟨first', resolutions⟩, boundHeader, finished⟩ := bind_eq_ok.1 bound
    cases finished
    rw [Stmt.functions, Stmt.functions]
    refine .cons ⟨resolutions, [.simple line], boundHeader, rfl, rfl⟩ ?_
    rw [addPrologue, bodyFunctions_insertAt rfl]
    exact .nil
  | trivia tokens => cases bound; exact .nil
  | simple line => cases bound; exact .nil
  | prologue resolutions => cases bound; exact .nil
  | runtimeImport => cases bound; exact .nil

theorem binds_bodyFunctions {old new : List Stmt} (bound : statements marker old = .ok new) :
    List.Forall₂ (BindsFunction marker) (bodyFunctions old) (bodyFunctions new) := by
  cases old with
  | nil => cases bound; exact .nil
  | cons stmt rest =>
    obtain ⟨stmt', boundStmt, bound⟩ := bind_eq_ok.1 bound
    obtain ⟨rest', boundRest, finished⟩ := bind_eq_ok.1 bound
    cases finished
    rw [bodyFunctions, bodyFunctions]
    exact List.rel_append (binds_functions boundStmt) (binds_bodyFunctions boundRest)

end

private theorem forall₂_bodyFunctions {old new : List Stmt}
    (bound : statements marker old = .ok new) :
    List.Forall₂ (fun old new => old.1.parameters.DefaultsTrail → Infers marker old new)
      (bodyFunctions old) (bodyFunctions new) :=
  (binds_bodyFunctions bound).imp fun _ _ binds trail => binds.infers trail

end LateBinding

/-- Late binding finds the names that late defaults read: in every function, at any depth, whose
required positional parameters come first. -/
theorem Program.bindLate_infers {marker : String} {program bound : Program}
    (success : program.bindLate marker = .ok bound) :
    List.Forall₂ (fun old new => old.1.parameters.DefaultsTrail → Infers marker old new)
      (bodyFunctions program.body) (bodyFunctions bound.body) := by
  obtain ⟨body, boundBody, finished⟩ := bind_eq_ok.1 success
  cases finished
  rw [bodyFunctions_insertAt rfl]
  exact LateBinding.forall₂_bodyFunctions boundBody

/-- The parameters `a`, `b = m(a)` and, after a bare `*`, `c = m(b)`. -/
def lateParameters : Parameters :=
  let name text : Token := ⟨.name, text, .origin, .origin⟩
  let op text : Token := ⟨.op, text, .origin, .origin⟩
  let late text : Option ParameterDefault :=
    some ⟨op "=", .expression [name "m", op "(", name text, op ")"]⟩
  ⟨[], [.parameter ⟨.positionalOrKeyword, [], name "a", [], none, [op ","]⟩,
    .parameter ⟨.positionalOrKeyword, [], name "b", [], late "a", [op ","]⟩,
    .separator ⟨.keywordOnly, op "*", [op ","]⟩,
    .parameter ⟨.keywordOnly, [], name "c", [], late "b", []⟩]⟩

def lateProgram : Program :=
  ⟨[.compound [] .inline [.inlineFunction ⟨"f", false, [], lateParameters, []⟩ []]]⟩

/-- In `f(a, b = m(a), *, c = m(b))` the default of `b` reads `a`, and that of `c` reads both. -/
theorem lateProgram_infers :
    lateParameters.DefaultsTrail ∧
    ∃ bound, lateProgram.bindLate "m" = .ok bound ∧
      List.Forall₂ (fun old new => old.1.parameters.DefaultsTrail → Infers "m" old new)
        (bodyFunctions lateProgram.body) (bodyFunctions bound.body) ∧
      List.zipWith (fun old new =>
          Parameter.resolutions "m" old.1.parameters.list new.1.parameters.list)
        (bodyFunctions lateProgram.body) (bodyFunctions bound.body) =
        [[⟨"b", ["a"]⟩, ⟨"c", ["a", "b"]⟩]] :=
  ⟨by decide, _, rfl, Program.bindLate_infers rfl, by rfl⟩

end DeferredDefaults
