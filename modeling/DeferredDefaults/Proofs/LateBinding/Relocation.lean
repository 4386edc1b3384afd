import DeferredDefaults.LateBinding
import DeferredDefaults.Proofs.Tree.Relocation

/-!
Deferring defaults does not depend on places. When every token of a tree is moved, its kind and text
kept, the same defaults are deferred or both trees are refused.
-/

set_option autoImplicit false
set_option relaxedAutoImplicit false

namespace DeferredDefaults

private theorem Argument.isKeyword_map {move : Token → Token} (relocates : Relocates move)
    (argument : Argument) :
    (argument.map move).isKeyword = argument.isKeyword := by
  have filter : (argument.value.map move).filter (fun token => !token.isTrivia) =
      (argument.value.filter fun token => !token.isTrivia).map move := by
    rw [List.filter_map]
    simp only [Function.comp_def, relocates.isTrivia]
  unfold isKeyword
  simp only [map]
  rw [filter]
  cases argument.value.filter fun token => !token.isTrivia with
  | nil => rfl
  | cons first rest =>
    cases rest with
    | nil => rfl
    | cons second rest => simp only [List.map_cons, relocates.kind, relocates.isOp]

private theorem Deferred.ofTokens?_map {move : Token → Token} (relocates : Relocates move)
    (marker name : String) (dependencies : List String) (tokens : List Token) :
    (ofTokens? marker name dependencies (tokens.map move)).toOption =
      (ofTokens? marker name dependencies tokens).toOption.map (Option.map (Deferred.map move)) := by
  simp only [ofTokens?, MarkerCall.ofTokens?_map relocates]
  cases MarkerCall.ofTokens? marker tokens with
  | none =>
    cases tokens with
    | nil => rfl
    | cons first rest =>
      simp only [Option.map_none, List.map_cons, List.head?_cons, relocates.isName]
      split <;> rfl
  | some call =>
    have keyword : (call.args.map (Argument.map move)).find? Argument.isKeyword =
        (call.args.find? Argument.isKeyword).map (Argument.map move) := by
      rw [List.find?_map]
      simp only [Function.comp_def, Argument.isKeyword_map relocates]
    simp only [Option.map_some, MarkerCall.map, List.isEmpty_map, keyword]
    split
    · rfl
    · cases call.args.find? Argument.isKeyword <;> rfl

namespace LateBinding

variable {move : Token → Token} (relocates : Relocates move)
include relocates

omit relocates in
private theorem list_map (parameters : Parameters) :
    (parameters.map move).list = parameters.list.map (Parameter.map move) := by
  have parameter : ∀ item : ParameterItem,
      (item.map move).parameter? = item.parameter?.map (Parameter.map move) := by
    intro item
    cases item <;> rfl
  simp only [Parameters.list, Parameters.map, List.filterMap_map, List.map_filterMap,
    Function.comp_def, parameter]

private theorem ofParameters_map (parameters : Parameters) :
    Scope.ofParameters (parameters.map move) = Scope.ofParameters parameters := by
  have names : ∀ select : Parameter.Kind → Bool,
      (parameters.map move).names select = parameters.names select := by
    intro select
    simp [Parameters.names, list_map, List.filter_map, Function.comp_def, Parameter.map,
      relocates.text]
  simp [Scope.ofParameters, names, list_map, List.countP_map, Function.comp_def,
    Parameter.map]

private theorem parameter_map (marker : String) (scope : Scope) (passed : Scope.Passed)
    (value : Parameter) :
    (parameter marker scope passed (value.map move)).toOption =
      (parameter marker scope passed value).toOption.map fun found =>
        (found.1.map move, found.2) := by
  obtain ⟨kind, stars, name, hint, default, suffix⟩ := value
  cases default with
  | none => rfl
  | some default =>
    obtain ⟨eq, default⟩ := default
    cases default with
    | deferred value => rfl
    | expression tokens =>
      simp only [parameter, Parameter.map, Option.map_some, ParameterDefault.map, relocates.text]
      split
      · rfl
      · rw [toOption_bind, toOption_bind, Deferred.ofTokens?_map relocates]
        cases Deferred.ofTokens? marker name.text (scope.visible passed kind) tokens with
        | error fault => rfl
        | ok found => cases found <;> rfl

private theorem items_map (marker : String) (scope : Scope) (list : List ParameterItem)
    (passed : Scope.Passed) :
    (items marker scope passed (list.map (ParameterItem.map move))).toOption =
      (items marker scope passed list).toOption.map fun found =>
        (found.1.map (ParameterItem.map move), found.2) := by
  induction list generalizing passed with
  | nil => rfl
  | cons item rest ih =>
    cases item with
    | separator value =>
      simp only [List.map_cons, ParameterItem.map, items]
      rw [toOption_bind, toOption_bind, ih]
      cases items marker scope passed rest <;> rfl
    | parameter value =>
      have next : passed.next (value.map move) = passed.next value := by
        simp [Scope.Passed.next, Parameter.map]
      simp only [List.map_cons, ParameterItem.map, items, next]
      rw [toOption_bind, toOption_bind, parameter_map relocates]
      cases parameter marker scope passed value with
      | error fault => rfl
      | ok found =>
        simp only [toOption_ok, Option.map_some, Option.bind_some]
        rw [toOption_bind, toOption_bind, ih]
        cases items marker scope (passed.next value) rest <;> rfl

private theorem header_map (marker : String) (first : Header) :
    (header marker (first.map move)).toOption =
      (header marker first).toOption.map fun found => (found.1.map move, found.2) := by
  have scope := ofParameters_map relocates first.parameters
  simp only [header, Header.map, scope]
  rw [toOption_bind, toOption_bind]
  simp only [Parameters.map]
  rw [items_map relocates]
  cases items marker (Scope.ofParameters first.parameters) {} first.parameters.items <;> rfl

private theorem prologueIndex_map (body : List Stmt) :
    prologueIndex (bodyMap move body) = prologueIndex body := by
  have trivia : ∀ stmt : Stmt, (stmt.map move).isTrivia = stmt.isTrivia := by
    intro stmt
    cases stmt <;> rfl
  have docstring : ∀ stmt : Stmt, (stmt.map move).isDocstring = stmt.isDocstring := by
    intro stmt
    cases stmt with
    | simple line => exact Line.isDocstring_map relocates line
    | trivia | compound | function | inlineFunction | prologue | runtimeImport => rfl
  simp only [prologueIndex, bodyMap_eq, List.findIdx_map, Function.comp_def, trivia,
    List.getElem?_map, Option.any_map, docstring]

private theorem futureLength_map (body : List Stmt) :
    futureLength (bodyMap move body) = futureLength body := by
  induction body with
  | nil => rfl
  | cons stmt rest ih =>
    have future : (stmt.map move).isFutureImport = stmt.isFutureImport := by
      cases stmt with
      | simple line => exact Line.isFutureImport_map relocates line
      | trivia | compound | function | inlineFunction | prologue | runtimeImport => rfl
    have trivia : (stmt.map move).isTrivia = stmt.isTrivia := by cases stmt <;> rfl
    rw [bodyMap, futureLength, futureLength, future, trivia, ih]

omit relocates in
private theorem insertAt_map (index : Nat) (stmt : Stmt) (body : List Stmt) :
    insertAt index (stmt.map move) (bodyMap move body) = bodyMap move (insertAt index stmt body) := by
  simp only [insertAt, bodyMap_eq, List.map_append, List.map_cons, List.map_take, List.map_drop]

private theorem addPrologue_map (resolutions : List Resolution) (body : List Stmt) :
    addPrologue resolutions (bodyMap move body) = bodyMap move (addPrologue resolutions body) := by
  rw [addPrologue, prologueIndex_map relocates]
  exact insertAt_map _ (.prologue resolutions) body

omit relocates

mutual

private theorem statement_map (relocates : Relocates move) (marker : String) : (stmt : Stmt) →
    (statement marker (stmt.map move)).toOption =
      (statement marker stmt).toOption.map (Stmt.map move)
  | .trivia _ | .simple _ | .prologue _ | .runtimeImport => rfl
  | .compound first margin body => by
    simp only [Stmt.map, statement]
    rw [toOption_bind, toOption_bind, statements_map relocates marker body]
    cases statements marker body <;> rfl
  | .function first margin body => by
    simp only [Stmt.map, statement]
    rw [toOption_bind, toOption_bind, header_map relocates]
    cases header marker first with
    | error fault => rfl
    | ok found =>
      simp only [toOption_ok, Option.map_some, Option.bind_some]
      rw [toOption_bind, toOption_bind, statements_map relocates marker body]
      cases statements marker body with
      | error fault => rfl
      | ok inner =>
        simp only [toOption_ok, Option.map_some, Option.bind_some, addPrologue_map relocates]
        rfl
  | .inlineFunction first line => by
    simp only [Stmt.map, statement]
    rw [toOption_bind, toOption_bind, header_map relocates]
    cases header marker first with
    | error fault => rfl
    | ok found =>
      simp only [toOption_ok, Option.map_some, Option.bind_some]
      have inner := addPrologue_map relocates found.2 [.simple line]
      simp only [bodyMap, Stmt.map] at inner
      rw [inner]
      rfl

private theorem statements_map (relocates : Relocates move) (marker : String) : (body : List Stmt) →
    (statements marker (bodyMap move body)).toOption =
      (statements marker body).toOption.map (bodyMap move)
  | [] => rfl
  | stmt :: rest => by
    simp only [bodyMap, statements]
    rw [toOption_bind, toOption_bind, statement_map relocates marker stmt]
    cases statement marker stmt with
    | error fault => rfl
    | ok first =>
      simp only [toOption_ok, Option.map_some, Option.bind_some]
      rw [toOption_bind, toOption_bind, statements_map relocates marker rest]
      cases statements marker rest <;> rfl

end

end LateBinding

/-- Deferring the defaults of a program whose tokens have been moved. -/
theorem Program.bindLate_map {move : Token → Token} (relocates : Relocates move) (marker : String)
    (program : Program) :
    ((program.map move).bindLate marker).toOption =
      (program.bindLate marker).toOption.map (Program.map move) := by
  simp only [bindLate, Program.map]
  rw [toOption_bind, toOption_bind, LateBinding.statements_map relocates]
  cases LateBinding.statements marker program.body with
  | error fault => rfl
  | ok body =>
    have index : LateBinding.importIndex (bodyMap move body) = LateBinding.importIndex body := by
      have drop : ∀ count, (bodyMap move body).drop count = bodyMap move (body.drop count) := by
        intro count
        simp only [bodyMap_eq, List.map_drop]
      simp only [LateBinding.importIndex, LateBinding.prologueIndex_map relocates, drop,
        LateBinding.futureLength_map relocates]
    simp only [toOption_ok, Option.map_some, Option.bind_some, index]
    exact congrArg (fun body => some (Program.mk body))
      (LateBinding.insertAt_map _ .runtimeImport body)

end DeferredDefaults
