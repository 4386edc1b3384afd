import Mathlib.Algebra.GroupWithZero.Nat
import DeferredDefaults.Proofs.LateBinding.Dependencies
import DeferredDefaults.Proofs.Tree.Coverage

/-!
Late binding only adds, and misses nothing. No marker call is left; every one has become a deferred
default and a resolution. Every function gets one prologue and the program one import, and without
them and with the marker calls put back the tree is the one that has been read.
-/

set_option autoImplicit false
set_option relaxedAutoImplicit false

namespace DeferredDefaults

def DefaultValue.restored : DefaultValue → DefaultValue
  | .expression tokens => .expression tokens
  | .deferred value => .expression value.call.tokens

def Parameter.restored (parameter : Parameter) : Parameter :=
  { parameter with default := parameter.default.map fun slot => ⟨slot.eq, slot.value.restored⟩ }

def ParameterItem.restored : ParameterItem → ParameterItem
  | .parameter value => .parameter value.restored
  | .separator value => .separator value

def Header.restored (header : Header) : Header :=
  { header with parameters :=
    { header.parameters with items := header.parameters.items.map ParameterItem.restored } }

def Header.deferredCount (header : Header) : Nat :=
  header.parameters.list.countP fun parameter => parameter.deferred?.isSome

namespace Stmt

def isPrologue : Stmt → Bool
  | prologue _ => true
  | _ => false

def isRuntimeImport : Stmt → Bool
  | runtimeImport => true
  | _ => false

def deferredCount : Stmt → Nat
  | function header _ _ => header.deferredCount
  | inlineFunction header _ => header.deferredCount
  | _ => 0

def resolutionCount : Stmt → Nat
  | prologue resolutions => resolutions.length
  | _ => 0

end Stmt

mutual

def Stmt.nodes : Stmt → List Stmt
  | .compound header margin body => .compound header margin body :: bodyNodes body
  | .function header margin body => .function header margin body :: bodyNodes body
  | .trivia tokens => [.trivia tokens]
  | .simple line => [.simple line]
  | .inlineFunction header line => [.inlineFunction header line]
  | .prologue resolutions => [.prologue resolutions]
  | .runtimeImport => [.runtimeImport]

def bodyNodes : List Stmt → List Stmt
  | [] => []
  | stmt :: rest => stmt.nodes ++ bodyNodes rest

end

mutual

/-- The statement and those inside it that do not belong to a function inside it. -/
def Stmt.own : Stmt → List Stmt
  | .compound header margin body => .compound header margin body :: bodyOwn body
  | .function header margin body => [.function header margin body]
  | .trivia tokens => [.trivia tokens]
  | .simple line => [.simple line]
  | .inlineFunction header line => [.inlineFunction header line]
  | .prologue resolutions => [.prologue resolutions]
  | .runtimeImport => [.runtimeImport]

def bodyOwn : List Stmt → List Stmt
  | [] => []
  | stmt :: rest => stmt.own ++ bodyOwn rest

end

mutual

/-- The statement as it was before late binding: nothing, for one that does not come from the text,
and a suite on the header's line for a block without an indent. -/
def Stmt.restored : Stmt → List Stmt
  | .compound header margin body => [.compound header margin (bodyRestored body)]
  | .function header margin body => match margin.indent, bodyRestored body with
    | none, [.simple line] => [.inlineFunction header.restored line]
    | _, others => [.function header.restored margin others]
  | .trivia tokens => [.trivia tokens]
  | .simple line => [.simple line]
  | .inlineFunction header line => [.inlineFunction header.restored line]
  | .prologue _ | .runtimeImport => []

def bodyRestored : List Stmt → List Stmt
  | [] => []
  | stmt :: rest => stmt.restored ++ bodyRestored rest

end

namespace Program

def deferredCount (program : Program) : Nat :=
  ((bodyNodes program.body).map Stmt.deferredCount).sum

def resolutionCount (program : Program) : Nat :=
  ((bodyNodes program.body).map Stmt.resolutionCount).sum

def restored (program : Program) : Program := ⟨bodyRestored program.body⟩

end Program

namespace LateBinding

/-- The place between `front` and `back` is behind the first statement that is not trivia, if that
is a docstring, and otherwise in front of it, or at the end if there is none. -/
def Opens (front back : List Stmt) : Prop :=
  ∃ trivia : List Stmt, (∀ stmt ∈ trivia, stmt.isTrivia = true) ∧
    ((∃ docstring : Stmt, docstring.isDocstring = true ∧ front = trivia ++ [docstring]) ∨
      (front = trivia ∧ ∀ next ∈ back.head?, next.isTrivia = false ∧ next.isDocstring = false))

/-- The statements are imports from `__future__` and trivia in front of them, and no more of those
imports follow. -/
structure FutureRun (futures back : List Stmt) : Prop where
  imports : ∀ stmt ∈ futures, stmt.isTrivia = true ∨ stmt.isFutureImport = true
  last : ∀ stmt ∈ futures.getLast?, stmt.isFutureImport = true
  next : ∀ stmt ∈ (back.dropWhile Stmt.isTrivia).head?, stmt.isFutureImport = false

/-- The body of a function has one prologue, where a prologue belongs. -/
structure HasPrologue (body : List Stmt) : Prop where
  placed : ∃ front resolutions back,
    body = front ++ .prologue resolutions :: back ∧ Opens front back
  once : (bodyOwn body).countP Stmt.isPrologue = 1

/-- The body of a program has one import, where an import belongs. -/
structure HasImport (body : List Stmt) : Prop where
  placed : ∃ start futures back, body = start ++ futures ++ .runtimeImport :: back ∧
    Opens start (futures ++ back) ∧ FutureRun futures back
  once : (bodyNodes body).countP Stmt.isRuntimeImport = 1

end LateBinding

/-- What late binding makes of a program. -/
structure Program.LateBound (marker : String) (program next : Program) : Prop where
  markers : next.markerCount marker = 0
  deferred : next.deferredCount = program.markerCount marker
  resolutions : next.resolutionCount = program.markerCount marker
  prologues : ∀ function ∈ bodyFunctions next.body, LateBinding.HasPrologue function.2
  outside : (bodyOwn next.body).countP Stmt.isPrologue = 0
  imports : LateBinding.HasImport next.body
  restored : next.restored = program

namespace LateBinding

variable {marker : String}

private theorem Opens.cons {stmt : Stmt} (trivia : stmt.isTrivia = true) {front back : List Stmt}
    (opens : Opens front back) : Opens (stmt :: front) back := by
  obtain ⟨others, allTrivia, placed⟩ := opens
  refine ⟨stmt :: others, List.forall_mem_cons.2 ⟨trivia, allTrivia⟩, ?_⟩
  rcases placed with ⟨docstring, isDocstring, rfl⟩ | ⟨rfl, next⟩
  · exact .inl ⟨docstring, isDocstring, rfl⟩
  · exact .inr ⟨rfl, next⟩

theorem prologueIndex_cons (stmt : Stmt) (rest : List Stmt) :
    prologueIndex (stmt :: rest) =
      if stmt.isTrivia then prologueIndex rest + 1
      else if stmt.isDocstring then 1 else 0 := by
  unfold prologueIndex
  rw [List.findIdx_cons]
  cases trivia : stmt.isTrivia with
  | true =>
    simp only [Bool.not_true, cond_false, List.getElem?_cons_succ, if_true]
    split <;> rfl
  | false => simp

theorem opens_prologueIndex (body : List Stmt) :
    Opens (body.take (prologueIndex body)) (body.drop (prologueIndex body)) := by
  induction body with
  | nil => exact ⟨[], nofun, .inr ⟨rfl, nofun⟩⟩
  | cons stmt rest ih =>
    rw [prologueIndex_cons]
    split
    · next trivia => exact ih.cons trivia
    · next noTrivia =>
      rw [Bool.not_eq_true] at noTrivia
      split
      · next docstring => exact ⟨[], nofun, .inl ⟨stmt, docstring, rfl⟩⟩
      · next noDocstring =>
        rw [Bool.not_eq_true] at noDocstring
        refine ⟨[], nofun, .inr ⟨rfl, ?_⟩⟩
        rintro next ⟨⟩
        exact ⟨noTrivia, noDocstring⟩

private theorem FutureRun.cons {stmt : Stmt} {futures back : List Stmt}
    (run : FutureRun futures back) (fits : stmt.isTrivia = true ∨ stmt.isFutureImport = true)
    (ends : futures = [] → stmt.isFutureImport = true) : FutureRun (stmt :: futures) back where
  imports := List.forall_mem_cons.2 ⟨fits, run.imports⟩
  last := by
    cases futures with
    | nil =>
      rintro last ⟨⟩
      exact ends rfl
    | cons first others =>
      rw [List.getLast?_cons_cons]
      exact run.last
  next := run.next

theorem futureRun_futureLength (body : List Stmt) :
    FutureRun (body.take (futureLength body)) (body.drop (futureLength body)) := by
  fun_induction futureLength body with
  | case1 => exact ⟨nofun, nofun, nofun⟩
  | case2 stmt rest future ih => exact ih.cons (.inr future) fun _ => future
  | case3 stmt rest noFuture trivia none ih =>
    rw [none] at ih
    refine ⟨nofun, nofun, ?_⟩
    rw [List.drop_zero, List.dropWhile_cons_of_pos trivia]
    exact ih.next
  | case4 stmt rest noFuture trivia length some ih =>
    rw [some] at ih
    refine ih.cons (.inl trivia) fun nothing => ?_
    have short : rest = [] := by simpa using nothing
    rw [short, futureLength] at some
    cases some
  | case5 stmt rest noFuture noTrivia =>
    rw [Bool.not_eq_true] at noFuture
    refine ⟨nofun, nofun, ?_⟩
    rw [List.drop_zero, List.dropWhile_cons_of_neg noTrivia]
    rintro next ⟨⟩
    exact noFuture

private theorem bound_parameter {scope : Scope} {passed : Scope.Passed} {old new : Parameter}
    {own : List Resolution} (plain : Parameters.Plain (.parameter old))
    (bound : parameter marker scope passed old = .ok (new, own)) :
    new.isMarked marker = false ∧ new.restored = old ∧
      own.length = (if old.isMarked marker then 1 else 0) ∧
      (if new.deferred?.isSome then 1 else 0) = own.length := by
  obtain ⟨kind, stars, name, hint, default, suffix⟩ := old
  cases default with
  | none =>
    cases bound
    exact ⟨rfl, rfl, rfl, rfl⟩
  | some slot =>
    obtain ⟨fixed, tokens, found⟩ := plain slot rfl
    obtain ⟨eq, value⟩ := slot
    cases found
    simp only [parameter, fixed, Bool.false_eq_true, if_false] at bound
    obtain ⟨result, read, bound⟩ := bind_eq_ok.1 bound
    rcases isCall_of_ofTokens? read with ⟨rfl, noCall⟩ | ⟨call, rfl, isCall⟩
    · cases bound
      simp [Parameter.isMarked, Parameter.restored, DefaultValue.restored, Parameter.deferred?,
        noCall]
    · cases bound
      have same := MarkerCall.tokens_ofTokens? (Deferred.ofTokens?_eq_some read)
      simp only at same
      simp [Parameter.isMarked, Parameter.restored, DefaultValue.restored, Parameter.deferred?,
        isCall, same]

private theorem bound_items {scope : Scope} {passed : Scope.Passed} {old new : List ParameterItem}
    {resolutions : List Resolution} (plain : ∀ item ∈ old, Parameters.Plain item)
    (bound : items marker scope passed old = .ok (new, resolutions)) :
    (new.filterMap ParameterItem.parameter?).countP (Parameter.isMarked marker) = 0 ∧
      new.map ParameterItem.restored = old ∧
      resolutions.length =
        (old.filterMap ParameterItem.parameter?).countP (Parameter.isMarked marker) ∧
      ((new.filterMap ParameterItem.parameter?).countP fun parameter =>
        parameter.deferred?.isSome) = resolutions.length := by
  induction old generalizing passed new resolutions with
  | nil =>
    cases bound
    exact ⟨rfl, rfl, rfl, rfl⟩
  | cons item rest ih =>
    rw [List.forall_mem_cons] at plain
    cases item with
    | separator value =>
      obtain ⟨⟨others, more⟩, boundRest, bound⟩ := bind_eq_ok.1 bound
      cases bound
      obtain ⟨unmarked, same, count, deferred⟩ := ih plain.2 boundRest
      exact ⟨unmarked, congrArg (_ :: ·) same, count, deferred⟩
    | parameter value =>
      obtain ⟨⟨first, own⟩, boundFirst, bound⟩ := bind_eq_ok.1 bound
      obtain ⟨⟨others, more⟩, boundRest, bound⟩ := bind_eq_ok.1 bound
      cases bound
      obtain ⟨unmarked, same, count, deferred⟩ := ih plain.2 boundRest
      obtain ⟨firstUnmarked, firstSame, firstCount, firstDeferred⟩ :=
        bound_parameter plain.1 boundFirst
      simp only [List.filterMap_cons, ParameterItem.parameter?, List.countP_cons, List.map_cons,
        ParameterItem.restored, List.length_append, firstUnmarked, firstSame, same, firstCount,
        firstDeferred, unmarked, count, deferred]
      refine ⟨rfl, trivial, ?_, ?_⟩ <;> omega

structure BoundHeader (marker : String) (old new : Header) (resolutions : List Resolution) :
    Prop where
  markers : new.markerCount marker = 0
  resolved : resolutions.length = old.markerCount marker
  deferred : new.deferredCount = old.markerCount marker
  restored : new.restored = old

private theorem bound_header {old new : Header} {resolutions : List Resolution}
    (plain : ∀ item ∈ old.parameters.items, Parameters.Plain item)
    (bound : header marker old = .ok (new, resolutions)) :
    BoundHeader marker old new resolutions := by
  obtain ⟨⟨list, own⟩, boundItems, bound⟩ := bind_eq_ok.1 bound
  cases bound
  obtain ⟨unmarked, same, count, deferred⟩ := bound_items plain boundItems
  refine ⟨unmarked, count, deferred.trans count, ?_⟩
  simp only [Header.restored, same]

end LateBinding

/-! Statements that are put in between -/

theorem bodyNodes_append (front back : List Stmt) :
    bodyNodes (front ++ back) = bodyNodes front ++ bodyNodes back := by
  induction front with
  | nil => rw [bodyNodes]; rfl
  | cons stmt rest ih => rw [List.cons_append, bodyNodes, bodyNodes, ih, List.append_assoc]

private theorem bodyOwn_append (front back : List Stmt) :
    bodyOwn (front ++ back) = bodyOwn front ++ bodyOwn back := by
  induction front with
  | nil => rw [bodyOwn]; rfl
  | cons stmt rest ih => rw [List.cons_append, bodyOwn, bodyOwn, ih, List.append_assoc]

private theorem bodyRestored_append (front back : List Stmt) :
    bodyRestored (front ++ back) = bodyRestored front ++ bodyRestored back := by
  induction front with
  | nil => rw [bodyRestored]; rfl
  | cons stmt rest ih => rw [List.cons_append, bodyRestored, bodyRestored, ih, List.append_assoc]

private theorem bodyMarkerCount_append (marker : String) (front back : List Stmt) :
    bodyMarkerCount marker (front ++ back) =
      bodyMarkerCount marker front + bodyMarkerCount marker back := by
  induction front with
  | nil => rw [bodyMarkerCount, List.nil_append, Nat.zero_add]
  | cons stmt rest ih =>
    rw [List.cons_append, bodyMarkerCount, bodyMarkerCount, ih, Nat.add_assoc]

namespace LateBinding

variable {marker : String}

structure BoundBody (marker : String) (old new : List Stmt) : Prop where
  markers : bodyMarkerCount marker new = 0
  deferred : ((bodyNodes new).map Stmt.deferredCount).sum = bodyMarkerCount marker old
  resolved : ((bodyNodes new).map Stmt.resolutionCount).sum = bodyMarkerCount marker old
  prologues : ∀ function ∈ bodyFunctions new, HasPrologue function.2
  outside : (bodyOwn new).countP Stmt.isPrologue = 0
  imports : (bodyNodes new).countP Stmt.isRuntimeImport = 0
  restored : bodyRestored new = old

private theorem perm_bodyNodes_insertAt (index : Nat) (stmt : Stmt) (body : List Stmt) :
    (bodyNodes (insertAt index stmt body)).Perm (stmt.nodes ++ bodyNodes body) := by
  rw [insertAt, bodyNodes_append, bodyNodes]
  nth_rewrite 3 [← List.take_append_drop index body]
  rw [bodyNodes_append]
  exact List.perm_append_comm_assoc ..

private theorem perm_bodyOwn_insertAt (index : Nat) (stmt : Stmt) (body : List Stmt) :
    (bodyOwn (insertAt index stmt body)).Perm (stmt.own ++ bodyOwn body) := by
  rw [insertAt, bodyOwn_append, bodyOwn]
  nth_rewrite 3 [← List.take_append_drop index body]
  rw [bodyOwn_append]
  exact List.perm_append_comm_assoc ..

private theorem sum_bodyNodes_insertAt (weigh : Stmt → Nat) (index : Nat) (stmt : Stmt)
    (body : List Stmt) :
    ((bodyNodes (insertAt index stmt body)).map weigh).sum =
      (stmt.nodes.map weigh).sum + ((bodyNodes body).map weigh).sum := by
  rw [((perm_bodyNodes_insertAt index stmt body).map weigh).sum_nat, List.map_append,
    List.sum_append]

private theorem countP_bodyNodes_insertAt (select : Stmt → Bool) (index : Nat) (stmt : Stmt)
    (body : List Stmt) :
    (bodyNodes (insertAt index stmt body)).countP select =
      stmt.nodes.countP select + (bodyNodes body).countP select := by
  rw [(perm_bodyNodes_insertAt index stmt body).countP_eq, List.countP_append]

private theorem countP_bodyOwn_insertAt (select : Stmt → Bool) (index : Nat) (stmt : Stmt)
    (body : List Stmt) :
    (bodyOwn (insertAt index stmt body)).countP select =
      stmt.own.countP select + (bodyOwn body).countP select := by
  rw [(perm_bodyOwn_insertAt index stmt body).countP_eq, List.countP_append]

private theorem bodyRestored_insertAt {stmt : Stmt} (added : stmt.restored = []) (index : Nat)
    (body : List Stmt) : bodyRestored (insertAt index stmt body) = bodyRestored body := by
  rw [insertAt, bodyRestored_append, bodyRestored, added, List.nil_append, ← bodyRestored_append,
    List.take_append_drop]

private theorem bodyMarkerCount_insertAt {stmt : Stmt} (unmarked : stmt.markerCount marker = 0)
    (index : Nat) (body : List Stmt) :
    bodyMarkerCount marker (insertAt index stmt body) = bodyMarkerCount marker body := by
  rw [insertAt, bodyMarkerCount_append, bodyMarkerCount, unmarked, Nat.zero_add,
    ← bodyMarkerCount_append, List.take_append_drop]

namespace BoundBody

variable {old new : List Stmt}

private theorem append {front back : List Stmt} (bound : BoundBody marker old new)
    (others : BoundBody marker front back) : BoundBody marker (old ++ front) (new ++ back) where
  markers := by rw [bodyMarkerCount_append, bound.markers, others.markers]
  deferred := by
    rw [bodyNodes_append, List.map_append, List.sum_append, bound.deferred, others.deferred,
      bodyMarkerCount_append]
  resolved := by
    rw [bodyNodes_append, List.map_append, List.sum_append, bound.resolved, others.resolved,
      bodyMarkerCount_append]
  prologues := by
    rw [bodyFunctions_append]
    exact List.forall_mem_append.2 ⟨bound.prologues, others.prologues⟩
  outside := by rw [bodyOwn_append, List.countP_append, bound.outside, others.outside]
  imports := by rw [bodyNodes_append, List.countP_append, bound.imports, others.imports]
  restored := by rw [bodyRestored_append, bound.restored, others.restored]

private theorem hasPrologue (bound : BoundBody marker old new) (resolutions : List Resolution) :
    HasPrologue (addPrologue resolutions new) where
  placed := ⟨_, resolutions, _, rfl, opens_prologueIndex new⟩
  once := by
    rw [addPrologue, countP_bodyOwn_insertAt, bound.outside]
    rfl

private theorem compound (bound : BoundBody marker old new) (header : List Token)
    (margin : Margin) :
    BoundBody marker [.compound header margin old] [.compound header margin new] where
  markers := bound.markers
  deferred := by
    simpa [bodyNodes, Stmt.nodes, bodyMarkerCount, Stmt.markerCount, Stmt.deferredCount]
      using bound.deferred
  resolved := by
    simpa [bodyNodes, Stmt.nodes, bodyMarkerCount, Stmt.markerCount, Stmt.resolutionCount]
      using bound.resolved
  prologues := by simpa [bodyFunctions, Stmt.functions] using bound.prologues
  outside := by
    simpa [bodyOwn, Stmt.own, Stmt.isPrologue, List.countP_cons] using bound.outside
  imports := by
    simpa [bodyNodes, Stmt.nodes, Stmt.isRuntimeImport, List.countP_cons] using bound.imports
  restored := by simp [bodyRestored, Stmt.restored, bound.restored]

private theorem function (bound : BoundBody marker old new) {first next : Header}
    {resolutions : List Resolution} (header : BoundHeader marker first next resolutions)
    {margin : Margin} {source : Stmt}
    (count : source.markerCount marker = first.markerCount marker + bodyMarkerCount marker old)
    (restored : (Stmt.function next margin (addPrologue resolutions new)).restored = [source]) :
    BoundBody marker [source] [.function next margin (addPrologue resolutions new)] where
  markers := by
    have unmarked : (Stmt.prologue resolutions).markerCount marker = 0 := rfl
    rw [bodyMarkerCount, Stmt.markerCount, header.markers, addPrologue,
      bodyMarkerCount_insertAt unmarked, bound.markers]
    rfl
  deferred := by
    simp only [bodyNodes, Stmt.nodes, List.append_nil, List.map_cons, List.sum_cons, addPrologue,
      sum_bodyNodes_insertAt, bound.deferred, bodyMarkerCount, count, Stmt.deferredCount,
      header.deferred]
    simp
  resolved := by
    simp only [bodyNodes, Stmt.nodes, List.append_nil, List.map_cons, List.sum_cons, addPrologue,
      sum_bodyNodes_insertAt, bound.resolved, bodyMarkerCount, count, Stmt.resolutionCount,
      header.resolved]
    simp
  prologues := by
    have inside : bodyFunctions (addPrologue resolutions new) = bodyFunctions new :=
      bodyFunctions_insertAt rfl _ new
    simp only [bodyFunctions, Stmt.functions, List.append_nil, inside]
    exact List.forall_mem_cons.2 ⟨bound.hasPrologue resolutions, bound.prologues⟩
  outside := by simp [bodyOwn, Stmt.own, Stmt.isPrologue]
  imports := by
    simp only [bodyNodes, Stmt.nodes, List.append_nil, List.countP_cons, addPrologue,
      countP_bodyNodes_insertAt, bound.imports]
    simp [Stmt.isRuntimeImport]
  restored := by rw [bodyRestored, restored]; rfl

end BoundBody

private theorem restored_addPrologue (resolutions : List Resolution) (body : List Stmt) :
    bodyRestored (addPrologue resolutions body) = bodyRestored body :=
  bodyRestored_insertAt rfl _ body

mutual

/-- What binding makes of a statement that has been read. -/
private theorem bound_statement : (stmt : Stmt) → {tokens : List Token} → stmt.Covers tokens →
    {next : Stmt} → statement marker stmt = .ok next → BoundBody marker [stmt] [next]
  | .trivia _, _, _, _, bound | .simple _, _, _, _, bound => by
    cases bound
    exact ⟨rfl, rfl, rfl, nofun, rfl, rfl, rfl⟩
  | .compound header margin body, _, covers, _, bound => by
    obtain ⟨indent, inner, dedent, -, -, -, bodyCovers, -⟩ := covers
    obtain ⟨body', boundBody, bound⟩ := bind_eq_ok.1 bound
    cases bound
    exact (bound_statements body bodyCovers boundBody).compound header margin
  | .function first margin body, _, covers, _, bound => by
    obtain ⟨line, indent, inner, dedent, -, -, opens, ⟨token, isIndent, -⟩, bodyCovers, -⟩ := covers
    obtain ⟨⟨first', resolutions⟩, boundHeader, bound⟩ := bind_eq_ok.1 bound
    obtain ⟨body', boundBody, bound⟩ := bind_eq_ok.1 bound
    cases bound
    have header := bound_header opens.plain boundHeader
    have inside := bound_statements body bodyCovers boundBody
    refine inside.function header rfl ?_
    rw [Stmt.restored, restored_addPrologue, inside.restored, header.restored, isIndent]
  | .inlineFunction first line, _, ⟨_, opens, _⟩, _, bound => by
    obtain ⟨⟨first', resolutions⟩, boundHeader, bound⟩ := bind_eq_ok.1 bound
    cases bound
    have header := bound_header opens.plain boundHeader
    have inside : BoundBody marker [.simple line] [.simple line] :=
      ⟨rfl, rfl, rfl, nofun, rfl, rfl, rfl⟩
    refine inside.function header rfl ?_
    rw [Stmt.restored, restored_addPrologue, inside.restored, header.restored]
    rfl

private theorem bound_statements :
    (body : List Stmt) → {tokens : List Token} → BodyCovers body tokens →
    {next : List Stmt} → statements marker body = .ok next → BoundBody marker body next
  | [], _, _, _, bound => by
    cases bound
    exact ⟨rfl, rfl, rfl, nofun, rfl, rfl, rfl⟩
  | stmt :: rest, _, covers, _, bound => by
    obtain ⟨front, back, -, firstCovers, restCovers⟩ := covers
    obtain ⟨stmt', boundFirst, bound⟩ := bind_eq_ok.1 bound
    obtain ⟨rest', boundRest, bound⟩ := bind_eq_ok.1 bound
    cases bound
    exact (bound_statement stmt firstCovers boundFirst).append
      (bound_statements rest restCovers boundRest)

end

private theorem BoundBody.hasImport {old new : List Stmt} (bound : BoundBody marker old new) :
    HasImport (insertAt (importIndex new) .runtimeImport new) where
  placed := by
    have opens := opens_prologueIndex new
    have futures := futureRun_futureLength (new.drop (prologueIndex new))
    refine ⟨new.take (prologueIndex new), _, _, ?_, ?_, futures⟩
    · rw [insertAt, importIndex, List.take_add, List.drop_drop]
    · rwa [List.take_append_drop]
  once := by
    rw [countP_bodyNodes_insertAt, bound.imports]
    rfl

end LateBinding

/-- Late binding of a program that has been read only adds, and leaves no marker call. -/
theorem Program.bindLate_exhaustive {marker : String} {tokens : List Token} {program next : Program}
    (read : Program.ofTokens tokens = .ok program) (bound : program.bindLate marker = .ok next) :
    LateBound marker program next := by
  obtain ⟨front, back, covers, -⟩ := Program.covers_ofTokens read
  obtain ⟨body, boundBody, bound⟩ := bind_eq_ok.1 bound
  cases bound
  have inside := LateBinding.bound_statements program.body covers boundBody
  refine ⟨?_, ?_, ?_, ?_, ?_, inside.hasImport, ?_⟩
  · rw [markerCount, LateBinding.bodyMarkerCount_insertAt rfl, inside.markers]
  · rw [deferredCount, LateBinding.sum_bodyNodes_insertAt, inside.deferred]
    exact Nat.zero_add _
  · rw [resolutionCount, LateBinding.sum_bodyNodes_insertAt, inside.resolved]
    exact Nat.zero_add _
  · rw [bodyFunctions_insertAt rfl]
    exact inside.prologues
  · rw [LateBinding.countP_bodyOwn_insertAt, inside.outside]
    rfl
  · rw [restored, LateBinding.bodyRestored_insertAt rfl, inside.restored]

/-- A docstring, an import from `__future__`, and a function with its suite in the block of another:
`def f(a, b = m(a)):` holds `def g(c = m(b)): c`. -/
def nestedTokens : List Token :=
  let token kind text : Token := ⟨kind, text, .origin, .origin⟩
  let stop := token .newline "\n"
  [token .string "''", stop, token .name "from", token .name "__future__", token .name "import",
    token .name "g", stop,
    token .name "def", token .name "f", token .op "(", token .name "a", token .op ",",
    token .name "b", token .op "=", token .name "m", token .op "(", token .name "a", token .op ")",
    token .op ")", token .op ":", stop, token .indent " ",
    token .name "def", token .name "g", token .op "(", token .name "c", token .op "=",
    token .name "m", token .op "(", token .name "b", token .op ")", token .op ")", token .op ":",
    token .name "c", stop, token .dedent "", token .endMarker ""]

/-- Both marker calls of the two functions are deferred and resolved. -/
theorem nestedTokens_lateBound :
    ∃ program next, Program.ofTokens nestedTokens = .ok program ∧
      program.bindLate "m" = .ok next ∧ program.markerCount "m" = 2 ∧
      Program.LateBound "m" program next := by
  have count : (Program.ofTokens nestedTokens).toOption.map (Program.markerCount "m") = some 2 := by
    decide +kernel
  have isOk : (Program.ofTokens nestedTokens >>= Program.bindLate "m").isOk = true := by
    decide +kernel
  cases read : Program.ofTokens nestedTokens with
  | error fault =>
    rw [read] at isOk
    cases isOk
  | ok program =>
    rw [read] at count isOk
    cases bound : program.bindLate "m" with
    | error fault =>
      replace isOk : (program.bindLate "m").isOk = true := isOk
      rw [bound] at isOk
      cases isOk
    | ok next =>
      exact ⟨program, next, rfl, bound, Option.some.inj count,
        Program.bindLate_exhaustive read bound⟩

end DeferredDefaults
