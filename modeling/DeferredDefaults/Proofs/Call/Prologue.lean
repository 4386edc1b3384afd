import DeferredDefaults.Proofs.Call.Building
import DeferredDefaults.Proofs.LateBinding.Dependencies
import DeferredDefaults.Proofs.Tree.Lossless

/-!
The prologue of a function and the evaluator of a call agree. The prologue resolves late defaults
one by one and finds what they read by name; the evaluator hands each of them the values that lead
the slots. For a header whose parameters are also those of a signature, both read all names that are
declared in front, run the same bodies on the same arguments and end with the same bindings.
-/

set_option autoImplicit false
set_option relaxedAutoImplicit false

namespace DeferredDefaults

universe u

variable {V : Type u}

namespace Call.Bindings

/-- Carries out the lines of a prologue: a slot that is still deferred gets what its body computes
from the values under the names that it reads. The first fault ends it. -/
def carryOut (bindings : Bindings V) : List Resolution → Outcome V
  | [] => ⟨[], .ok bindings⟩
  | resolution :: rest =>
    match bindings.get? resolution.name with
    | some (.deferred wrapper) =>
      match resolution.dependencies.mapM bindings.value with
      | .error fault => ⟨[], .error fault⟩
      | .ok arguments => match wrapper.computation.body arguments with
        | .error fault => ⟨[⟨resolution.name, arguments⟩], .error fault⟩
        | .ok value =>
          let later := carryOut (bindings.insert resolution.name (.value value)) rest
          ⟨⟨resolution.name, arguments⟩ :: later.ran, later.result⟩
    | _ => carryOut bindings rest

private theorem get?_of_slots {bindings : Bindings V} {front back : List (String × Slot V)}
    {name : String} {slot : Slot V} (shape : bindings.slots = front ++ (name, slot) :: back) :
    bindings.get? name = some slot := by
  have distinct := bindings.distinct
  rw [shape, List.map_append, List.map_cons, List.nodup_append] at distinct
  have absent : ∀ entry ∈ front, ¬ (entry.1 == name) = true := by
    intro entry member equal
    exact distinct.2.2 entry.1 (List.mem_map_of_mem member) name (by simp) (beq_iff_eq.1 equal)
  rw [get?, shape, List.find?_append, List.find?_eq_none.2 absent]
  simp

private theorem mapM_value_of_slots {bindings : Bindings V} {before : List (String × V)}
    {rest : List (String × Slot V)} (shape : bindings.slots = held before ++ rest) :
    (before.map Prod.fst).mapM bindings.value = .ok (before.map Prod.snd) := by
  have found : ∀ entry ∈ before, bindings.value entry.1 = .ok entry.2 := by
    intro entry member
    obtain ⟨front, back, split⟩ := List.append_of_mem member
    have slots : bindings.slots = held front ++ (entry.1, .value entry.2) :: (held back ++ rest) := by
      rw [shape, split]
      simp [held]
    rw [value, get?_of_slots slots]
  clear shape
  induction before with
  | nil => rfl
  | cons entry before ih =>
    rw [List.map_cons, List.mapM_cons, found entry (by simp),
      ih fun other member => found other (List.mem_cons_of_mem _ member)]
    rfl

end Call.Bindings

/-- The parameter of a signature to which arguments come the same way. Variadic parameters are none
of a signature. -/
def Parameter.Kind.declared : Parameter.Kind → Option Call.Kind
  | positionalOnly => some .positionalOnly
  | positionalOrKeyword => some .positionalOrKeyword
  | keywordOnly => some .keywordOnly
  | varPositional | varKeyword => none

/-- The declaration says of a parameter what the header says: its name and kind, and whether it is
required, has a default, or has a late one. -/
structure Parameter.Declares (parameter : Parameter) (declaration : Call.Declaration V) : Prop where
  name : declaration.name = parameter.name.text
  kind : parameter.kind.declared = some declaration.kind
  default : match parameter.default, declaration.default with
    | none, .required => True
    | some ⟨_, .expression _⟩, .eager _ => True
    | some ⟨_, .deferred _⟩, .late _ => True
    | _, _ => False

namespace Parameter

/-- Every late default reads `before` and the names in front of its parameter. -/
def ReadsInFront : (before : List String) → List Parameter → Prop
  | _, [] => True
  | before, parameter :: rest =>
    (∀ late ∈ parameter.deferred?, late.dependencies = before) ∧
      ReadsInFront (before ++ [parameter.name.text]) rest

section Declared

variable {parameter : Parameter} {declaration : Call.Declaration V}

private theorem isPositional_of_declared {kind : Parameter.Kind} {declared : Call.Kind}
    (same : kind.declared = some declared) :
    kind.isPositional = declared.isPositional ∧ (kind == .keywordOnly) = !kind.isPositional := by
  cases kind <;> cases same <;> exact ⟨rfl, rfl⟩

private theorem Declares.isSome_default (declares : parameter.Declares declaration) :
    parameter.default.isSome = !declaration.default.isRequired := by
  have same := declares.default
  split at same
  · next missing required => rw [missing, required]; rfl
  · next found eager => rw [found, eager]; rfl
  · next found late => rw [found, late]; rfl
  · exact same.elim

private theorem Declares.deferred?_eq_none (declares : parameter.Declares declaration)
    (notLate : ∀ body, declaration.default ≠ .late body) : parameter.deferred? = none := by
  have same := declares.default
  split at same
  · next missing _ => rw [deferred?, missing]
  · next found _ => rw [deferred?, found]
  · next late => exact absurd late (notLate _)
  · exact same.elim

private theorem Declares.exists_deferred (declares : parameter.Declares declaration)
    {body : List V → Except Call.Fault V} (late : declaration.default = .late body) :
    ∃ deferred, parameter.deferred? = some deferred := by
  have same := declares.default
  rw [late] at same
  split at same
  · next equal => cases equal
  · next equal => cases equal
  · next deferred _ found _ => exact ⟨deferred, by rw [deferred?, found]⟩
  · exact same.elim

end Declared

end Parameter

namespace Call

/-- The order that declarations must keep: kinds do not go back, and no required positional parameter
comes behind a positional one with a default. -/
def Declaration.Precedes (front back : Declaration V) : Prop :=
  front.kind.rank ≤ back.kind.rank ∧
    (front.kind.isPositional = true → front.default.isRequired = false →
      back.kind.isPositional = true → back.default.isRequired = false)

private theorem precedes_of_build {name : String} {declarations : List (Declaration V)}
    {signature : Signature V} (built : Signature.build name declarations = .ok signature) :
    declarations.Pairwise Declaration.Precedes := by
  have valid := Signature.valid_of_build built
  exact valid.kinds.and valid.defaults

end Call

namespace Parameters

open Call (Declaration)

private theorem deferred?_eq_none {parameters : Parameters}
    (plain : ∀ item ∈ parameters.items, Plain item) :
    ∀ parameter ∈ parameters.list, parameter.deferred? = none := by
  intro parameter member
  obtain ⟨item, itemMember, isParameter⟩ := List.mem_filterMap.1 member
  have isPlain := plain item itemMember
  cases item with
  | separator value => cases isParameter
  | parameter value =>
    cases isParameter
    unfold Parameter.deferred?
    split
    · next eq late found =>
      obtain ⟨_, tokens, expression⟩ := isPlain _ found
      cases expression
    · rfl

def shown (list : List Parameter) : List (Option Call.Kind × Bool) :=
  list.map fun parameter => (parameter.kind.declared, parameter.default.isSome)

private theorem shown_of_declares {list : List Parameter} {declarations : List (Declaration V)}
    (declares : List.Forall₂ Parameter.Declares list declarations) :
    shown list = declarations.map fun declaration =>
      (some declaration.kind, !declaration.default.isRequired) := by
  induction declares with
  | nil => rfl
  | cons first _ ih =>
    rw [shown, List.map_cons, List.map_cons, first.kind, first.isSome_default, ← ih, shown]

private theorem pairwise_of_shown {list : List Parameter} {declarations : List (Declaration V)}
    (same : shown list = declarations.map fun declaration =>
      (some declaration.kind, !declaration.default.isRequired))
    (ordered : declarations.Pairwise Declaration.Precedes) :
    list.Pairwise fun front back =>
      (back.kind.isPositional = true → front.kind.isPositional = true) ∧
        (front.kind.isPositional → front.default.isSome → back.kind.isPositional →
          back.default.isSome) := by
  have views : (shown list).Pairwise fun front back =>
      (back.1.any Call.Kind.isPositional = true → front.1.any Call.Kind.isPositional = true) ∧
        (front.1.any Call.Kind.isPositional = true → front.2 = true →
          back.1.any Call.Kind.isPositional = true → back.2 = true) := by
    rw [same, List.pairwise_map]
    refine ordered.imp fun {front back} precedes => ⟨?_, ?_⟩
    · exact Call.Kind.isPositional_of_rank precedes.1
    · intro positional defaulted later
      rw [Bool.not_eq_true'] at defaulted ⊢
      exact precedes.2 positional defaulted later
  have declared : ∀ kind : Parameter.Kind,
      kind.declared.any Call.Kind.isPositional = kind.isPositional := by
    intro kind
    cases kind <;> rfl
  rw [shown, List.pairwise_map] at views
  simpa only [declared] using views

private theorem declared_of_shown {list : List Parameter} {declarations : List (Declaration V)}
    (same : shown list = declarations.map fun declaration =>
      (some declaration.kind, !declaration.default.isRequired)) :
    ∀ parameter ∈ list, ∃ kind, parameter.kind.declared = some kind := by
  intro parameter member
  have shownMember : (parameter.kind.declared, parameter.default.isSome) ∈ shown list :=
    List.mem_map_of_mem member
  rw [same, List.mem_map] at shownMember
  obtain ⟨declaration, _, equal⟩ := shownMember
  exact ⟨declaration.kind, (Prod.mk.inj equal).1.symm⟩

/-- Where keyword-only parameters come last, all names are the positional ones and then theirs. -/
private theorem names_eq_append {list : List Parameter}
    (ordered : list.Pairwise fun front back =>
      back.kind.isPositional = true → front.kind.isPositional = true)
    (declared : ∀ parameter ∈ list, ∃ kind, parameter.kind.declared = some kind) :
    Parameter.namesOf Parameter.Kind.isPositional list ++
      Parameter.namesOf (· == .keywordOnly) list = list.map (·.name.text) := by
  have other : ∀ parameter ∈ list, (parameter.kind == .keywordOnly) =
      !parameter.kind.isPositional := by
    intro parameter member
    obtain ⟨kind, same⟩ := declared parameter member
    exact (Parameter.isPositional_of_declared same).2
  clear declared
  induction list with
  | nil => rfl
  | cons parameter rest ih =>
    rw [List.pairwise_cons] at ordered
    rw [List.forall_mem_cons] at other
    cases positional : parameter.kind.isPositional with
    | true =>
      simp only [Parameter.namesOf, List.filter_cons, positional, other.1, Bool.not_true,
        if_true, Bool.false_eq_true, if_false, List.map_cons, List.cons_append]
      exact congrArg _ (ih ordered.2 other.2)
    | false =>
      have none : ∀ later ∈ rest, later.kind.isPositional = false := by
        intro later member
        rw [← Bool.not_eq_true]
        intro positionalLater
        rw [ordered.1 later member positionalLater] at positional
        cases positional
      have noNames : Parameter.namesOf Parameter.Kind.isPositional rest = [] := by
        rw [Parameter.namesOf, List.filter_eq_nil_iff.2 (by simpa using none), List.map_nil]
      have later := ih ordered.2 other.2
      rw [noNames, List.nil_append] at later
      simp only [Parameter.namesOf] at noNames later ⊢
      simp only [List.filter_cons, positional, other.1, Bool.not_false, if_true,
        Bool.false_eq_true, if_false, List.map_cons, noNames, later, List.nil_append]

private theorem readable_eq {parameters : Parameters} {declarations : List (Declaration V)}
    (same : shown parameters.list = declarations.map fun declaration =>
      (some declaration.kind, !declaration.default.isRequired))
    (ordered : declarations.Pairwise Declaration.Precedes) {before after : List Parameter}
    {parameter : Parameter} (split : parameters.list = before ++ parameter :: after) :
    parameters.readable before parameter.kind = before.map (·.name.text) := by
  have order := pairwise_of_shown same ordered
  have declared := declared_of_shown same
  rw [split, List.pairwise_append, List.pairwise_cons] at order
  have names := names_eq_append (order.1.imp fun holds => holds.1)
    fun parameter member => declared parameter (split ▸ List.mem_append_left _ member)
  obtain ⟨kind, isKind⟩ := declared parameter (by simp [split])
  unfold readable
  split
  · next positional =>
    have noKeyword : ∀ front ∈ before, ¬ (front.kind == .keywordOnly) = true := by
      intro front member
      obtain ⟨_, frontKind⟩ := declared front (split ▸ List.mem_append_left _ member)
      rw [(Parameter.isPositional_of_declared frontKind).2,
        (order.2.2 front member parameter (by simp)).1 positional]
      simp
    have noNames : Parameter.namesOf (· == .keywordOnly) before = [] := by
      rw [Parameter.namesOf, List.filter_eq_nil_iff.2 noKeyword, List.map_nil]
    rw [noNames, List.append_nil] at names
    exact names
  · next keyword =>
    rw [Bool.not_eq_true] at keyword
    have noPositional : ∀ later ∈ parameter :: after, ¬ later.kind.isPositional = true := by
      intro later member positional
      rcases List.mem_cons.1 member with rfl | member
      · rw [keyword] at positional
        cases positional
      · rw [(order.2.1.1 later member).1 positional] at keyword
        cases keyword
    have noNames : Parameter.namesOf Parameter.Kind.isPositional (parameter :: after) = [] := by
      rw [Parameter.namesOf, List.filter_eq_nil_iff.2 noPositional, List.map_nil]
    rw [Scope.namesOf_split _ split, noNames, List.append_nil]
    exact names

end Parameters

namespace LateBinding.Deferrals

variable {marker : String} {scope : Scope} {passed : Scope.Passed} {old new : List Parameter}
  {resolutions : List Resolution}

private theorem shown_eq (deferrals : Deferrals marker scope passed old new resolutions) :
    Parameters.shown new = Parameters.shown old := by
  induction deferrals with
  | nil => rfl
  | kept _ _ ih =>
    rw [Parameters.shown, List.map_cons, ← Parameters.shown, ih]
    rfl
  | deferred _ _ late _ ih =>
    rw [Parameters.shown, List.map_cons, ← Parameters.shown, ih]
    rw [Parameters.shown, Parameters.shown, List.map_cons, default_isSome_of_isLate late]
    rfl

private theorem readsInFront (deferrals : Deferrals marker scope passed old new resolutions)
    {before : List String}
    (plain : ∀ parameter ∈ old, parameter.deferred? = none)
    (visible : ∀ front parameter back, old = front ++ parameter :: back →
      parameter.isLate marker = true →
      scope.visible (passed.past front) parameter.kind = before ++ front.map (·.name.text)) :
    Parameter.ReadsInFront before new := by
  induction deferrals generalizing before with
  | nil => trivial
  | @kept passed parameter old new resolutions _ _ ih =>
    rw [List.forall_mem_cons] at plain
    refine ⟨fun late found => ?_, ih plain.2 fun front later back split isLate => ?_⟩
    · rw [plain.1] at found
      cases found
    · have reads := visible (parameter :: front) later back (congrArg _ split) isLate
      simpa [Scope.Passed.past] using reads
  | @deferred passed parameter old new resolutions eq call isLate _ ih =>
    rw [List.forall_mem_cons] at plain
    refine ⟨fun late found => ?_, ih plain.2 fun front later back split isLate => ?_⟩
    · cases found
      simpa [Scope.Passed.past] using visible [] parameter old rfl isLate
    · have reads := visible (parameter :: front) later back (congrArg _ split) isLate
      simpa [Scope.Passed.past] using reads

private theorem resolutions_eq_filterMap
    (deferrals : Deferrals marker scope passed old new resolutions)
    (plain : ∀ parameter ∈ old, parameter.deferred? = none) :
    resolutions = new.filterMap Parameter.resolution? := by
  induction deferrals with
  | nil => rfl
  | @kept passed parameter old new resolutions _ _ ih =>
    rw [List.forall_mem_cons] at plain
    have none : parameter.resolution? = none := by
      rw [Parameter.resolution?, plain.1]
      rfl
    rw [List.filterMap_cons, none]
    exact ih plain.2
  | deferred eq call _ _ ih =>
    rw [List.forall_mem_cons] at plain
    rw [ih plain.2]
    rfl

end LateBinding.Deferrals

namespace Call.Signature

variable {list : List Parameter} {declarations : List (Declaration V)}

private theorem forall₂_paramsFrom {before : List String}
    (declares : List.Forall₂ Parameter.Declares list declarations)
    (reads : Parameter.ReadsInFront before list) :
    List.Forall₂ (fun (parameter : Parameter) (param : Param V) =>
      param.name = parameter.name.text ∧
        (match param.fill with
          | .late computation => some computation.dependencies
          | _ => none) = parameter.deferred?.map Deferred.dependencies)
      list (paramsFrom before declarations) := by
  induction declares generalizing before with
  | nil => exact .nil
  | @cons parameter declaration _ _ declares _ ih =>
    have rest := ih reads.2
    rw [← declares.name] at rest
    refine .cons ⟨declares.name, ?_⟩ rest
    cases default : declaration.default with
    | required | eager value =>
      rw [declares.deferred?_eq_none (by rw [default]; nofun)]
      rfl
    | late body =>
      obtain ⟨deferred, found⟩ := declares.exists_deferred default
      rw [found, Option.map_some, reads.1 deferred found]
      rfl

private theorem dependencies?_eq {name : String}
    (declares : List.Forall₂ Parameter.Declares list declarations)
    (reads : Parameter.ReadsInFront [] list) (distinct : (declarations.map Declaration.name).Nodup)
    {parameter : Parameter} (member : parameter ∈ list) :
    dependencies? ⟨name, paramsFrom [] declarations⟩ parameter.name.text =
      parameter.deferred?.map Deferred.dependencies := by
  have related := forall₂_paramsFrom declares reads
  rw [← map_name_paramsFrom []] at distinct
  obtain ⟨index, within, rfl⟩ := List.getElem_of_mem member
  have bound : index < (paramsFrom [] declarations).length := related.length_eq ▸ within
  obtain ⟨sameName, sameFill⟩ := (List.forall₂_iff_get.1 related).2 index within bound
  simp only [List.get_eq_getElem] at sameName sameFill
  have found : (paramsFrom [] declarations).find? (fun param => param.name == list[index].name.text)
      = some (paramsFrom [] declarations)[index] := by
    rw [List.find?_eq_some_iff_getElem]
    refine ⟨by simp [sameName], index, bound, rfl, fun earlier before => ?_⟩
    rw [← sameName, Bool.not_eq_true', beq_eq_false_iff_ne]
    have apart := List.pairwise_iff_getElem.1 distinct earlier index
      (by simpa using Nat.lt_trans before bound) (by simpa using bound) before
    simpa using apart
  rw [dependencies?, found, ← sameFill]
  cases (paramsFrom [] declarations)[index] with
  | mk _ _ fill => cases fill <;> rfl

section CarryOut

variable {parameter : Parameter} {rest : List Parameter} {bindings : Bindings V}
  {front others : List (String × Slot V)}

private theorem carryOut_value {value : V}
    (shape : bindings.slots = front ++ (parameter.name.text, .value value) :: others) :
    bindings.carryOut ((parameter :: rest).filterMap Parameter.resolution?) =
      bindings.carryOut (rest.filterMap Parameter.resolution?) := by
  rw [List.filterMap_cons]
  cases resolution : parameter.resolution? with
  | none => rfl
  | some found =>
    have isName : found.name = parameter.name.text := by
      rw [Parameter.resolution?] at resolution
      obtain ⟨late, _, rfl⟩ := Option.map_eq_some_iff.1 resolution
      rfl
    simp only [Bindings.carryOut, isName, Bindings.get?_of_slots shape]

end CarryOut

/-- Carrying out the resolutions of the parameters behind `before` resolves their slots. -/
private theorem carryOut_eq_resolve {given : Nat → String → Option V} {names : List String}
    {slots : List (String × Slot V)} (waiting : Waiting given names declarations slots)
    (declares : List.Forall₂ Parameter.Declares list declarations)
    (reads : Parameter.ReadsInFront names list) (before : List (String × V))
    (inFront : before.map Prod.fst = names) {bindings : Bindings V}
    (shape : bindings.slots = Bindings.held before ++ slots) :
    bindings.carryOut (list.filterMap Parameter.resolution?) = bindings.resolve slots := by
  -- Slots and parameters go on together; `before` takes up the values that have come out.
  induction waiting generalizing list before bindings with
  | nil =>
    cases declares
    rfl
  | @supplied names declaration rest value slots _ _ ih
  | @eager names declaration rest value slots _ _ _ ih =>
    cases declares with
    | cons first others =>
      have goesOn := ih others (first.name ▸ reads.2) (before ++ [(declaration.name, value)])
        (by simp [inFront]) (by rw [shape, Bindings.held_append_value])
      rw [first.name] at shape
      rw [carryOut_value shape, goesOn, Bindings.resolve]
  | @late names declaration rest body slots _ isLate _ ih =>
    cases declares with
    | @cons parameter _ _ _ first others =>
      obtain ⟨deferred, found⟩ := first.exists_deferred isLate
      have dependencies : deferred.dependencies = before.map Prod.fst := by
        rw [reads.1 deferred found, inFront]
      have resolution : parameter.resolution? =
          some ⟨declaration.name, before.map Prod.fst⟩ := by
        rw [Parameter.resolution?, found, Option.map_some, dependencies, first.name]
      have leading : Bindings.leadingValues bindings.slots = before.map Prod.snd := by
        rw [shape, Bindings.leadingValues_held_append_deferred]
      have counted : (Wrapper.dependencies ⟨declaration.name, ⟨names, body⟩⟩).length =
          (before.map Prod.snd).length := by
        rw [Wrapper.dependencies, ← inFront, List.length_map, List.length_map]
      rw [List.filterMap_cons, resolution]
      simp only [Bindings.carryOut, Bindings.get?_of_slots shape,
        Bindings.mapM_value_of_slots shape]
      cases outcome : body (before.map Prod.snd) with
      | error fault => rw [Bindings.resolve_deferred_error leading counted outcome]
      | ok value =>
        have goesOn := ih others (first.name ▸ reads.2) (before ++ [(declaration.name, value)])
          (by simp [inFront]) (Bindings.slots_insert shape value)
        rw [Bindings.resolve_deferred_ok leading counted outcome, ← goesOn]

/-- A header that is read and bound gives late defaults and a prologue that agree with a signature of
the same parameters: the same names are read, and carrying out the prologue over the bindings of any
call runs the bodies that evaluation runs, on the same arguments, fails as it fails, and otherwise
ends with the same bindings. -/
theorem prologue_agrees {marker : String} {first : Token} {more behind : List Token}
    {source bound : Header} {resolutions : List Resolution}
    (read : Header.read first more = .ok (source, behind))
    (deferred : LateBinding.header marker source = .ok (bound, resolutions))
    (declares : List.Forall₂ Parameter.Declares bound.parameters.list declarations)
    {function : String} {signature : Signature V}
    (built : build function declarations = .ok signature) :
    (∀ parameter ∈ bound.parameters.list, signature.dependencies? parameter.name.text =
      parameter.deferred?.map Deferred.dependencies) ∧
    ∀ arguments keywords bindings, signature.bind arguments keywords = .ok bindings →
      bindings.carryOut resolutions = bindings.evaluate := by
  obtain ⟨⟨items, own⟩, boundItems, finished⟩ := bind_eq_ok.1 deferred
  cases finished
  have deferrals := LateBinding.deferrals_of_items boundItems
  have plain : ∀ parameter ∈ source.parameters.list, parameter.deferred? = none :=
    Parameters.deferred?_eq_none (Header.plain_read read).2.2
  have shown := deferrals.shown_eq.symm.trans (Parameters.shown_of_declares declares)
  have ordered := precedes_of_build built
  have trail : source.parameters.DefaultsTrail :=
    (Parameters.pairwise_of_shown shown ordered).imp fun holds => holds.2
  have reads : Parameter.ReadsInFront [] (items.filterMap ParameterItem.parameter?) := by
    refine deferrals.readsInFront plain fun front parameter back split late => ?_
    rw [LateBinding.visible_eq_readable trail split late, List.nil_append]
    exact Parameters.readable_eq shown ordered split
  obtain ⟨rfl, distinct⟩ := params_of_build built
  constructor
  · intro parameter member
    exact dependencies?_eq declares reads distinct member
  · intro arguments keywords bindings boundCall
    rw [deferrals.resolutions_eq_filterMap plain, Bindings.evaluate]
    exact carryOut_eq_resolve (waiting_of_bind built boundCall) declares reads [] rfl rfl

section Sums

def nameToken (text : String) : Token := ⟨.name, text, .origin, .origin⟩

def opToken (text : String) : Token := ⟨.op, text, .origin, .origin⟩

def sumsCall (text : String) : MarkerCall :=
  ⟨nameToken "m", [], opToken "(", [⟨[nameToken text], none⟩], [], opToken ")"⟩

/-- The header `def f(a, /, b = ..., *, c = ...):`. -/
def sumsHeader (b c : DefaultValue) : Header :=
  ⟨"f", false, [nameToken "def", nameToken "f", opToken "("],
    ⟨[], [.parameter ⟨.positionalOnly, [], nameToken "a", [], none, [opToken ","]⟩,
      .separator ⟨.positionalOnly, opToken "/", [opToken ","]⟩,
      .parameter ⟨.positionalOrKeyword, [], nameToken "b", [], some ⟨opToken "=", b⟩,
        [opToken ","]⟩,
      .separator ⟨.keywordOnly, opToken "*", [opToken ","]⟩,
      .parameter ⟨.keywordOnly, [], nameToken "c", [], some ⟨opToken "=", c⟩, []⟩]⟩,
    [opToken ")", opToken ":"]⟩

def sumsSource : Header :=
  sumsHeader (.expression (sumsCall "a").tokens) (.expression (sumsCall "b").tokens)

def sumsBound : Header :=
  sumsHeader (.deferred ⟨["a"], sumsCall "a"⟩) (.deferred ⟨["a", "b"], sumsCall "b"⟩)

/-- With only `a` given, the prologue computes `b` and `c` as evaluation does. -/
theorem prologue_agrees_sums :
    Header.read (nameToken "def") (sumsSource.tokens.drop 1) = .ok (sumsSource, []) ∧
    LateBinding.header "m" sumsSource = .ok (sumsBound, [⟨"b", ["a"]⟩, ⟨"c", ["a", "b"]⟩]) ∧
    build "f" sums = .ok ⟨"f", paramsFrom [] sums⟩ ∧
    ∃ bindings, bind ⟨"f", paramsFrom [] sums⟩ [4] [] = .ok bindings ∧
      bindings.carryOut [⟨"b", ["a"]⟩, ⟨"c", ["a", "b"]⟩] = bindings.evaluate ∧
      bindings.evaluate.ran = [⟨"b", [4]⟩, ⟨"c", [4, 5]⟩] := by
  have read : Header.read (nameToken "def") (sumsSource.tokens.drop 1) = .ok (sumsSource, []) := rfl
  have deferred : LateBinding.header "m" sumsSource =
      .ok (sumsBound, [⟨"b", ["a"]⟩, ⟨"c", ["a", "b"]⟩]) := rfl
  have declares : List.Forall₂ Parameter.Declares sumsBound.parameters.list sums :=
    .cons ⟨rfl, rfl, trivial⟩ (.cons ⟨rfl, rfl, trivial⟩ (.cons ⟨rfl, rfl, trivial⟩ .nil))
  have built : build "f" sums = .ok ⟨"f", paramsFrom [] sums⟩ := rfl
  exact ⟨read, deferred, built, _, rfl,
    (prologue_agrees read deferred declares built).2 [4] [] _ rfl, rfl⟩

end Sums

end Call.Signature

end DeferredDefaults
