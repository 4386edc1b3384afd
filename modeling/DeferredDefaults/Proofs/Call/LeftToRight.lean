import Mathlib.Algebra.GroupWithZero.Nat
import DeferredDefaults.Call.Signature
import DeferredDefaults.Proofs.Success

/-!
A call gives its parameters their values from left to right. Resolving slots is first described for
any bindings: each late default is called on all values before its slot. For a signature that was
built, the number of those values is the number of names that the late default reads, so a call is
evaluation of the declarations in order.
-/

set_option autoImplicit false
set_option relaxedAutoImplicit false

namespace DeferredDefaults.Call

universe u

variable {V : Type u}

/-- The argument of the parameter `name` at `index`: the one given by position, else the one given
by keyword. -/
def supplied (arguments : List V) (keywords : List (String × V)) (index : Nat) (name : String) :
    Option V :=
  arguments[index]?.or (keywords.lookup name)

/-- Evaluation of declarations from left to right, `before` being the parameters in front with
their values: the bodies that are run, and all values or the first fault of a body. -/
inductive Evaluates (given : Nat → String → Option V) :
    (before : List (String × V)) → List (Declaration V) → List (Run V) →
      Except Fault (List (String × V)) → Prop
  | done {before : List (String × V)} : Evaluates given before [] [] (.ok before)
  | supplied {before : List (String × V)} {declaration : Declaration V}
      {rest : List (Declaration V)} {value : V} {ran : List (Run V)}
      {result : Except Fault (List (String × V))} :
      given before.length declaration.name = some value →
      Evaluates given (before ++ [(declaration.name, value)]) rest ran result →
      Evaluates given before (declaration :: rest) ran result
  | eager {before : List (String × V)} {declaration : Declaration V}
      {rest : List (Declaration V)} {value : V} {ran : List (Run V)}
      {result : Except Fault (List (String × V))} :
      given before.length declaration.name = none → declaration.default = .eager value →
      Evaluates given (before ++ [(declaration.name, value)]) rest ran result →
      Evaluates given before (declaration :: rest) ran result
  | late {before : List (String × V)} {declaration : Declaration V}
      {rest : List (Declaration V)} {body : List V → Except Fault V} {value : V}
      {ran : List (Run V)} {result : Except Fault (List (String × V))} :
      given before.length declaration.name = none → declaration.default = .late body →
      body (before.map Prod.snd) = .ok value →
      Evaluates given (before ++ [(declaration.name, value)]) rest ran result →
      Evaluates given before (declaration :: rest)
        (⟨declaration.name, before.map Prod.snd⟩ :: ran) result
  | fails {before : List (String × V)} {declaration : Declaration V}
      {rest : List (Declaration V)} {body : List V → Except Fault V} {fault : Fault} :
      given before.length declaration.name = none → declaration.default = .late body →
      body (before.map Prod.snd) = .error fault →
      Evaluates given before (declaration :: rest)
        [⟨declaration.name, before.map Prod.snd⟩] (.error fault)

/-- Resolving slots from left to right, `before` being those in front with their values. A late
default that does not read as many names as there are values in front is not run. -/
inductive Resolves :
    (before : List (String × V)) → List (String × Slot V) → List (Run V) →
      Except Fault (List (String × V)) → Prop
  | done {before : List (String × V)} : Resolves before [] [] (.ok before)
  | value {before : List (String × V)} {name : String} {value : V}
      {rest : List (String × Slot V)} {ran : List (Run V)}
      {result : Except Fault (List (String × V))} :
      Resolves (before ++ [(name, value)]) rest ran result →
      Resolves before ((name, .value value) :: rest) ran result
  | run {before : List (String × V)} {name : String} {wrapper : Wrapper V} {value : V}
      {rest : List (String × Slot V)} {ran : List (Run V)}
      {result : Except Fault (List (String × V))} :
      wrapper.dependencies.length = before.length →
      wrapper.computation.body (before.map Prod.snd) = .ok value →
      Resolves (before ++ [(name, value)]) rest ran result →
      Resolves before ((name, .deferred wrapper) :: rest)
        (⟨name, before.map Prod.snd⟩ :: ran) result
  | fails {before : List (String × V)} {name : String} {wrapper : Wrapper V} {fault : Fault}
      {rest : List (String × Slot V)} :
      wrapper.dependencies.length = before.length →
      wrapper.computation.body (before.map Prod.snd) = .error fault →
      Resolves before ((name, .deferred wrapper) :: rest) [⟨name, before.map Prod.snd⟩]
        (.error fault)
  | arity {before : List (String × V)} {name : String} {wrapper : Wrapper V}
      {rest : List (String × Slot V)} :
      wrapper.dependencies.length ≠ before.length →
      Resolves before ((name, .deferred wrapper) :: rest) []
        (.error (.arity wrapper.name wrapper.dependencies.length before.length))

namespace Bindings

def held (entries : List (String × V)) : List (String × Slot V) :=
  entries.map fun entry => (entry.1, .value entry.2)

theorem held_append_value (entries : List (String × V)) (name : String) (value : V)
    (rest : List (String × Slot V)) :
    held (entries ++ [(name, value)]) ++ rest = held entries ++ (name, .value value) :: rest := by
  simp [held]

theorem leadingValues_held_append_deferred (entries : List (String × V)) (name : String)
    (wrapper : Wrapper V) (rest : List (String × Slot V)) :
    leadingValues (held entries ++ (name, .deferred wrapper) :: rest) =
      entries.map Prod.snd := by
  induction entries with
  | nil => rfl
  | cons entry entries ih =>
    simp only [held, List.map_cons, List.cons_append, leadingValues] at ih ⊢
    rw [ih]

private theorem putSlot_append_cons (front : List (String × Slot V)) (name : String)
    (old new : Slot V) (back : List (String × Slot V)) (absent : name ∉ front.map Prod.fst) :
    putSlot name new (front ++ (name, old) :: back) = front ++ (name, new) :: back := by
  induction front with
  | nil => simp [putSlot]
  | cons entry front ih =>
    simp only [List.map_cons, List.mem_cons, not_or] at absent
    have other : ¬ entry.1 = name := fun equal => absent.1 equal.symm
    simp [putSlot, other, ih absent.2]

private theorem putSlot_of_not_mem (slots : List (String × Slot V)) (name : String) (slot : Slot V)
    (absent : name ∉ slots.map Prod.fst) : putSlot name slot slots = slots ++ [(name, slot)] := by
  induction slots with
  | nil => rfl
  | cons entry slots ih =>
    simp only [List.map_cons, List.mem_cons, not_or] at absent
    have other : ¬ entry.1 = name := fun equal => absent.1 equal.symm
    simp [putSlot, other, ih absent.2]

theorem slots_insert {bindings : Bindings V} {before : List (String × V)} {name : String}
    {slot : Slot V} {rest : List (String × Slot V)}
    (shape : bindings.slots = held before ++ (name, slot) :: rest) (value : V) :
    (bindings.insert name (.value value)).slots = held (before ++ [(name, value)]) ++ rest := by
  have distinct := bindings.distinct
  rw [shape, List.map_append, List.map_cons, List.nodup_append] at distinct
  have absent : name ∉ (held before).map Prod.fst := fun member =>
    distinct.2.2 name member name (by simp) rfl
  change putSlot name (.value value) bindings.slots = _
  rw [held_append_value, shape, putSlot_append_cons _ _ _ _ _ absent]

section
variable {resolved : Bindings V} {name : String} {wrapper : Wrapper V}
  {rest : List (String × Slot V)} {arguments : List V}

theorem resolve_deferred_ok {value : V} (leading : leadingValues resolved.slots = arguments)
    (accepted : wrapper.dependencies.length = arguments.length)
    (outcome : wrapper.computation.body arguments = .ok value) :
    resolve resolved ((name, .deferred wrapper) :: rest) =
      ⟨⟨name, arguments⟩ :: (resolve (resolved.insert name (.value value)) rest).ran,
        (resolve (resolved.insert name (.value value)) rest).result⟩ := by
  simp [resolve, leading, Wrapper.call, Wrapper.accepts, accepted, outcome]

theorem resolve_deferred_error {fault : Fault} (leading : leadingValues resolved.slots = arguments)
    (accepted : wrapper.dependencies.length = arguments.length)
    (outcome : wrapper.computation.body arguments = .error fault) :
    resolve resolved ((name, .deferred wrapper) :: rest) =
      ⟨[⟨name, arguments⟩], .error fault⟩ := by
  simp [resolve, leading, Wrapper.call, Wrapper.accepts, accepted, outcome]

private theorem resolve_deferred_arity (leading : leadingValues resolved.slots = arguments)
    (mismatch : wrapper.dependencies.length ≠ arguments.length) :
    resolve resolved ((name, .deferred wrapper) :: rest) =
      ⟨[], .error (.arity wrapper.name wrapper.dependencies.length arguments.length)⟩ := by
  simp [resolve, leading, Wrapper.call, Wrapper.accepts, mismatch.symm]

end

theorem resolve_resolves (resolved : Bindings V) (before : List (String × V))
    (rest : List (String × Slot V)) (shape : resolved.slots = held before ++ rest) :
    ∃ result, Resolves before rest (resolve resolved rest).ran result ∧
      (resolve resolved rest).result.map Bindings.slots = result.map held := by
  induction rest generalizing resolved before with
  | nil =>
    refine ⟨.ok before, .done, ?_⟩
    simp [resolve, Except.map, shape]
  | cons entry rest ih =>
    obtain ⟨name, slot⟩ := entry
    cases slot with
    | value value =>
      rw [← held_append_value] at shape
      obtain ⟨result, resolves, same⟩ := ih resolved _ shape
      exact ⟨result, .value resolves, same⟩
    | deferred wrapper =>
      have leading : leadingValues resolved.slots = before.map Prod.snd := by
        rw [shape, leadingValues_held_append_deferred]
      by_cases accepted : wrapper.dependencies.length = before.length
      · have counted : wrapper.dependencies.length = (before.map Prod.snd).length := by
          simpa using accepted
        cases outcome : wrapper.computation.body (before.map Prod.snd) with
        | error fault =>
          rw [resolve_deferred_error leading counted outcome]
          exact ⟨.error fault, .fails accepted outcome, rfl⟩
        | ok value =>
          obtain ⟨result, resolves, same⟩ := ih _ _ (slots_insert shape value)
          rw [resolve_deferred_ok leading counted outcome]
          exact ⟨result, .run accepted outcome resolves, same⟩
      · have miscounted : wrapper.dependencies.length ≠ (before.map Prod.snd).length := by
          simpa using accepted
        rw [resolve_deferred_arity leading miscounted, List.length_map]
        exact ⟨.error _, .arity accepted, rfl⟩

end Bindings

namespace Signature

/-- The slots of a call before its late defaults are resolved, `before` being the names in front:
a late default whose argument is left out waits, and reads the names in front. -/
inductive Waiting (given : Nat → String → Option V) :
    (before : List String) → List (Declaration V) → List (String × Slot V) → Prop
  | nil {before : List String} : Waiting given before [] []
  | supplied {before : List String} {declaration : Declaration V} {rest : List (Declaration V)}
      {value : V} {slots : List (String × Slot V)} :
      given before.length declaration.name = some value →
      Waiting given (before ++ [declaration.name]) rest slots →
      Waiting given before (declaration :: rest) ((declaration.name, .value value) :: slots)
  | eager {before : List String} {declaration : Declaration V} {rest : List (Declaration V)}
      {value : V} {slots : List (String × Slot V)} :
      given before.length declaration.name = none → declaration.default = .eager value →
      Waiting given (before ++ [declaration.name]) rest slots →
      Waiting given before (declaration :: rest) ((declaration.name, .value value) :: slots)
  | late {before : List String} {declaration : Declaration V} {rest : List (Declaration V)}
      {body : List V → Except Fault V} {slots : List (String × Slot V)} :
      given before.length declaration.name = none → declaration.default = .late body →
      Waiting given (before ++ [declaration.name]) rest slots →
      Waiting given before (declaration :: rest)
        ((declaration.name, .deferred ⟨declaration.name, ⟨before, body⟩⟩) :: slots)

/-- Resolving the slots of a call evaluates the declarations. The arity of a late default is never
wrong, since it reads as many names as there are values in front. -/
private theorem Waiting.evaluates {given : Nat → String → Option V} {names : List String}
    {declarations : List (Declaration V)} {slots : List (String × Slot V)}
    (waiting : Waiting given names declarations slots) {before : List (String × V)}
    {ran : List (Run V)} {result : Except Fault (List (String × V))}
    (level : before.length = names.length) (resolves : Resolves before slots ran result) :
    Evaluates given before declarations ran result := by
  induction waiting generalizing before ran with
  | nil =>
    cases resolves
    exact .done
  | supplied found _ ih =>
    cases resolves with
    | value later => exact .supplied (level ▸ found) (ih (by simp [level]) later)
  | eager missing isEager _ ih =>
    cases resolves with
    | value later => exact .eager (level ▸ missing) isEager (ih (by simp [level]) later)
  | late missing isLate _ ih =>
    cases resolves with
    | run _ outcome later =>
      exact .late (level ▸ missing) isLate outcome (ih (by simp [level]) later)
    | fails _ outcome => exact .fails (level ▸ missing) isLate outcome
    | arity mismatch => exact absurd level.symm mismatch

private theorem Waiting.dependencies_length {given : Nat → String → Option V} {names : List String}
    {declarations : List (Declaration V)} {slots : List (String × Slot V)}
    (waiting : Waiting given names declarations slots) {front : List (String × Slot V)}
    {name : String} {wrapper : Wrapper V} {back : List (String × Slot V)}
    (split : slots = front ++ (name, .deferred wrapper) :: back) :
    wrapper.dependencies.length = names.length + front.length := by
  induction waiting generalizing front with
  | nil => simp at split
  | supplied _ _ ih | eager _ _ _ ih =>
    cases front with
    | nil => simp at split
    | cons entry front =>
      have later := ih (List.cons.inj split).2
      simp only [List.length_append, List.length_cons, List.length_nil] at later ⊢
      omega
  | late _ _ _ ih =>
    cases front with
    | nil =>
      obtain ⟨rfl, rfl⟩ : _ ∧ _ := by simpa using (List.cons.inj split).1
      simp [Wrapper.dependencies]
    | cons entry front =>
      have later := ih (List.cons.inj split).2
      simp only [List.length_append, List.length_cons, List.length_nil] at later ⊢
      omega

private theorem names_of_checked {declarations : List (Declaration V)} {checked final : Checked}
    (accepted : declarations.foldlM Checked.step checked = .ok final)
    (distinct : checked.names.Nodup) :
    (checked.names ++ declarations.map Declaration.name).Nodup := by
  induction declarations generalizing checked with
  | nil => simpa using distinct
  | cons declaration rest ih =>
    rw [List.foldlM_cons, bind_eq_ok] at accepted
    obtain ⟨next, stepped, accepted⟩ := accepted
    have fresh : declaration.name ∉ checked.names := by
      intro member
      simp [Checked.step, member] at stepped
    have names : next.names = checked.names ++ [declaration.name] := by
      simp only [Checked.step, if_neg fresh] at stepped
      split at stepped
      · cases stepped
      · split at stepped
        · cases stepped
        · cases stepped
          rfl
    have extended : next.names.Nodup := by
      rw [names, List.nodup_append]
      refine ⟨distinct, by simp, ?_⟩
      intro first member second last equal
      rw [List.mem_singleton] at last
      exact fresh (last ▸ equal ▸ member)
    simpa [names] using ih accepted extended

theorem params_of_build {name : String} {declarations : List (Declaration V)}
    {signature : Signature V} (built : build name declarations = .ok signature) :
    signature = ⟨name, paramsFrom [] declarations⟩ ∧
      (declarations.map Declaration.name).Nodup := by
  unfold build at built
  split at built
  · cases built
  · next accepted =>
    refine ⟨(Except.ok.inj built).symm, ?_⟩
    simpa using names_of_checked accepted List.nodup_nil

theorem map_name_paramsFrom (before : List String) (declarations : List (Declaration V)) :
    (paramsFrom before declarations).map Param.name = declarations.map Declaration.name := by
  induction declarations generalizing before with
  | nil => rfl
  | cons declaration rest ih => simp [paramsFrom, ih]

/-- The parameters from `index` on, with the arguments that `given` has for them. -/
def placed (given : Nat → String → Option V) : (index : Nat) → List (Param V) →
    List (Param V × Option V)
  | _, [] => []
  | index, param :: params => (param, given index param.name) :: placed given (index + 1) params

private theorem placed_congr {given other : Nat → String → Option V} {params : List (Param V)}
    (agree : ∀ index, ∀ name ∈ params.map Param.name, given index name = other index name)
    (index : Nat) : placed given index params = placed other index params := by
  induction params generalizing index with
  | nil => rfl
  | cons param params ih =>
    rw [placed, placed, agree index param.name (by simp)]
    rw [ih (fun index name member => agree index name (List.mem_cons_of_mem _ member))]

theorem place_eq_placed (params : List (Param V)) (arguments : List V) (index : Nat) :
    place params (arguments.drop index) = placed (supplied arguments []) index params := by
  induction params generalizing index with
  | nil => rfl
  | cons param params ih =>
    by_cases inside : index < arguments.length
    · rw [List.drop_eq_getElem_cons inside, place, placed, ih]
      simp [supplied, inside]
    · have none : arguments.drop index = [] := List.drop_eq_nil_of_le (by omega)
      have later : arguments.drop (index + 1) = [] := List.drop_eq_nil_of_le (by omega)
      rw [none, place, placed, ← ih, later]
      simp [supplied, Nat.not_lt.1 inside]

private theorem mem_of_supply {function keyword : String} {value : V}
    {entries result : List (Param V × Option V)}
    (accepted : supply function keyword value entries = .ok result) :
    keyword ∈ entries.map fun entry => entry.1.name := by
  induction entries generalizing result with
  | nil => simp [supply] at accepted
  | cons entry entries ih =>
    obtain ⟨param, supplied⟩ := entry
    unfold supply at accepted
    split at accepted
    · next named => simp [named.1]
    · obtain ⟨others, found, _⟩ := bind_eq_ok.1 accepted
      exact List.mem_cons_of_mem _ (ih found)

private theorem map_name_placed (given : Nat → String → Option V) (index : Nat)
    (params : List (Param V)) :
    ((placed given index params).map fun entry => entry.1.name) = params.map Param.name := by
  induction params generalizing index with
  | nil => rfl
  | cons param params ih => simp [placed, ih]

def withKeyword (given : Nat → String → Option V) (keyword : String) (value : V) (index : Nat)
    (name : String) : Option V :=
  (given index name).or (if name = keyword then some value else none)

private theorem placed_withKeyword_of_not_mem (given : Nat → String → Option V) {keyword : String}
    (value : V) {params : List (Param V)} (absent : keyword ∉ params.map Param.name)
    (index : Nat) :
    placed (withKeyword given keyword value) index params = placed given index params := by
  apply placed_congr
  intro index name member
  have unequal : name ≠ keyword := by
    rintro rfl
    exact absent member
  simp [withKeyword, unequal]

/-- A keyword that is accepted gives its argument to the parameter of its name, which has none. -/
theorem supply_placed {given : Nat → String → Option V} {function keyword : String} {value : V}
    {params : List (Param V)} {index : Nat} {result : List (Param V × Option V)}
    (distinct : (params.map Param.name).Nodup)
    (accepted : supply function keyword value (placed given index params) = .ok result) :
    result = placed (withKeyword given keyword value) index params := by
  induction params generalizing index result with
  | nil => simp [placed, supply] at accepted
  | cons param params ih =>
    rw [List.map_cons, List.nodup_cons] at distinct
    unfold placed supply at accepted
    split at accepted
    · next named =>
      have absent : keyword ∉ params.map Param.name := named.1 ▸ distinct.1
      split at accepted
      · cases accepted
      · next missing =>
        cases accepted
        rw [placed, placed_withKeyword_of_not_mem given value absent, withKeyword, missing]
        simp [named.1]
    · obtain ⟨others, found, rest⟩ := bind_eq_ok.1 accepted
      cases rest
      have later := mem_of_supply found
      rw [map_name_placed] at later
      have unequal : param.name ≠ keyword := fun equal => distinct.1 (equal ▸ later)
      rw [placed, ← ih distinct.2 found]
      simp [withKeyword, unequal]

private theorem foldlM_supply_placed {given : Nat → String → Option V} {function : String}
    {keywords : List (String × V)} {params : List (Param V)} {index : Nat}
    {result : List (Param V × Option V)} (distinct : (params.map Param.name).Nodup)
    (accepted : keywords.foldlM
      (fun supplied keyword => supply function keyword.1 keyword.2 supplied)
      (placed given index params) = .ok result) :
    result = placed (fun index name => (given index name).or (keywords.lookup name)) index
      params := by
  induction keywords generalizing given with
  | nil =>
    cases accepted
    simp
  | cons entry keywords ih =>
    obtain ⟨keyword, value⟩ := entry
    rw [List.foldlM_cons, bind_eq_ok] at accepted
    obtain ⟨next, stepped, accepted⟩ := accepted
    rw [supply_placed distinct stepped] at accepted
    rw [ih accepted]
    congr 1
    funext index name
    by_cases named : name = keyword
    · simp [withKeyword, named]
    · simp [withKeyword, List.lookup_cons, named, beq_eq_false_iff_ne.2 named]

private theorem slot_cases (given : Nat → String → Option V) (function : String)
    (before : List String) (declaration : Declaration V) :
    (∃ slot, Signature.slot function
        ⟨declaration.name, declaration.kind, declaration.default.fill before⟩
        (given before.length declaration.name) = .ok slot ∧
      ∀ rest slots, Waiting given (before ++ [declaration.name]) rest slots →
        Waiting given before (declaration :: rest) ((declaration.name, slot) :: slots)) ∨
      Signature.slot function
          ⟨declaration.name, declaration.kind, declaration.default.fill before⟩
          (given before.length declaration.name) =
        .error (.missingArgument function declaration.name) ∧
      declaration.default = .required ∧ given before.length declaration.name = none := by
  cases found : given before.length declaration.name with
  | some value => exact .inl ⟨.value value, rfl, fun _ _ => .supplied found⟩
  | none =>
    cases isDefault : declaration.default with
    | required => exact .inr ⟨rfl, rfl, rfl⟩
    | eager value => exact .inl ⟨.value value, rfl, fun _ _ => .eager found isDefault⟩
    | late body =>
      exact .inl ⟨.deferred ⟨declaration.name, ⟨before, body⟩⟩, rfl, fun _ _ => .late found isDefault⟩

/-- The slots of parameters with their arguments, or the first required parameter without one. -/
theorem slots_cases (given : Nat → String → Option V) (function : String) {before : List String}
    {declarations : List (Declaration V)} {bindings : Bindings V}
    (names : bindings.slots.map Prod.fst = before)
    (distinct : (before ++ declarations.map Declaration.name).Nodup) :
    (∃ added result, Waiting given before declarations added ∧
      slots function bindings (placed given before.length (paramsFrom before declarations)) =
        .ok result ∧ result.slots = bindings.slots ++ added) ∨
      ∃ front declaration back added, declarations = front ++ declaration :: back ∧
        Waiting given before front added ∧ declaration.default = .required ∧
        given (before.length + front.length) declaration.name = none ∧
        slots function bindings (placed given before.length (paramsFrom before declarations)) =
          .error (.missingArgument function declaration.name) := by
  induction declarations generalizing before bindings with
  | nil => exact .inl ⟨[], bindings, .nil, rfl, by simp⟩
  | cons declaration rest ih =>
    rw [paramsFrom, placed, slots]
    rcases slot_cases given function before declaration with ⟨slot, own, waits⟩ |
      ⟨own, required, missing⟩
    · have absent : declaration.name ∉ bindings.slots.map Prod.fst := by
        rw [names]
        intro member
        rw [List.nodup_append] at distinct
        exact distinct.2.2 _ member declaration.name (by simp) rfl
      have grown : (bindings.insert declaration.name slot).slots =
          bindings.slots ++ [(declaration.name, slot)] := Bindings.putSlot_of_not_mem _ _ _ absent
      have level : before.length + 1 = (before ++ [declaration.name]).length := by simp
      have later := @ih (before ++ [declaration.name]) (bindings.insert declaration.name slot)
        (by simp [grown, names]) (by simpa using distinct)
      rw [own, level]
      rcases later with ⟨added, result, waiting, accepted, same⟩ |
        ⟨front, other, back, added, split, waiting, required, missing, failed⟩
      · exact .inl ⟨_, result, waits _ _ waiting, accepted, by simp [same, grown]⟩
      · refine .inr ⟨declaration :: front, other, back, _, by rw [split]; rfl, waits _ _ waiting,
          required, ?_, failed⟩
        rw [← level] at missing
        rw [List.length_cons, ← missing]
        congr 1
        omega
    · rw [own]
      exact .inr ⟨[], declaration, rest, [], rfl, .nil, required, missing, rfl⟩

theorem waiting_of_bind {name : String} {declarations : List (Declaration V)}
    {signature : Signature V} (built : build name declarations = .ok signature)
    {arguments : List V} {keywords : List (String × V)} {bindings : Bindings V}
    (bound : signature.bind arguments keywords = .ok bindings) :
    Waiting (supplied arguments keywords) [] declarations bindings.slots := by
  obtain ⟨rfl, distinct⟩ := params_of_build built
  unfold bind at bound
  split at bound
  · cases bound
  · obtain ⟨entries, given, accepted⟩ := bind_eq_ok.1 bound
    have start := place_eq_placed (paramsFrom [] declarations) arguments 0
    rw [List.drop_zero] at start
    rw [start] at given
    have params : ((paramsFrom [] declarations).map Param.name).Nodup := by
      rw [map_name_paramsFrom]
      exact distinct
    have both : (fun index name => (supplied arguments [] index name).or (keywords.lookup name)) =
        supplied arguments keywords := by
      funext index name
      simp [supplied]
    rw [foldlM_supply_placed params given, both] at accepted
    have names : (Bindings.empty : Bindings V).slots.map Prod.fst = [] := rfl
    rcases slots_cases (supplied arguments keywords) name names (by simpa using distinct) with
      ⟨added, result, waiting, found, same⟩ | ⟨_, _, _, _, _, _, _, _, failed⟩
    · cases found.symm.trans accepted
      rw [same]
      exact waiting
    · cases failed.symm.trans accepted

/-- A call of a signature that was built fails as binding fails, and runs nothing. Otherwise it
evaluates the declarations from left to right, and a late default that waits accepts exactly as
many arguments as there are parameters in front, so that its arity is never wrong. -/
theorem call_evaluates_left_to_right {name : String} {declarations : List (Declaration V)}
    {signature : Signature V} (built : build name declarations = .ok signature)
    (arguments : List V) (keywords : List (String × V)) :
    (∀ fault, signature.bind arguments keywords = .error fault →
      signature.call arguments keywords = ⟨[], .error fault⟩) ∧
    ∀ bindings, signature.bind arguments keywords = .ok bindings →
      (∃ result,
        Evaluates (supplied arguments keywords) [] declarations
          (signature.call arguments keywords).ran result ∧
        (signature.call arguments keywords).result.map Bindings.slots =
          result.map Bindings.held) ∧
      ∀ front name wrapper back, bindings.slots = front ++ (name, .deferred wrapper) :: back →
        ∀ values : List V, wrapper.accepts values = true ↔ values.length = front.length := by
  unfold call
  constructor
  · intro fault failed
    rw [failed]
  · intro bindings bound
    rw [bound]
    have waiting := waiting_of_bind built bound
    obtain ⟨result, resolves, same⟩ := bindings.resolve_resolves [] bindings.slots rfl
    refine ⟨⟨result, waiting.evaluates rfl resolves, same⟩, ?_⟩
    intro front name wrapper back split values
    have reads := waiting.dependencies_length split
    rw [List.length_nil, Nat.zero_add] at reads
    rw [Wrapper.accepts, reads, beq_iff_eq]

/-- Three parameters, the last two with late defaults that add one to the sum of what they read. -/
def sums : List (Declaration Nat) :=
  [⟨"a", .positionalOnly, .required⟩,
    ⟨"b", .positionalOrKeyword, .late fun values => .ok (values.sum + 1)⟩,
    ⟨"c", .keywordOnly, .late fun values => .ok (values.sum + 1)⟩]

theorem call_sums_evaluates :
    build "f" sums = .ok ⟨"f", paramsFrom [] sums⟩ ∧
    (∃ result,
      Evaluates (supplied [4] []) [] sums (call ⟨"f", paramsFrom [] sums⟩ [4] []).ran result ∧
      (call ⟨"f", paramsFrom [] sums⟩ [4] []).result.map Bindings.slots =
        result.map Bindings.held) ∧
    (call ⟨"f", paramsFrom [] sums⟩ [4] []).ran = [⟨"b", [4]⟩, ⟨"c", [4, 5]⟩] := by
  have built : build "f" sums = .ok ⟨"f", paramsFrom [] sums⟩ := rfl
  exact ⟨built, ((call_evaluates_left_to_right built [4] []).2 _ rfl).1, rfl⟩

end Signature

end DeferredDefaults.Call
