import Mathlib.Data.List.Basic
import DeferredDefaults.Proofs.Call.LeftToRight

/-!
Resolving any bindings, slot by slot. The late default at an index is called on the values of all
slots before it, whether they were held or have just been resolved. The first one that reads
another number of names, or whose body fails, ends the evaluation, and the bindings stay as they
were.
-/

set_option autoImplicit false
set_option relaxedAutoImplicit false

namespace DeferredDefaults.Call

universe u

variable {V : Type u}

namespace Slot

/-- The slot comes to hold `value`, `before` being the values of the slots before it. -/
def Gives (before : List V) (value : V) : Slot V → Prop
  | .value held => held = value
  | .deferred wrapper =>
    wrapper.dependencies.length = before.length ∧ wrapper.computation.body before = .ok value

/-- The body that is run for a slot under a name: none if the slot holds a value. -/
def run? (before : List V) (name : String) : Slot V → Option (Run V)
  | .value _ => none
  | .deferred _ => some ⟨name, before⟩

/-- Why a slot cannot be resolved on the values before it, and the body that is run to find out. -/
inductive Fails (before : List V) (name : String) : Slot V → Option (Run V) → Fault → Prop
  | arity {wrapper : Wrapper V} :
      wrapper.dependencies.length ≠ before.length →
      Fails before name (.deferred wrapper) none
        (.arity wrapper.name wrapper.dependencies.length before.length)
  | body {wrapper : Wrapper V} {fault : Fault} :
      wrapper.dependencies.length = before.length →
      wrapper.computation.body before = .error fault →
      Fails before name (.deferred wrapper) (some ⟨name, before⟩) fault

end Slot

namespace Bindings

/-- The first slots come to hold these values, each from all values before its own. -/
def Filled (slots : List (String × Slot V)) (values : List V) : Prop :=
  ∀ (index : Nat) (value : V), values[index]? = some value →
    ∃ (name : String) (slot : Slot V), slots[index]? = some (name, slot) ∧
      slot.Gives (values.take index) value

/-- The bodies that are run until the first slots hold these values: one for each late default, on
all values before its own. -/
def runs (slots : List (String × Slot V)) (values : List V) : List (Run V) :=
  (slots.take values.length).zipIdx.filterMap fun entry =>
    entry.1.2.run? (values.take entry.2) entry.1.1

/-- What resolving comes to: every slot has its value, or the first slot behind `values` fails. -/
inductive Settled (slots : List (String × Slot V)) (values : List V) (ran : List (Run V)) :
    Except Fault (List (String × V)) → Prop
  | resolved {entries : List (String × V)} :
      entries.map Prod.fst = slots.map Prod.fst → entries.map Prod.snd = values →
      ran = runs slots values → Settled slots values ran (.ok entries)
  | failed {name : String} {slot : Slot V} {own : Option (Run V)} {fault : Fault} :
      slots[values.length]? = some (name, slot) → slot.Fails values name own fault →
      ran = runs slots values ++ own.toList → Settled slots values ran (.error fault)

section

variable {slots rest : List (String × Slot V)} {values : List V} {name : String} {slot : Slot V}
  {value : V}

private theorem Filled.push (filled : Filled slots values)
    (found : slots[values.length]? = some (name, slot)) (gives : slot.Gives values value) :
    Filled slots (values ++ [value]) := by
  intro index other here
  rcases Nat.lt_trichotomy index values.length with inside | rfl | outside
  · rw [List.getElem?_append_left inside] at here
    rw [List.take_append_of_le_length (Nat.le_of_lt inside)]
    exact filled index other here
  · rw [List.getElem?_concat_length, Option.some.injEq] at here
    rw [List.take_left, ← here]
    exact ⟨name, slot, found, gives⟩
  · rw [List.getElem?_eq_none (by simp only [List.length_append, List.length_singleton]; omega)]
      at here
    cases here

private theorem runs_push (found : slots[values.length]? = some (name, slot)) (value : V) :
    runs slots (values ++ [value]) = runs slots values ++ (slot.run? values name).toList := by
  have size : (slots.take values.length).length = values.length := by
    obtain ⟨inside, -⟩ := List.getElem?_eq_some_iff.1 found
    rw [List.length_take]
    omega
  have earlier : ∀ entry ∈ (slots.take values.length).zipIdx,
      (values ++ [value]).take entry.2 = values.take entry.2 := by
    intro entry member
    have inside := (List.mem_zipIdx member).2.1
    rw [Nat.zero_add, size] at inside
    exact List.take_append_of_le_length (Nat.le_of_lt inside)
  rw [runs, List.length_append, List.length_singleton, List.take_add_one, found,
    Option.toList_some, List.zipIdx_append, List.filterMap_append, size]
  congr 1
  · apply List.filterMap_congr
    intro entry member
    rw [earlier entry member]
  · simp only [List.zipIdx_singleton, Nat.zero_add, List.filterMap_cons, List.filterMap_nil,
      List.take_left]
    cases slot.run? values name <;> rfl

private theorem next_of_drop {count : Nat} (here : slots.drop count = (name, slot) :: rest) :
    slots[count]? = some (name, slot) ∧ slots.drop (count + 1) = rest ∧
      slots.take (count + 1) = slots.take count ++ [(name, slot)] := by
  have found : slots[count]? = some (name, slot) := by
    rw [← List.head?_drop, here]
    rfl
  refine ⟨found, ?_, ?_⟩
  · rw [← List.tail_drop, here]
    rfl
  · rw [List.take_add_one, found]
    rfl

end

structure Passed (slots : List (String × Slot V)) (before : List (String × V))
    (rest : List (String × Slot V)) : Prop where
  here : slots.drop before.length = rest
  names : before.map Prod.fst = (slots.take before.length).map Prod.fst
  filled : Filled slots (before.map Prod.snd)

namespace Passed

variable {slots rest : List (String × Slot V)} {before : List (String × V)} {name : String}
  {slot : Slot V} {value : V}

private theorem found (passed : Passed slots before ((name, slot) :: rest)) :
    slots[(before.map Prod.snd).length]? = some (name, slot) := by
  rw [List.length_map]
  exact (next_of_drop passed.here).1

private theorem push (passed : Passed slots before ((name, slot) :: rest))
    (gives : slot.Gives (before.map Prod.snd) value) :
    Passed slots (before ++ [(name, value)]) rest := by
  obtain ⟨-, goesOn, longer⟩ := next_of_drop passed.here
  constructor
  · rw [List.length_append, List.length_singleton, goesOn]
  · rw [List.length_append, List.length_singleton, longer, List.map_append, List.map_append,
      passed.names]
    rfl
  · rw [List.map_append]
    exact passed.filled.push passed.found gives

private theorem runs_push (passed : Passed slots before ((name, slot) :: rest)) (value : V) :
    runs slots ((before ++ [(name, value)]).map Prod.snd) =
      runs slots (before.map Prod.snd) ++ (slot.run? (before.map Prod.snd) name).toList := by
  rw [List.map_append]
  exact Bindings.runs_push passed.found value

end Passed

private theorem settled_of_resolves {slots rest : List (String × Slot V)}
    {before : List (String × V)} {ran : List (Run V)} {result : Except Fault (List (String × V))}
    (resolves : Resolves before rest ran result) (passed : Passed slots before rest) :
    ∃ values, Filled slots values ∧
      Settled slots values (runs slots (before.map Prod.snd) ++ ran) result := by
  induction resolves with
  | @done before =>
    have all : slots.length ≤ before.length := List.drop_eq_nil_iff.1 passed.here
    have names := passed.names
    rw [List.take_of_length_le all] at names
    exact ⟨_, passed.filled, .resolved names rfl (List.append_nil _)⟩
  | @value before name value rest ran result _ ih =>
    obtain ⟨values, filled, settled⟩ := ih (passed.push rfl)
    rw [passed.runs_push value, Slot.run?, Option.toList_none, List.append_nil] at settled
    exact ⟨values, filled, settled⟩
  | @run before name wrapper value rest ran result level outcome _ ih =>
    have gives : (Slot.deferred wrapper).Gives (before.map Prod.snd) value :=
      ⟨by rw [level, List.length_map], outcome⟩
    obtain ⟨values, filled, settled⟩ := ih (passed.push gives)
    rw [passed.runs_push value, Slot.run?, Option.toList_some, List.append_assoc] at settled
    exact ⟨values, filled, settled⟩
  | @fails before name wrapper fault rest level outcome =>
    refine ⟨_, passed.filled, .failed passed.found (.body ?_ outcome) rfl⟩
    rw [level, List.length_map]
  | @arity before name wrapper rest mismatch =>
    have differs : wrapper.dependencies.length ≠ (before.map Prod.snd).length := by
      rwa [List.length_map]
    have fails : (Slot.deferred wrapper).Fails (before.map Prod.snd) name none
        (.arity wrapper.name wrapper.dependencies.length (before.map Prod.snd).length) :=
      .arity differs
    rw [List.length_map] at fails
    exact ⟨_, passed.filled, .failed passed.found fails rfl⟩

private theorem mem_held {slots : List (String × Slot V)} {entries : List (String × V)}
    {name : String} {value : V} (names : entries.map Prod.fst = slots.map Prod.fst)
    (filled : Filled slots (entries.map Prod.snd)) (member : (name, .value value) ∈ slots) :
    (name, .value value) ∈ held entries := by
  obtain ⟨index, found⟩ := List.mem_iff_getElem?.1 member
  have size : entries.length = slots.length := by
    simpa only [List.length_map] using congrArg List.length names
  obtain ⟨inside, -⟩ := List.getElem?_eq_some_iff.1 found
  have entry := List.getElem?_eq_getElem (l := entries) (i := index) (by omega)
  generalize entries[index] = held at entry
  have sameName : held.1 = name := by
    have atIndex := congrArg (fun names => names[index]?) names
    simpa only [List.getElem?_map, entry, found, Option.map_some, Option.some.injEq] using atIndex
  have sameValue : held.2 = value := by
    obtain ⟨_, _, here, gives⟩ := filled index held.2 (by rw [List.getElem?_map, entry]; rfl)
    rw [found, Option.some.injEq, Prod.mk.injEq] at here
    rw [← here.2] at gives
    exact gives.symm
  rw [Bindings.held, List.mem_map]
  exact ⟨held, List.mem_of_getElem? entry, by rw [sameName, sameValue]⟩

private theorem evaluated_of_ok {bindings resolved : Bindings V}
    (succeeded : bindings.evaluate.result = .ok resolved) : bindings.evaluated = resolved := by
  rw [evaluated, succeeded]

private theorem evaluated_of_error {bindings : Bindings V} {fault : Fault}
    (failed : bindings.evaluate.result = .error fault) : bindings.evaluated = bindings := by
  rw [evaluated, failed]

/-- Evaluation of any bindings resolves the late defaults in order, each on the values of all slots
before it. Either every slot comes to hold a value, under its name and in its place, and those that
held one still hold it; or the first late default that reads another number of names than there are
slots before it, or whose body fails, ends the evaluation with that fault, and the bindings are
left as they were. -/
theorem evaluate_in_order (bindings : Bindings V) :
    ∃ values, Filled bindings.slots values ∧
      ((bindings.evaluate.result = .ok bindings.evaluated ∧
          bindings.evaluate.ran = runs bindings.slots values ∧
          bindings.evaluated.slots.map Prod.fst = bindings.slots.map Prod.fst ∧
          bindings.evaluated.slots.map (fun entry => entry.2.value?) = values.map some ∧
          ∀ name value, (name, Slot.value value) ∈ bindings.slots →
            (name, Slot.value value) ∈ bindings.evaluated.slots) ∨
        ∃ name slot own fault, bindings.slots[values.length]? = some (name, slot) ∧
          Slot.Fails values name slot own fault ∧
          bindings.evaluate.ran = runs bindings.slots values ++ own.toList ∧
          bindings.evaluate.result = .error fault ∧ bindings.evaluated = bindings) := by
  obtain ⟨result, resolves, same⟩ := bindings.resolve_resolves [] bindings.slots rfl
  have start : Passed bindings.slots [] bindings.slots := ⟨rfl, rfl, nofun⟩
  obtain ⟨values, filled, settled⟩ := settled_of_resolves resolves start
  refine ⟨values, filled, ?_⟩
  cases settled with
  | @resolved entries names isValues ran =>
    left
    obtain ⟨resolved, succeeded, slots⟩ := map_eq_ok.1 same
    rw [evaluated_of_ok succeeded, slots]
    refine ⟨succeeded, ran, ?_, ?_, ?_⟩
    · rw [← names, held, List.map_map]
      rfl
    · rw [← isValues, held, List.map_map, List.map_map]
      rfl
    · intro name value member
      exact mem_held names (isValues ▸ filled) member
  | @failed name slot own fault found fails ran =>
    right
    have failed : bindings.evaluate.result = .error fault := by
      show (resolve bindings bindings.slots).result = _
      cases outcome : (resolve bindings bindings.slots).result with
      | ok resolved =>
        rw [outcome] at same
        cases same
      | error other =>
        rw [outcome] at same
        cases same
        rfl
    exact ⟨name, slot, own, fault, found, fails, ran, failed, evaluated_of_error failed⟩

end Bindings

end DeferredDefaults.Call
