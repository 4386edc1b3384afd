import DeferredDefaults.Call.Fault
import DeferredDefaults.Text.Quoted

/-!
The bindings of one call: a slot for every name, in the order of declaration. A slot holds a value,
or a late default that waits to be resolved. Names are distinct.
-/

set_option autoImplicit false
set_option relaxedAutoImplicit false

namespace DeferredDefaults.Call

universe u

/-- What a late default computes: the names it reads, and its body over their values. -/
structure Computation (V : Type u) where
  dependencies : List String
  body : List V → Except Fault V

structure Wrapper (V : Type u) where
  name : String
  computation : Computation V

inductive Slot (V : Type u) where
  | value (value : V)
  | deferred (wrapper : Wrapper V)

variable {V : Type u}

namespace Computation

def defer (computation : Computation V) (name : String) : Wrapper V := ⟨name, computation⟩

def describe (computation : Computation V) : String :=
  "DeferredComputation \x7b dependencies: " ++ Text.Quoted.quoteAll computation.dependencies ++
    ", .. \x7d"

end Computation

namespace Wrapper

def dependencies (wrapper : Wrapper V) : List String := wrapper.computation.dependencies

/-- There is one argument for every name that the body reads. -/
def accepts (wrapper : Wrapper V) (arguments : List V) : Bool :=
  arguments.length == wrapper.dependencies.length

/-- Runs the body on arguments that it accepts. -/
def call (wrapper : Wrapper V) (arguments : List V) : Except Fault V :=
  if wrapper.accepts arguments then wrapper.computation.body arguments
  else .error (.arity wrapper.name wrapper.dependencies.length arguments.length)

def describe (wrapper : Wrapper V) : String :=
  "Deferred \x7b name: " ++ Text.Quoted.quote wrapper.name ++ ", dependencies: " ++
    Text.Quoted.quoteAll wrapper.dependencies ++ " \x7d"

end Wrapper

namespace Slot

/-- The value of a slot that is resolved. -/
def value? : Slot V → Option V
  | .value held => some held
  | .deferred _ => none

end Slot

/-- The slots with one more under `name`: in place of the one it has, or last. -/
def putSlot (name : String) (slot : Slot V) : List (String × Slot V) → List (String × Slot V)
  | [] => [(name, slot)]
  | entry :: rest =>
    if entry.1 = name then (name, slot) :: rest else entry :: putSlot name slot rest

private theorem map_fst_putSlot (name : String) (slot : Slot V) (slots : List (String × Slot V)) :
    (putSlot name slot slots).map Prod.fst =
      if name ∈ slots.map Prod.fst then slots.map Prod.fst else slots.map Prod.fst ++ [name] := by
  induction slots with
  | nil => simp [putSlot]
  | cons entry rest ih =>
    by_cases same : entry.1 = name
    · simp [putSlot, same]
    · have other : ¬ name = entry.1 := fun equal => same equal.symm
      rw [putSlot, if_neg same, List.map_cons, ih]
      by_cases later : name ∈ rest.map Prod.fst
      · simp only [List.map_cons, List.mem_cons, later, or_true, if_true]
      · simp only [List.map_cons, List.mem_cons, later, other, or_self, if_false,
          List.cons_append]

private theorem nodup_putSlot (name : String) (slot : Slot V) {slots : List (String × Slot V)}
    (distinct : (slots.map Prod.fst).Nodup) : ((putSlot name slot slots).map Prod.fst).Nodup := by
  rw [map_fst_putSlot]
  split
  · exact distinct
  · next absent =>
    rw [List.nodup_append]
    refine ⟨distinct, by simp, ?_⟩
    intro first member second last equal
    rw [List.mem_singleton] at last
    exact absent (last ▸ equal ▸ member)

/-- Slots by name, in the order of declaration. -/
structure Bindings (V : Type u) where
  slots : List (String × Slot V)
  distinct : (slots.map Prod.fst).Nodup

namespace Bindings

def empty : Bindings V := ⟨[], by simp⟩

/-- The bindings with one more slot: in place of the one of the same name, or last. -/
def insert (bindings : Bindings V) (name : String) (slot : Slot V) : Bindings V :=
  ⟨putSlot name slot bindings.slots, nodup_putSlot name slot bindings.distinct⟩

def get? (bindings : Bindings V) (name : String) : Option (Slot V) :=
  (bindings.slots.find? fun entry => entry.1 == name).map Prod.snd

def value (bindings : Bindings V) (name : String) : Except Fault V :=
  match bindings.get? name with
  | some (.value value) => .ok value
  | some (.deferred _) => .error (.unresolved name)
  | none => .error (.unboundName name)

def size (bindings : Bindings V) : Nat := bindings.slots.length

def leadingValues : List (String × Slot V) → List V
  | (_, .value value) :: rest => value :: leadingValues rest
  | _ => []

def resolvedValues : List (String × Slot V) → Except Fault (List (String × V))
  | [] => .ok []
  | (name, .value value) :: rest => do return (name, value) :: (← resolvedValues rest)
  | (name, .deferred _) :: _ => .error (.unresolved name)

def values (bindings : Bindings V) : Except Fault (List (String × V)) :=
  resolvedValues bindings.slots

end Bindings

/-- One body that was run: the slot it was run for, and its arguments. -/
structure Run (V : Type u) where
  slot : String
  arguments : List V

/-- What came out of resolving slots, and the bodies that were run for it. -/
structure Outcome (V : Type u) where
  ran : List (Run V)
  result : Except Fault (Bindings V)

namespace Bindings

/-- Resolves slots in order. Each late default is called on the values that lead the slots resolved
so far. -/
def resolve (resolved : Bindings V) : List (String × Slot V) → Outcome V
  | [] => ⟨[], .ok resolved⟩
  | (_, .value _) :: rest => resolve resolved rest
  | (name, .deferred wrapper) :: rest =>
    let arguments := leadingValues resolved.slots
    let ran := if wrapper.accepts arguments then [⟨name, arguments⟩] else []
    match wrapper.call arguments with
    | .error fault => ⟨ran, .error fault⟩
    | .ok value =>
      let later := resolve (resolved.insert name (.value value)) rest
      ⟨ran ++ later.ran, later.result⟩

/-- Resolves every late default. Nothing is resolved if one of them fails. -/
def evaluate (bindings : Bindings V) : Outcome V := resolve bindings bindings.slots

/-- What evaluation in place leaves of the bindings: they are written back only when every late
default has been resolved. -/
def evaluated (bindings : Bindings V) : Bindings V :=
  match bindings.evaluate.result with
  | .ok resolved => resolved
  | .error _ => bindings

end Bindings

end DeferredDefaults.Call
