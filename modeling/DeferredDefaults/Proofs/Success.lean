/-!
When a computation that may fail succeeds, each of its steps has succeeded; when it fails, one of
them has failed and the earlier ones have succeeded.
-/

set_option autoImplicit false
set_option relaxedAutoImplicit false

namespace DeferredDefaults

universe u v w

variable {ε : Type u} {α β : Type v} {ι : Type w}

theorem bind_eq_ok {first : Except ε α} {next : α → Except ε β} {result : β} :
    (first >>= next) = .ok result ↔ ∃ value, first = .ok value ∧ next value = .ok result := by
  cases first with
  | error fault => simp [bind, Except.bind]
  | ok value => simp [bind, Except.bind]

theorem bind_eq_error {first : Except ε α} {next : α → Except ε β} {fault : ε} :
    (first >>= next) = .error fault ↔
      first = .error fault ∨ ∃ value, first = .ok value ∧ next value = .error fault := by
  cases first with
  | error fault => simp [bind, Except.bind]
  | ok value => simp [bind, Except.bind]

theorem map_eq_ok {first : Except ε α} {change : α → β} {result : β} :
    first.map change = .ok result ↔ ∃ value, first = .ok value ∧ change value = result := by
  cases first with
  | error fault => simp [Except.map]
  | ok value => simp [Except.map]

theorem foldlM_keeps {step : β → α → Except ε β} {holds : β → Prop} {list : List α}
    (keeps : ∀ item ∈ list, ∀ before after, holds before → step before item = .ok after →
      holds after) {start result : β} (begins : holds start)
    (accepted : list.foldlM step start = .ok result) : holds result := by
  induction list generalizing start with
  | nil =>
    cases accepted
    exact begins
  | cons item rest ih =>
    rw [List.foldlM_cons, bind_eq_ok] at accepted
    obtain ⟨next, stepped, accepted⟩ := accepted
    rw [List.forall_mem_cons] at keeps
    exact ih keeps.2 (keeps.1 start next begins stepped) accepted

/-- A fold of which each step either succeeds or finds its item at fault gets through its list, or
stops at the first item at fault. What is at fault may depend on the items in front. -/
theorem foldlM_first {step : β → ι → Except ε β} (sound : List ι → β → Prop)
    (faulty : List ι → ι → ε → Prop)
    (steps : ∀ front state item, sound front state →
      (∃ next, step state item = .ok next ∧ sound (front ++ [item]) next) ∨
        ∃ fault, step state item = .error fault ∧ faulty front item fault)
    {front : List ι} {state : β} (begins : sound front state) (list : List ι) :
    (∃ final, list.foldlM step state = .ok final ∧ sound (front ++ list) final) ∨
      ∃ before item after reached fault, list = before ++ item :: after ∧
        sound (front ++ before) reached ∧ faulty (front ++ before) item fault ∧
        list.foldlM step state = .error fault := by
  induction list generalizing front state with
  | nil => exact .inl ⟨state, rfl, by rwa [List.append_nil]⟩
  | cons item rest ih =>
    rw [List.foldlM_cons]
    rcases steps front state item begins with ⟨next, stepped, goesOn⟩ | ⟨fault, stepped, isFaulty⟩
    · rw [stepped]
      rcases ih goesOn with ⟨final, accepted, isSound⟩ |
        ⟨before, other, after, reached, fault, split, isSound, isFaulty, failed⟩
      · rw [List.append_cons]
        exact .inl ⟨final, accepted, isSound⟩
      · refine .inr ⟨item :: before, other, after, reached, fault, by rw [split]; rfl, ?_, ?_, failed⟩
        · rwa [List.append_cons]
        · rwa [List.append_cons]
    · refine .inr ⟨[], item, rest, state, fault, rfl, ?_, ?_, by rw [stepped]; rfl⟩
      · rwa [List.append_nil]
      · rwa [List.append_nil]

end DeferredDefaults
