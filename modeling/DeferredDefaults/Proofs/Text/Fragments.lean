import Mathlib.Data.List.Infix

/-!
Where a word may come about when texts are put together: only where one text ends with a piece of
the word and the next goes on with it.
-/

set_option autoImplicit false
set_option relaxedAutoImplicit false

namespace DeferredDefaults.Text

variable {word front back text : List Char}

def Sealed (word text : List Char) : Prop := ∀ piece, piece ≠ [] → piece <+: word → ¬ piece <:+ text

def Blunt (word text : List Char) : Prop := ∀ c ∈ text.head?, c ∉ word

def Bare (word text : List Char) : Prop := ∀ c ∈ text, c ∉ word

instance (word text : List Char) : Decidable (Blunt word text) :=
  Option.decidableForallMem text.head?

instance (word text : List Char) : Decidable (Bare word text) :=
  List.decidableBAll (· ∉ word) text

theorem Bare.blunt (bare : Bare word text) : Blunt word text := by
  intro c found
  exact bare c (List.mem_of_mem_head? found)

theorem Bare.append (first : Bare word front) (second : Bare word back) :
    Bare word (front ++ back) := List.forall_mem_append.2 ⟨first, second⟩

theorem sealed_of_getLast? (last : ∀ c ∈ text.getLast?, c ∉ word) : Sealed word text := by
  rintro piece some begins ⟨rest, rfl⟩
  have found := List.getLast?_eq_getLast_of_ne_nil some
  refine last (piece.getLast some) ?_ (begins.subset (List.getLast_mem some))
  rw [List.getLast?_append_of_ne_nil _ some]
  exact found

theorem Bare.sealed (bare : Bare word text) : Sealed word text :=
  sealed_of_getLast? fun c found => bare c (List.mem_of_mem_getLast? found)

theorem Bare.free (bare : Bare word text) (some : word ≠ []) : ¬ word <:+: text := by
  intro found
  obtain ⟨c, rest, rfl⟩ := List.exists_cons_of_ne_nil some
  exact bare c (found.subset List.mem_cons_self) List.mem_cons_self

private theorem suffix_append {piece : List Char} (ends : piece <:+ front ++ back) :
    piece <:+ back ∨ ∃ start, start ≠ [] ∧ piece = start ++ back ∧ start <:+ front := by
  obtain ⟨rest, whole⟩ := ends
  rcases List.append_eq_append_iff.1 whole with ⟨start, rfl, rfl⟩ | ⟨middle, _, rfl⟩
  · by_cases empty : start = []
    · subst empty
      exact .inl (List.suffix_refl back)
    · exact .inr ⟨start, empty, rfl, List.suffix_append rest start⟩
  · exact .inl (List.suffix_append middle piece)

theorem Sealed.append (first : Sealed word front) (second : Sealed word back) :
    Sealed word (front ++ back) := by
  intro piece some begins ends
  rcases suffix_append ends with ends | ⟨start, startSome, rfl, startEnds⟩
  · exact second piece some begins ends
  · exact first start startSome ((List.prefix_append start back).trans begins) startEnds

/-- A text that is sealed and does not go on with the word seals what is in front of it. -/
theorem Sealed.append_blunt (second : Sealed word back) (blunt : Blunt word back)
    (some : back ≠ []) : Sealed word (front ++ back) := by
  intro piece pieceSome begins ends
  rcases suffix_append ends with ends | ⟨start, _, rfl, _⟩
  · exact second piece pieceSome begins ends
  · obtain ⟨c, rest, rfl⟩ := List.exists_cons_of_ne_nil some
    exact blunt c rfl (begins.subset (by simp))

/-- A word that is in neither of two texts is in both together only across their seam. -/
theorem free_append (some : word ≠ []) (first : ¬ word <:+: front) (second : ¬ word <:+: back)
    (seam : Sealed word front ∨ Blunt word back) : ¬ word <:+: front ++ back := by
  rintro ⟨before, after, whole⟩
  rcases List.append_eq_append_iff.1 whole with ⟨rest, rfl, _⟩ | ⟨rest, split, rfl⟩
  · exact first ⟨before, rest, rfl⟩
  · rcases List.append_eq_append_iff.1 split with ⟨start, rfl, rfl⟩ | ⟨middle, _, rfl⟩
    · rcases seam with isSealed | blunt
      · by_cases empty : start = []
        · subst empty
          exact second ⟨[], after, rfl⟩
        · exact isSealed start empty (List.prefix_append start rest) (List.suffix_append before start)
      · cases rest with
        | nil =>
          rw [List.append_nil] at first
          exact first ⟨before, [], by simp⟩
        | cons c rest => exact blunt c rfl (by simp)
    · exact second ⟨middle, after, rfl⟩

end DeferredDefaults.Text
