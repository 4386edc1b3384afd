import DeferredDefaults.Codec
import Mathlib.Data.List.DropRight

/-!
Spellings of a name. A normal form is its own normal form, so it does not matter how often a name is
put into normal form on its way, and whether a name is given as it was spelled or as it is kept.
-/

set_option autoImplicit false
set_option relaxedAutoImplicit false

namespace DeferredDefaults

namespace Text.Blank

private theorem head?_trim (text : List Char) : ∀ c ∈ (trim text).head?, isBlank c = false := by
  intro c first
  have front : trim text <+: text.dropWhile isBlank := List.rdropWhile_prefix isBlank _
  obtain ⟨behind, split⟩ := front
  have stops := List.head?_dropWhile_not isBlank text
  rw [← split, List.head?_append, first] at stops
  exact stops

private theorem getLast?_trim (text : List Char) :
    ∀ c ∈ (trim text).getLast?, isBlank c = false := by
  intro c last
  rw [trim, List.getLast?_reverse] at last
  have stops := List.head?_dropWhile_not isBlank (text.dropWhile isBlank).reverse
  rw [last] at stops
  exact stops

private theorem trim_eq_self {text : List Char} (first : ∀ c ∈ text.head?, isBlank c = false)
    (last : ∀ c ∈ text.getLast?, isBlank c = false) : trim text = text := by
  have kept : ∀ run : List Char, (∀ c ∈ run.head?, isBlank c = false) →
      run.dropWhile isBlank = run := by
    intro run stops
    cases run with
    | nil => rfl
    | cons c rest => rw [List.dropWhile_cons, stops c rfl]; rfl
  rw [trim, kept text first, kept, List.reverse_reverse]
  rwa [List.head?_reverse]

end Text.Blank

namespace Codec

open Text.Blank (isBlank trim)

private theorem toLower_cases (c : Char) :
    (0x41 ≤ c.toNat ∧ c.toNat ≤ 0x5A ∧ c.toLower.toNat = c.toNat + 0x20) ∨ c.toLower = c := by
  unfold Char.toLower
  split
  · next upper =>
    have low : 0x41 ≤ c.toNat := upper.1
    have high : c.toNat ≤ 0x5A := upper.2
    refine .inl ⟨low, high, ?_⟩
    show (c.val + 0x20).toNat = c.val.toNat + 0x20
    have small : c.val.toNat ≤ 0x5A := high
    rw [UInt32.toNat_add]
    have : (0x20 : UInt32).toNat = 0x20 := rfl
    omega
  · exact .inr rfl

private theorem normalChar_normalChar (c : Char) : normalChar (normalChar c) = normalChar c := by
  by_cases parts : c = '_' ∨ c = ' '
  · rw [show normalChar c = '-' from if_pos parts]
    rfl
  · rw [show normalChar c = c.toLower from if_neg parts]
    rcases toLower_cases c with ⟨low, high, code⟩ | same
    · have letter : ¬ (c.toLower = '_' ∨ c.toLower = ' ') := by
        rintro (is | is) <;> rw [is] at code <;> simp at code <;> omega
      rw [normalChar, if_neg letter]
      exact (toLower_cases c.toLower).resolve_left (by omega)
    · rw [same, normalChar, if_neg parts, same]

private theorem isBlank_normalChar {c : Char} (ink : isBlank c = false) :
    isBlank (normalChar c) = false := by
  by_cases parts : c = '_' ∨ c = ' '
  · rw [normalChar, if_pos parts]
    decide
  · rw [normalChar, if_neg parts]
    rcases toLower_cases c with ⟨low, high, code⟩ | same
    · simp only [isBlank, Text.Ranges.holds, Text.Blank.blankRanges, code]
      simp
      omega
    · rw [same, ink]

private theorem toList_normalize (name : String) :
    (normalize name).toList = (trim name.toList).map normalChar := String.toList_ofList

private theorem normalize_normalize (name : String) :
    normalize (normalize name) = normalize name := by
  have first : ∀ c ∈ ((trim name.toList).map normalChar).head?, isBlank c = false := by
    intro c first
    rw [List.head?_map] at first
    obtain ⟨raw, isFirst, rfl⟩ := Option.map_eq_some_iff.1 first
    exact isBlank_normalChar (Text.Blank.head?_trim _ raw isFirst)
  have last : ∀ c ∈ ((trim name.toList).map normalChar).getLast?, isBlank c = false := by
    intro c last
    rw [List.getLast?_map] at last
    obtain ⟨raw, isLast, rfl⟩ := Option.map_eq_some_iff.1 last
    exact isBlank_normalChar (Text.Blank.getLast?_trim _ raw isLast)
  have fixed : normalChar ∘ normalChar = normalChar := funext normalChar_normalChar
  rw [normalize, toList_normalize, Text.Blank.trim_eq_self first last, List.map_map, fixed]
  rfl

/-- The names are spellings of one name. -/
def SameName (name other : String) : Prop := normalize name = normalize other

instance (name other : String) : Decidable (SameName name other) :=
  inferInstanceAs (Decidable (normalize name = normalize other))

theorem sameName_named (name : String) (options : Options) :
    SameName (named name options).name name := normalize_normalize name

theorem isUtf8Name_iff (name : String) :
    isUtf8Name name = true ↔ normalize name = "utf-8" ∨ normalize name = "utf8" := by
  simp [isUtf8Name]

end Codec

end DeferredDefaults
