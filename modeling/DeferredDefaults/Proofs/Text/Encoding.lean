import DeferredDefaults.Text.Utf8
import Mathlib.Data.List.TakeWhile

/-!
Texts written as UTF-8 and read again. Every character becomes a sequence that reading takes as a
whole, so a text is read back as it was. A byte below 0x80 stands for the character of this code
point and for no part of another, so what is asked of such bytes can be asked of characters.
-/

set_option autoImplicit false
set_option relaxedAutoImplicit false

namespace DeferredDefaults.Text.Utf8

open String (utf8EncodeChar)

def encode (text : List Char) : List UInt8 := text.flatMap utf8EncodeChar

@[simp] theorem encode_nil : encode [] = [] := rfl

@[simp] theorem encode_cons (c : Char) (rest : List Char) :
    encode (c :: rest) = utf8EncodeChar c ++ encode rest := List.flatMap_cons

theorem toUTF8_eq (text : String) : text.toUTF8.data.toList = encode text.toList := by
  show text.toByteArray.data.toList = _
  rw [← String.utf8Encode_toList, List.utf8Encode, List.data_toByteArray, encode]

theorem utf8EncodeChar_cases (c : Char) :
    (c.toNat < 0x80 ∧ utf8EncodeChar c = [.ofNat c.toNat]) ∨
    (0x80 ≤ c.toNat ∧ c.toNat < 0x800 ∧
      utf8EncodeChar c = [.ofNat (c.toNat / 64 % 32 + 192), .ofNat (c.toNat % 64 + 128)]) ∨
    (0x800 ≤ c.toNat ∧ c.toNat < 0x10000 ∧
      utf8EncodeChar c = [.ofNat (c.toNat / 4096 % 16 + 224), .ofNat (c.toNat / 64 % 64 + 128),
        .ofNat (c.toNat % 64 + 128)]) ∨
    (0x10000 ≤ c.toNat ∧
      utf8EncodeChar c = [.ofNat (c.toNat / 262144 % 8 + 240), .ofNat (c.toNat / 4096 % 64 + 128),
        .ofNat (c.toNat / 64 % 64 + 128), .ofNat (c.toNat % 64 + 128)]) := by
  have same : c.val.toNat = c.toNat := rfl
  unfold utf8EncodeChar
  rw [same]
  simp only
  split
  · next small => exact .inl ⟨by omega, rfl⟩
  · split
    · next two => exact .inr (.inl ⟨by omega, by omega, rfl⟩)
    · split
      · next three => exact .inr (.inr (.inl ⟨by omega, by omega, rfl⟩))
      · exact .inr (.inr (.inr ⟨by omega, rfl⟩))

private theorem toNat_valid (c : Char) :
    c.toNat < 0xD800 ∨ (0xDFFF < c.toNat ∧ c.toNat < 0x110000) :=
  c.valid

theorem toNat_eq_iff_of_mem {c : Char} {byte : UInt8} (member : byte ∈ utf8EncodeChar c)
    {code : Nat} (ascii : code < 0x80) : byte.toNat = code ↔ c.toNat = code := by
  rcases utf8EncodeChar_cases c with ⟨small, split⟩ | ⟨low, high, split⟩ | ⟨low, high, split⟩ |
    ⟨low, split⟩
  · rw [split, List.mem_singleton] at member
    rw [member, UInt8.toNat_ofNat']
    omega
  all_goals
    simp only [split, List.mem_cons, List.not_mem_nil, or_false] at member
    have large : 0x80 ≤ byte.toNat := by
      rcases member with rfl | rfl | rfl | rfl <;> rw [UInt8.toNat_ofNat'] <;> omega
    omega

private theorem first_of_tail {lead second : UInt8} {others : List UInt8}
    (length : tailLength lead = some (others.length + 1)) (good : isSecond lead second = true)
    (tail : ∀ byte ∈ others, isTail byte = true) (rest : List UInt8) :
    first lead (second :: others ++ rest) =
      .char (assemble lead (second :: others)) (others.length + 1) := by
  have run : (others.takeWhile isTail).length = others.length := by
    rw [List.takeWhile_eq_self_iff.2 tail]
  simp [first, length, goodTail, good, run, Nat.add_comm 1]

/-- Reading takes the sequence of a character as a whole. -/
theorem first_utf8EncodeChar (c : Char) (rest : List UInt8) :
    ∃ lead tail, utf8EncodeChar c = lead :: tail ∧
      first lead (tail ++ rest) = .char c tail.length := by
  have valid := toNat_valid c
  have byte : ∀ n < 256, (UInt8.ofNat n).toNat = n := by
    intro n small
    rw [UInt8.toNat_ofNat']
    omega
  have point : ∀ n, n = c.toNat → Char.ofNat n = c := by
    rintro n rfl
    exact Char.ofNat_toNat c
  rcases utf8EncodeChar_cases c with ⟨small, split⟩ | ⟨low, high, split⟩ | ⟨low, high, split⟩ |
    ⟨low, split⟩
  · refine ⟨_, _, split, ?_⟩
    have lead := byte c.toNat (by omega)
    cases rest <;> simp [first, tailLength, lead, small, goodTail, assemble]
  · refine ⟨_, _, split, ?_⟩
    have lead := byte (c.toNat / 64 % 32 + 192) (by omega)
    have second := byte (c.toNat % 64 + 128) (by omega)
    rw [first_of_tail]
    · refine congrArg (Sequence.char · _) (point _ ?_)
      simp only [List.length_cons, List.length_nil, List.foldl_cons, List.foldl_nil, lead, second]
      omega
    · rw [tailLength, lead, if_neg (by omega), if_pos (by simp; omega)]
      rfl
    · simp only [isSecond, isTail, lead, second]
      rw [if_neg (by omega), if_neg (by omega), if_neg (by omega), if_neg (by omega)]
      simp
      omega
    · nofun
  · refine ⟨_, _, split, ?_⟩
    have lead := byte (c.toNat / 4096 % 16 + 224) (by omega)
    have second := byte (c.toNat / 64 % 64 + 128) (by omega)
    have third := byte (c.toNat % 64 + 128) (by omega)
    rw [first_of_tail]
    · refine congrArg (Sequence.char · _) (point _ ?_)
      simp only [List.length_cons, List.length_nil, List.foldl_cons, List.foldl_nil, lead, second,
        third]
      omega
    · rw [tailLength, lead, if_neg (by omega), if_neg (by simp), if_pos (by simp; omega)]
      rfl
    · simp only [isSecond, isTail, lead, second]
      split
      · simp
        omega
      · split
        · simp
          omega
        · rw [if_neg (by omega), if_neg (by omega)]
          simp
          omega
    · simp only [List.mem_singleton, forall_eq, isTail, third]
      simp
      omega
  · refine ⟨_, _, split, ?_⟩
    have lead := byte (c.toNat / 262144 % 8 + 240) (by omega)
    have second := byte (c.toNat / 4096 % 64 + 128) (by omega)
    have third := byte (c.toNat / 64 % 64 + 128) (by omega)
    have fourth := byte (c.toNat % 64 + 128) (by omega)
    rw [first_of_tail]
    · refine congrArg (Sequence.char · _) (point _ ?_)
      simp only [List.length_cons, List.length_nil, List.foldl_cons, List.foldl_nil, lead, second,
        third, fourth]
      omega
    · rw [tailLength, lead, if_neg (by omega), if_neg (by simp), if_neg (by simp),
        if_pos (by simp; omega)]
      rfl
    · simp only [isSecond, isTail, lead, second]
      rw [if_neg (by omega), if_neg (by omega)]
      split
      · simp
        omega
      · split
        · simp
          omega
        · simp
          omega
    · simp only [List.mem_cons, List.not_mem_nil, or_false, forall_eq_or_imp, forall_eq, isTail,
        third, fourth]
      simp
      omega

theorem scanFrom_encode (text : List Char) (index : Nat) :
    scanFrom index 0 (encode text) = (text, none) := by
  induction text generalizing index with
  | nil => rfl
  | cons c rest ih =>
    obtain ⟨lead, tail, split, read⟩ := first_utf8EncodeChar c (encode rest)
    rw [encode_cons, split, List.cons_append, scanFrom, read]
    simp only
    rw [scanFrom_skip _ _ _ (by simp), List.drop_left, ih]

theorem readable_encode (text : List Char) : readable (encode text) = text := by
  rw [readable, scanFrom_encode]

section Runs

variable {ofByte : UInt8 → Bool} {ofChar : Char → Bool}
  (same : ∀ c, ∀ byte ∈ utf8EncodeChar c, ofByte byte = ofChar c)
include same

/-- A run of bytes that each tell what their character does is the run of these characters. -/
theorem takeWhile_encode (text : List Char) :
    (encode text).takeWhile ofByte = encode (text.takeWhile ofChar) := by
  induction text with
  | nil => rfl
  | cons c rest ih =>
    cases held : ofChar c with
    | true =>
      have all : ∀ byte ∈ utf8EncodeChar c, ofByte byte = true := fun byte member =>
        (same c byte member).trans held
      rw [encode_cons, List.takeWhile_append_of_pos all, ih, List.takeWhile_cons, if_pos held,
        encode_cons]
    | false =>
      obtain ⟨lead, tail, split, -⟩ := first_utf8EncodeChar c []
      have stops : ofByte lead = false := (same c lead (by simp [split])).trans held
      simp [split, stops, held]

theorem dropWhile_encode (text : List Char) :
    (encode text).dropWhile ofByte = encode (text.dropWhile ofChar) := by
  have whole : encode text = encode (text.takeWhile ofChar) ++ encode (text.dropWhile ofChar) := by
    rw [encode, encode, encode, ← List.flatMap_append, List.takeWhile_append_dropWhile]
  have bytes := List.takeWhile_append_dropWhile (p := ofByte) (l := encode text)
  rw [takeWhile_encode same] at bytes
  exact List.append_cancel_left (bytes.trans whole)

end Runs

end DeferredDefaults.Text.Utf8
