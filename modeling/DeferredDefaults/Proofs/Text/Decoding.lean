import DeferredDefaults.Proofs.Text.Encoding

/-!
Bytes read as UTF-8 and written again. A sequence that reading takes as a character is the one that the
character is written as, so bytes have a text only if they are the bytes of this text.
-/

set_option autoImplicit false
set_option relaxedAutoImplicit false

namespace DeferredDefaults.Text.Utf8

open String (utf8EncodeChar)

private theorem toNat_ofNat {point : Nat}
    (valid : point < 0xD800 ∨ (0xDFFF < point ∧ point < 0x110000)) :
    (Char.ofNat point).toNat = point := by
  have isValid : point.isValidChar := valid
  rw [Char.ofNat, dif_pos isValid]
  rfl

private theorem ofNat_eq (byte : UInt8) {value : Nat} (same : value = byte.toNat) :
    UInt8.ofNat value = byte := by
  rw [same, UInt8.ofNat_toNat]

private theorem bounds_of_tailLength {lead : UInt8} {want : Nat}
    (length : tailLength lead = some want) :
    (want = 0 ∧ lead.toNat < 0x80) ∨ (want = 1 ∧ 0xC2 ≤ lead.toNat ∧ lead.toNat ≤ 0xDF) ∨
    (want = 2 ∧ 0xE0 ≤ lead.toNat ∧ lead.toNat ≤ 0xEF) ∨
    (want = 3 ∧ 0xF0 ≤ lead.toNat ∧ lead.toNat ≤ 0xF4) := by
  unfold tailLength at length
  simp only [Bool.and_eq_true, decide_eq_true_eq] at length
  split_ifs at length with one two three four
  all_goals
    cases length
    omega

private theorem bounds_of_isTail {byte : UInt8} (tail : isTail byte = true) :
    0x80 ≤ byte.toNat ∧ byte.toNat ≤ 0xBF := by
  simpa [isTail] using tail

private theorem bounds_of_isSecond {lead second : UInt8} (good : isSecond lead second = true) :
    0x80 ≤ second.toNat ∧ second.toNat ≤ 0xBF ∧ (lead.toNat = 0xE0 → 0xA0 ≤ second.toNat) ∧
      (lead.toNat = 0xED → second.toNat ≤ 0x9F) ∧ (lead.toNat = 0xF0 → 0x90 ≤ second.toNat) ∧
      (lead.toNat = 0xF4 → second.toNat ≤ 0x8F) := by
  unfold isSecond isTail at good
  split_ifs at good with e0 ed f0 f4
  all_goals
    simp only [Bool.and_eq_true, decide_eq_true_eq] at good
    omega

private theorem exists_tail_of_goodTail {lead : UInt8} {want : Nat} {rest : List UInt8}
    (all : goodTail lead (want + 1) rest = want + 1) :
    ∃ second others behind, rest = second :: (others ++ behind) ∧ others.length = want ∧
      isSecond lead second = true ∧ ∀ byte ∈ others, isTail byte = true := by
  cases rest with
  | nil => cases all
  | cons second rest =>
    rw [goodTail, if_neg (Nat.succ_ne_zero want), Nat.add_sub_cancel] at all
    split at all
    · next good =>
      have short : (rest.take want).length ≤ want := List.length_take_le _ _
      have run : ((rest.take want).takeWhile isTail).length ≤ (rest.take want).length :=
        (List.takeWhile_prefix _).length_le
      have whole : (rest.take want).takeWhile isTail = rest.take want :=
        (List.takeWhile_prefix _).eq_of_length (by omega)
      refine ⟨second, rest.take want, rest.drop want, ?_, by omega, good, ?_⟩
      · rw [List.take_append_drop]
      · exact List.takeWhile_eq_self_iff.1 whole
    · cases all

private theorem encode_one {lead : UInt8} (length : tailLength lead = some 0) :
    utf8EncodeChar (assemble lead []) = [lead] := by
  have small := bounds_of_tailLength length
  have point : (assemble lead []).toNat = lead.toNat := toNat_ofNat (.inl (by simp; omega))
  rcases utf8EncodeChar_cases (assemble lead []) with ⟨_, split⟩ | ⟨_, _, _⟩ | ⟨_, _, _⟩ | ⟨_, _⟩
  · rw [split, point, UInt8.ofNat_toNat]
  all_goals omega

private theorem encode_two {lead second : UInt8} (length : tailLength lead = some 1)
    (good : isSecond lead second = true) :
    utf8EncodeChar (assemble lead [second]) = [lead, second] := by
  have first := bounds_of_tailLength length
  have ⟨_, _, _⟩ := bounds_of_isSecond good
  have point : (assemble lead [second]).toNat = lead.toNat % 0x20 * 0x40 + second.toNat % 0x40 :=
    toNat_ofNat (.inl (by simp; omega))
  rcases utf8EncodeChar_cases (assemble lead [second]) with ⟨_, _⟩ | ⟨_, _, split⟩ | ⟨_, _, _⟩ |
    ⟨_, _⟩
  · omega
  · rw [split, point, ofNat_eq lead (by omega), ofNat_eq second (by omega)]
  all_goals omega

private theorem encode_three {lead second third : UInt8} (length : tailLength lead = some 2)
    (good : isSecond lead second = true) (tail : isTail third = true) :
    utf8EncodeChar (assemble lead [second, third]) = [lead, second, third] := by
  have first := bounds_of_tailLength length
  have ⟨_, _, noOverlong, noSurrogate, _⟩ := bounds_of_isSecond good
  have ⟨_, _⟩ := bounds_of_isTail tail
  have point : (assemble lead [second, third]).toNat =
      (lead.toNat % 0x10 * 0x40 + second.toNat % 0x40) * 0x40 + third.toNat % 0x40 :=
    toNat_ofNat (by simp; omega)
  rcases utf8EncodeChar_cases (assemble lead [second, third]) with ⟨_, _⟩ | ⟨_, _, _⟩ |
    ⟨_, _, split⟩ | ⟨_, _⟩
  · omega
  · omega
  · rw [split, point, ofNat_eq lead (by omega), ofNat_eq second (by omega),
      ofNat_eq third (by omega)]
  · omega

private theorem encode_four {lead second third fourth : UInt8} (length : tailLength lead = some 3)
    (good : isSecond lead second = true) (tail : isTail third = true)
    (last : isTail fourth = true) :
    utf8EncodeChar (assemble lead [second, third, fourth]) = [lead, second, third, fourth] := by
  have first := bounds_of_tailLength length
  have ⟨_, _, _, _, noOverlong, notPast⟩ := bounds_of_isSecond good
  have ⟨_, _⟩ := bounds_of_isTail tail
  have ⟨_, _⟩ := bounds_of_isTail last
  have point : (assemble lead [second, third, fourth]).toNat =
      ((lead.toNat % 0x08 * 0x40 + second.toNat % 0x40) * 0x40 + third.toNat % 0x40) * 0x40 +
        fourth.toNat % 0x40 :=
    toNat_ofNat (by simp; omega)
  rcases utf8EncodeChar_cases (assemble lead [second, third, fourth]) with ⟨_, _⟩ | ⟨_, _, _⟩ |
    ⟨_, _, _⟩ | ⟨_, split⟩
  · omega
  · omega
  · omega
  · rw [split, point, ofNat_eq lead (by omega), ofNat_eq second (by omega),
      ofNat_eq third (by omega), ofNat_eq fourth (by omega)]

private theorem utf8EncodeChar_assemble {lead : UInt8} {want : Nat} {rest : List UInt8}
    (length : tailLength lead = some want) (all : goodTail lead want rest = want) :
    want ≤ rest.length ∧
      utf8EncodeChar (assemble lead (rest.take want)) = lead :: rest.take want := by
  cases want with
  | zero => exact ⟨Nat.zero_le _, encode_one length⟩
  | succ want =>
    obtain ⟨second, others, behind, rfl, rfl, good, tails⟩ := exists_tail_of_goodTail all
    have tail : (second :: (others ++ behind)).take (others.length + 1) = second :: others := by
      rw [List.take_succ_cons, List.take_left]
    rw [tail]
    refine ⟨by simp, ?_⟩
    match others with
    | [] => exact encode_two length good
    | [third] => exact encode_three length good (tails third (by simp))
    | [third, fourth] =>
      exact encode_four length good (tails third (by simp)) (tails fourth (by simp))
    | _ :: _ :: _ :: _ =>
      have few := bounds_of_tailLength length
      simp only [List.length_cons] at few
      omega

private theorem first_eq_char {lead : UInt8} {rest : List UInt8} {c : Char} {more : Nat}
    (read : first lead rest = .char c more) :
    more ≤ rest.length ∧ utf8EncodeChar c = lead :: rest.take more := by
  unfold first at read
  split at read
  · cases read
  · next want length =>
    simp only at read
    split at read
    · next all =>
      cases read
      exact utf8EncodeChar_assemble length all
    · split at read <;> cases read

private theorem eq_encode_of_scanFrom {index skip : Nat} {bytes : List UInt8} {text : List Char}
    (enough : skip ≤ bytes.length) (read : scanFrom index skip bytes = (text, none)) :
    bytes.drop skip = encode text := by
  induction bytes generalizing index skip text with
  | nil =>
    rw [scanFrom] at read
    cases read
    exact List.drop_nil
  | cons lead rest ih =>
    cases skip with
    | succ skip => exact ih (Nat.le_of_succ_le_succ enough) read
    | zero =>
      -- The first character takes its bytes, which reading skips, and the text goes on behind them.
      rw [scanFrom] at read
      split at read
      · next c more isFirst =>
        obtain ⟨fits, split⟩ := first_eq_char isFirst
        obtain ⟨rfl, ended⟩ := Prod.mk.injEq .. ▸ read
        have others : rest.drop more = encode (scanFrom (index + 1) more rest).1 :=
          ih fits (Prod.ext rfl ended)
        rw [encode_cons, split, ← others, List.cons_append, List.take_append_drop, List.drop_zero]
      · cases read
      · cases read

/-- Bytes decode to a text if they are those of the text, and only then. -/
theorem decode_eq_ok_iff {bytes : List UInt8} {text : List Char} :
    decode bytes = .ok text ↔ bytes = encode text := by
  constructor
  · intro decodes
    unfold decode at decodes
    split at decodes
    · next read =>
      cases decodes
      exact eq_encode_of_scanFrom (Nat.zero_le _) read
    · cases decodes
  · rintro rfl
    rw [decode, scanFrom_encode]

end DeferredDefaults.Text.Utf8
