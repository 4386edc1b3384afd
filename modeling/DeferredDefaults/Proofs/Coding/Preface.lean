import DeferredDefaults.Coding
import DeferredDefaults.Proofs.Text.Encoding
import DeferredDefaults.Proofs.Token.Yield

/-!
The header of a source depends only on its preface: the comment and blank lines in front of the
code. Space in front of a comment does not matter, and neither does the code.
-/

set_option autoImplicit false
set_option relaxedAutoImplicit false

namespace DeferredDefaults

open Lexeme (isSpace isLineEnd IsCode)
open Text.Utf8 (encode)

/-- Every carriage return of the text stands in front of a line feed. -/
def Text.ReturnsPaired (text : List Char) : Prop :=
  ∀ rest, '\r' :: rest <:+ text → rest.head? = some '\n'

theorem Text.ReturnsPaired.suffix {text rest : List Char} (paired : ReturnsPaired text)
    (isSuffix : rest <:+ text) : ReturnsPaired rest :=
  fun others found => paired others (found.trans isSuffix)

namespace Coding

def inLine (c : Char) : Bool := c != '\n'

def isFillerChar (c : Char) : Bool := c == ' ' || c == '\t' || c == '\x0c' || c == '\r'

private theorem bytesName?_encode (line : List Char) :
    bytesName? (encode line) = (lineName? line).map String.ofList := by
  rw [bytesName?, Text.Utf8.readable_encode]

private theorem beq_of_mem {c : Char} {byte : UInt8} (member : byte ∈ String.utf8EncodeChar c)
    (ascii : Char) (small : ascii.toNat < 0x80) :
    (byte == UInt8.ofNat ascii.toNat) = (c == ascii) := by
  have code : (UInt8.ofNat ascii.toNat).toNat = ascii.toNat := by
    rw [UInt8.toNat_ofNat']
    omega
  rw [Bool.eq_iff_iff, beq_iff_eq, beq_iff_eq, ← UInt8.toNat_inj, ← Char.toNat_inj, code]
  exact Text.Utf8.toNat_eq_iff_of_mem member small

private theorem inLine_of_mem (c : Char) : ∀ byte ∈ String.utf8EncodeChar c,
    (!isLineFeed byte) = inLine c :=
  fun _ member => congrArg not (beq_of_mem member '\n' (by decide))

private theorem isFiller_of_mem (c : Char) : ∀ byte ∈ String.utf8EncodeChar c,
    isFiller byte = isFillerChar c := by
  intro byte member
  have same := beq_of_mem member
  rw [isFillerChar, ← same ' ' (by decide), ← same '\t' (by decide), ← same '\x0c' (by decide),
    ← same '\r' (by decide)]
  rfl

private theorem firstLine_encode (text : List Char) :
    firstLine (encode text) = encode (text.takeWhile inLine) :=
  Text.Utf8.takeWhile_encode inLine_of_mem text

private theorem behindFirstLine?_encode (text : List Char) :
    behindFirstLine? (encode text) = match text.dropWhile inLine with
      | [] => none
      | _ :: rest => some (encode rest) := by
  rw [behindFirstLine?, Text.Utf8.dropWhile_encode inLine_of_mem]
  cases behind : text.dropWhile inLine with
  | nil => rfl
  | cons c rest =>
    have feed : c = '\n' := by
      have stops := List.head_dropWhile_not inLine (l := text) (by simp [behind])
      simpa [behind, inLine] using stops
    rw [feed, Text.Utf8.encode_cons]
    rfl

private theorem lacksCode_encode (line : List Char) :
    lacksCode (encode line) = (line.dropWhile isFillerChar).head?.all (· == '#') := by
  rw [lacksCode, Text.Utf8.dropWhile_encode isFiller_of_mem]
  cases line.dropWhile isFillerChar with
  | nil => rfl
  | cons c rest =>
    obtain ⟨lead, tail, split, -⟩ := Text.Utf8.first_utf8EncodeChar c []
    rw [Text.Utf8.encode_cons, split, List.head?_cons, Option.all_some,
      ← beq_of_mem (by rw [split]; exact List.mem_cons_self : lead ∈ String.utf8EncodeChar c) '#'
        (by decide)]
    rfl

/-- What stands on a line in front of its end: nothing, or a comment. -/
structure IsNote (note : List Char) : Prop where
  hash : ∀ c ∈ note.head?, c = '#'
  row : ∀ c ∈ note, isLineEnd c = false

def IsReturn (text : List Char) : Prop := text = [] ∨ text = ['\r']

def Begins (text : List Char) : Prop :=
  ∀ c ∈ text.head?, isSpace c = false ∧ isLineEnd c = false ∧ c ≠ '#'

theorem IsNote.nil : IsNote [] where
  hash := by
    rintro c ⟨⟩
  row := List.forall_mem_nil _

theorem Begins.nil : Begins [] := by
  rintro c ⟨⟩

theorem Begins.append {text : List Char} (begins : Begins text) (nonempty : text ≠ [])
    (rest : List Char) : Begins (text ++ rest) := by
  obtain ⟨c, more, rfl⟩ := List.exists_cons_of_ne_nil nonempty
  exact begins

theorem begins_of_isCode {text : List Char} (isCode : IsCode text) : Begins text := by
  rintro c first
  obtain ⟨rest, rfl⟩ := List.head?_eq_some_iff.1 first
  obtain ⟨noSpace, noEnd, noComment, -⟩ := (Lexeme.isCode_cons_iff c rest).1 isCode
  exact ⟨noSpace, noEnd, noComment⟩

/-- A text is a preface and the code behind it. The preface is given by its lines, without the space
in front of them and the line feeds behind them. -/
inductive Prefaced : (lines : List (List Char)) → (text code : List Char) → Prop
  | code {space code : List Char} : space.all isSpace = true → Begins code →
      Prefaced [] (space ++ code) code
  | line {space note ending : List Char} {lines : List (List Char)} {text code : List Char} :
      space.all isSpace = true → IsNote note → IsReturn ending → Prefaced lines text code →
      Prefaced ((note ++ ending) :: lines) (space ++ (note ++ ending) ++ '\n' :: text) code
  | last {space note : List Char} : space.all isSpace = true → IsNote note → note ≠ [] →
      Prefaced [note] (space ++ note) []

def declared : List (List Char) → Option (List Char)
  | [] => none
  | first :: rest => match lineName? first with
    | some name => some name
    | none => rest.head?.bind lineName?

section Lines

variable {space : List Char} (spaces : space.all isSpace = true)
include spaces

private theorem inLine_of_spaces : ∀ c ∈ space, inLine c = true := by
  intro c member
  have isSpace := List.all_eq_true.1 spaces c member
  simp only [Lexeme.isSpace, Bool.or_eq_true, beq_iff_eq] at isSpace
  rcases isSpace with (rfl | rfl) | rfl <;> rfl

private theorem lineName?_append (line : List Char) :
    lineName? (space ++ line) = lineName? line := by
  have indent : ∀ c ∈ space, isIndent c = true := List.all_eq_true.1 spaces
  rw [lineName?, List.dropWhile_append_of_pos indent, lineName?]

private theorem dropWhile_isFillerChar (line : List Char) :
    (space ++ line).dropWhile isFillerChar = line.dropWhile isFillerChar := by
  refine List.dropWhile_append_of_pos fun c member => ?_
  have isSpace := List.all_eq_true.1 spaces c member
  simp only [Lexeme.isSpace, Bool.or_eq_true, beq_iff_eq] at isSpace
  rcases isSpace with (rfl | rfl) | rfl <;> rfl

end Lines

private theorem Begins.takeWhile {code : List Char} (begins : Begins code) :
    Begins (code.takeWhile inLine) := by
  intro c first
  refine begins c ?_
  cases code with
  | nil => exact first
  | cons d rest =>
    rw [List.takeWhile_cons] at first
    split at first
    · exact first
    · nomatch first

private theorem lineName?_of_begins {line : List Char} (begins : Begins line) :
    lineName? line = none := by
  cases line with
  | nil => rfl
  | cons c rest =>
    obtain ⟨noSpace, -, noComment⟩ := begins c rfl
    have noIndent : isIndent c = false := noSpace
    rw [lineName?, List.dropWhile_cons, noIndent]
    simp [noComment]

private theorem Begins.lacksCode {code : List Char} (begins : Begins code) (some : code ≠ []) :
    (code.dropWhile isFillerChar).head?.all (· == '#') = false := by
  obtain ⟨c, rest, rfl⟩ := List.exists_cons_of_ne_nil some
  obtain ⟨noSpace, noEnd, noComment⟩ := begins c rfl
  have noFiller : isFillerChar c = false := by
    simp only [isSpace, isLineEnd, Bool.or_eq_false_iff] at noSpace noEnd
    simp [isFillerChar, noSpace, noEnd]
  simp [noFiller, noComment]

private theorem IsNote.lacksCode {note : List Char} (isNote : IsNote note) {ending : List Char}
    (isReturn : IsReturn ending) :
    ((note ++ ending).dropWhile isFillerChar).head?.all (· == '#') = true := by
  cases note with
  | nil => rcases isReturn with rfl | rfl <;> rfl
  | cons c rest =>
    rw [isNote.hash c rfl]
    rfl

private theorem IsNote.inLine {note : List Char} (isNote : IsNote note) {ending : List Char}
    (isReturn : IsReturn ending) : ∀ c ∈ note ++ ending, inLine c = true := by
  intro c member
  rcases List.mem_append.1 member with member | member
  · have row := isNote.row c member
    rw [Coding.inLine, bne_iff_ne]
    rintro rfl
    cases row
  · rcases isReturn with rfl | rfl
    · cases member
    · rw [List.mem_singleton.1 member]
      rfl

/-- What the first line of a text declares, and what is behind it. -/
theorem declaration?_encode (text : List Char) : declaration? (encode text) =
    (match lineName? (text.takeWhile inLine) with
      | some name => some name
      | none =>
        if ((text.takeWhile inLine).dropWhile isFillerChar).head?.all (· == '#') then
          match text.dropWhile inLine with
          | [] => none
          | _ :: rest => lineName? (rest.takeWhile inLine)
        else none).map String.ofList := by
  rw [declaration?, firstLine_encode, bytesName?_encode, lacksCode_encode, behindFirstLine?_encode]
  cases lineName? (text.takeWhile inLine) with
  | some name => rfl
  | none =>
    simp only [Option.map_none]
    split
    · cases text.dropWhile inLine with
      | nil => rfl
      | cons c rest =>
        simp only [Option.bind_some]
        rw [firstLine_encode, bytesName?_encode]
    · rfl

private theorem takeWhile_inLine {line : List Char} (inside : ∀ c ∈ line, inLine c = true)
    (rest : List Char) :
    (line ++ '\n' :: rest).takeWhile inLine = line ∧
      (line ++ '\n' :: rest).dropWhile inLine = '\n' :: rest := by
  rw [List.takeWhile_append_of_pos inside, List.dropWhile_append_of_pos inside]
  exact ⟨List.append_nil line, rfl⟩

private theorem IsNote.inLine_spaced {space note ending : List Char}
    (spaces : space.all isSpace = true) (isNote : IsNote note) (isReturn : IsReturn ending) :
    ∀ c ∈ space ++ (note ++ ending), Coding.inLine c = true :=
  List.forall_mem_append.2 ⟨inLine_of_spaces spaces, isNote.inLine isReturn⟩

variable {lines : List (List Char)} {text code : List Char}

private theorem lineName?_of_prefaced (prefaced : Prefaced lines text code) :
    lineName? (text.takeWhile inLine) = lines.head?.bind lineName? := by
  cases prefaced with
  | code spaces begins =>
    rw [List.takeWhile_append_of_pos (inLine_of_spaces spaces), lineName?_append spaces,
      lineName?_of_begins begins.takeWhile]
    rfl
  | line spaces isNote isReturn _ =>
    rw [(takeWhile_inLine (isNote.inLine_spaced spaces isReturn) _).1, lineName?_append spaces]
    rfl
  | last spaces isNote _ =>
    have inside := isNote.inLine_spaced spaces (.inl rfl : IsReturn [])
    rw [List.append_nil] at inside
    rw [List.takeWhile_eq_self_iff.2 inside, lineName?_append spaces]
    rfl

/-- The header of a text is that of its preface. -/
theorem declaration?_of_prefaced (prefaced : Prefaced lines text code) :
    declaration? (encode text) = (declared lines).map String.ofList := by
  have first := lineName?_of_prefaced prefaced
  rw [declaration?_encode, first]
  congr 1
  cases prefaced with
  | @code space code spaces begins =>
    rw [List.takeWhile_append_of_pos (inLine_of_spaces spaces),
      List.dropWhile_append_of_pos (inLine_of_spaces spaces), dropWhile_isFillerChar spaces]
    cases code with
    | nil => rfl
    | cons c rest =>
      have noEnd := (begins c rfl).2.1
      have inside : inLine c = true := by
        rw [inLine, bne_iff_ne]
        rintro rfl
        cases noEnd
      have some : (c :: rest).takeWhile inLine ≠ [] := by simp [inside]
      simp only [begins.takeWhile.lacksCode some]
      rfl
  | line spaces isNote isReturn others =>
    obtain ⟨front, back⟩ := takeWhile_inLine (isNote.inLine_spaced spaces isReturn) _
    rw [front, back, dropWhile_isFillerChar spaces, isNote.lacksCode isReturn]
    simp only [if_true, lineName?_of_prefaced others]
    rfl
  | last spaces isNote _ =>
    have inside := isNote.inLine_spaced spaces (.inl rfl : IsReturn [])
    rw [List.append_nil] at inside
    rw [List.dropWhile_eq_nil_iff.2 inside]
    simp only [ite_self]
    rfl

end Coding

end DeferredDefaults
