import DeferredDefaults.Proofs.Coding.Pattern

/-!
Where a header stands. A line declares the name behind the earliest `coding` in its comment that has
one. A source declares what its first line does, or what its second line does if the first one
declares nothing and has no code.
-/

set_option autoImplicit false
set_option relaxedAutoImplicit false

namespace DeferredDefaults.Coding

open Text.Utf8 (encode)

/-- The text begins with `coding`, a colon or an equals sign, blanks, and the name, which goes as far
as it can. -/
def NamedAt (text name : List Char) : Prop :=
  ∃ mark blanks rest, text = "coding".toList ++ mark :: (blanks ++ (name ++ rest)) ∧
    isMark mark = true ∧ (∀ c ∈ blanks, isBlank c = true) ∧
    name ≠ [] ∧ (∀ c ∈ name, isNameChar c = true) ∧ ∀ c ∈ rest.head?, isNameChar c = false

/-- The line has a comment behind spaces, tabs and form feeds, and the name stands at the earliest
place of the comment that has one. -/
def Declares (line name : List Char) : Prop :=
  ∃ indent front here, line = indent ++ '#' :: (front ++ here) ∧
    (∀ c ∈ indent, isIndent c = true) ∧ NamedAt here name ∧
    ∀ before behind other, front ++ here = before ++ behind → NamedAt behind other →
      front.length ≤ before.length

/-- What stands in front of the first `#` of the line, or on the whole line if it has none, is space. -/
def Blank (line : List Char) : Prop := ∀ c ∈ line.takeWhile (· != '#'), isFillerChar c = true

/-- The lines declare a name: the first, or the second below a first one that declares nothing and
has no code. -/
def HeadedBy : (lines : List (List Char)) → (name : List Char) → Prop
  | [], _ => False
  | first :: others, name => Declares first name ∨
      (∀ other, ¬ Declares first other) ∧ Blank first ∧ ∃ second ∈ others.head?, Declares second name

private theorem isMark_iff (c : Char) : isMark c = true ↔ c = ':' ∨ c = '=' := by
  simp [isMark]

private theorem takeWhile_run {holds : Char → Bool} {run rest : List Char}
    (held : ∀ c ∈ run, holds c = true) (stops : ∀ c ∈ rest.head?, holds c = false) :
    (run ++ rest).takeWhile holds = run ∧ (run ++ rest).dropWhile holds = rest := by
  rw [List.takeWhile_append_of_pos held, List.dropWhile_append_of_pos held]
  cases rest with
  | nil => exact ⟨List.append_nil run, rfl⟩
  | cons c rest =>
    have stop := stops c rfl
    rw [List.takeWhile_cons, List.dropWhile_cons, stop]
    exact ⟨List.append_nil run, rfl⟩

private theorem nameAt?_eq_some_iff {text name : List Char} :
    nameAt? text = some name ↔ NamedAt text name := by
  constructor
  · intro found
    rw [nameAt?] at found
    split at found
    · next begins =>
      obtain ⟨behind, rfl⟩ := List.isPrefixOf_iff_prefix.1 begins
      rw [List.drop_left] at found
      cases behind with
      | nil => cases found
      | cons mark rest =>
        simp only at found
        split at found
        · next named =>
          cases found
          refine ⟨mark, rest.takeWhile isBlank, (rest.dropWhile isBlank).dropWhile isNameChar, ?_,
            (isMark_iff mark).2 named.1, fun c member => List.mem_takeWhile_imp member, named.2,
            fun c member => List.mem_takeWhile_imp member, fun c first => ?_⟩
          · change _ = "coding".toList ++ mark :: (_ ++
              ((rest.dropWhile isBlank).takeWhile isNameChar ++ _))
            rw [List.takeWhile_append_dropWhile, List.takeWhile_append_dropWhile]
          · have stops := List.head?_dropWhile_not isNameChar (rest.dropWhile isBlank)
            rw [first] at stops
            exact stops
        · cases found
    · cases found
  · rintro ⟨mark, blanks, rest, rfl, marks, allBlank, some, allName, stops⟩
    have blank : ∀ c ∈ (name ++ rest).head?, isBlank c = false := by
      intro c first
      obtain ⟨d, others, rfl⟩ := List.exists_cons_of_ne_nil some
      cases first
      rw [← Bool.not_eq_true]
      intro blank
      have noName := isNameChar_of_isBlank blank
      rw [allName c List.mem_cons_self] at noName
      cases noName
    rw [nameAt?, if_pos (List.isPrefixOf_iff_prefix.2 (List.prefix_append _ _)), List.drop_left]
    have skipped : (blanks ++ (name ++ rest)).dropWhile isBlank = name ++ rest :=
      (takeWhile_run allBlank blank).2
    have taken := (takeWhile_run allName stops).1
    show (if (mark = ':' ∨ mark = '=') ∧
        ((blanks ++ (name ++ rest)).dropWhile isBlank).takeWhile isNameChar ≠ [] then
        Option.some (((blanks ++ (name ++ rest)).dropWhile isBlank).takeWhile isNameChar)
      else none) = _
    rw [skipped, taken, if_pos ⟨(isMark_iff mark).1 marks, some⟩]

private theorem firstName?_eq_some_iff {text name : List Char} :
    firstName? text = some name ↔ ∃ front here, text = front ++ here ∧
      nameAt? here = some name ∧ ∀ before behind other, text = before ++ behind →
        nameAt? behind = some other → front.length ≤ before.length := by
  induction text with
  | nil =>
    refine ⟨nofun, ?_⟩
    rintro ⟨front, here, split, found, -⟩
    obtain ⟨rfl, rfl⟩ := List.append_eq_nil_iff.1 split.symm
    cases found
  | cons c rest ih =>
    rw [firstName?]
    cases named : nameAt? (c :: rest) with
    | some other =>
      constructor
      · rintro ⟨⟩
        exact ⟨[], c :: rest, rfl, named, fun _ _ _ _ _ => Nat.zero_le _⟩
      · rintro ⟨front, here, split, found, earliest⟩
        have none := earliest [] _ _ rfl named
        obtain rfl := List.eq_nil_of_length_eq_zero (Nat.le_zero.1 none)
        rw [List.nil_append] at split
        rw [← split, named] at found
        exact found
    | none =>
      rw [ih]
      constructor
      · rintro ⟨front, here, rfl, found, earliest⟩
        refine ⟨c :: front, here, rfl, found, fun before behind other split found => ?_⟩
        cases before with
        | nil =>
          rw [List.nil_append] at split
          rw [← split, named] at found
          cases found
        | cons d before =>
          rw [List.cons_append, List.cons.injEq] at split
          exact Nat.succ_le_succ (earliest before behind other split.2 found)
      · rintro ⟨front, here, split, found, earliest⟩
        cases front with
        | nil =>
          rw [List.nil_append] at split
          rw [← split, named] at found
          cases found
        | cons d front =>
          rw [List.cons_append, List.cons.injEq] at split
          refine ⟨front, here, split.2, found, fun before behind other split found => ?_⟩
          have shorter := earliest (c :: before) behind other (by rw [split]; rfl) found
          exact Nat.le_of_succ_le_succ shorter

private theorem lineName?_eq_some_iff {line name : List Char} :
    lineName? line = some name ↔ Declares line name := by
  have noIndent : isIndent '#' = false := rfl
  constructor
  · intro found
    rw [lineName?] at found
    split at found
    · next comment behind =>
      obtain ⟨front, here, rfl, named, earliest⟩ := firstName?_eq_some_iff.1 found
      refine ⟨line.takeWhile isIndent, front, here, ?_,
        fun c member => List.mem_takeWhile_imp member, nameAt?_eq_some_iff.1 named,
        fun before behind other split found =>
          earliest before behind other split (nameAt?_eq_some_iff.2 found)⟩
      rw [← behind, List.takeWhile_append_dropWhile]
    · cases found
  · rintro ⟨indent, front, here, rfl, spaces, named, earliest⟩
    have behind : (indent ++ '#' :: (front ++ here)).dropWhile isIndent = '#' :: (front ++ here) :=
      (takeWhile_run spaces (by rintro c ⟨⟩; rfl)).2
    rw [lineName?, behind]
    exact firstName?_eq_some_iff.2 ⟨front, here, rfl, nameAt?_eq_some_iff.2 named,
      fun before behind other split found =>
        earliest before behind other split (nameAt?_eq_some_iff.1 found)⟩

private theorem lineName?_eq_none_iff {line : List Char} :
    lineName? line = none ↔ ∀ name, ¬ Declares line name := by
  rw [Option.eq_none_iff_forall_ne_some]
  exact forall_congr' fun name => not_congr lineName?_eq_some_iff

private theorem blank_iff (line : List Char) :
    (line.dropWhile isFillerChar).head?.all (· == '#') = true ↔ Blank line := by
  induction line with
  | nil => exact ⟨fun _ => List.forall_mem_nil _, fun _ => rfl⟩
  | cons c rest ih =>
    rw [Blank, List.dropWhile_cons, List.takeWhile_cons]
    by_cases hash : c = '#'
    · subst hash
      exact ⟨fun _ => List.forall_mem_nil _, fun _ => rfl⟩
    · have noHash : (c != '#') = true := bne_iff_ne.2 hash
      rw [noHash, if_pos rfl, List.forall_mem_cons]
      cases filler : isFillerChar c with
      | true =>
        rw [if_pos rfl, ih]
        exact (and_iff_right rfl).symm
      | false => simp [hash]

private theorem splitOn_lines (text : List Char) :
    text.splitOn '\n' = text.takeWhile inLine :: match text.dropWhile inLine with
      | [] => []
      | _ :: rest => rest.splitOn '\n' := by
  have inside : '\n' ∉ text.takeWhile inLine := fun member => by
    cases List.mem_takeWhile_imp member
  have whole := List.takeWhile_append_dropWhile (p := inLine) (l := text)
  cases behind : text.dropWhile inLine with
  | nil =>
    rw [behind, List.append_nil] at whole
    rw [whole] at inside ⊢
    exact List.splitOn_eq_singleton inside
  | cons c rest =>
    have feed : c = '\n' := by
      have stops := List.head?_dropWhile_not inLine text
      rw [behind] at stops
      simpa [inLine] using stops
    have split := List.splitOn_append_cons_self_of_not_mem inside rest
    rw [behind, feed] at whole
    rwa [whole] at split

private theorem declaration?_eq_some_iff {text name : List Char} :
    declaration? (encode text) = some (String.ofList name) ↔
      HeadedBy (text.splitOn '\n') name := by
  have same (found : Option (List Char)) :
      found.map String.ofList = some (String.ofList name) ↔ found = some name := by
    cases found <;> simp [String.ofList_inj]
  rw [declaration?_encode, same, splitOn_lines, HeadedBy, ← lineName?_eq_some_iff,
    ← lineName?_eq_none_iff, ← blank_iff]
  cases lineName? (text.takeWhile inLine) with
  | some other => simp
  | none =>
    cases ((text.takeWhile inLine).dropWhile isFillerChar).head?.all (· == '#') with
    | false => simp
    | true =>
      cases text.dropWhile inLine with
      | nil => simp
      | cons c rest => simp [splitOn_lines rest, lineName?_eq_some_iff]

/-- A source declares a name exactly if its first two lines do, and a line declares exactly what the
first match of the pattern of a header takes. -/
theorem declaration?_iff (text : String) :
    (∀ name, declaration? text.toUTF8.data.toList = some name ↔
      HeadedBy (text.toList.splitOn '\n') name.toList) ∧
    (declaration? text.toUTF8.data.toList = none ↔
      ∀ name, ¬ HeadedBy (text.toList.splitOn '\n') name) ∧
    ∀ line, '\n' ∉ line → ∀ name, Declares line name ↔
      Pattern.capture? headerFront headerName line = some name := by
  have headed (name : List Char) := @declaration?_eq_some_iff text.toList name
  rw [Text.Utf8.toUTF8_eq]
  refine ⟨fun name => ?_, ?_, fun line inside name => ?_⟩
  · rw [← headed, String.ofList_toList]
  · rw [Option.eq_none_iff_forall_ne_some]
    refine ⟨fun none name declares => none _ ((headed name).2 declares), fun none name found => ?_⟩
    refine none name.toList ((headed name.toList).1 ?_)
    rwa [String.ofList_toList]
  · rw [← lineName?_eq_capture? fun c member => bne_iff_ne.2 fun feed => inside (feed ▸ member),
      lineName?_eq_some_iff]

/-- A line that says `coding` three times: without a mark, without a name, and with both. -/
def codingLine : String := "\x0c# codingcoding= : coding:\tlatin-1.é; coding=b"

/-- The name is that of the third place, up to the semicolon, also below a line of blanks. -/
theorem declaration?_iff_coding :
    HeadedBy (("\x0c\t\r\n" ++ codingLine ++ "\n").toList.splitOn '\n') "latin-1.é".toList ∧
      Declares codingLine.toList "latin-1.é".toList := by
  obtain ⟨declares, -, captures⟩ := declaration?_iff ("\x0c\t\r\n" ++ codingLine ++ "\n")
  refine ⟨(declares "latin-1.é").1 (by decide +kernel), ?_⟩
  exact (captures codingLine.toList (by decide +kernel) _).2 (by decide +kernel)

end DeferredDefaults.Coding
