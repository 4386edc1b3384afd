import DeferredDefaults.Proofs.Token.Copy
import DeferredDefaults.Token.Layout
import DeferredDefaults.Token.SourceText

/-!
Gaps and places. Layout crosses a gap without a token: only its place and, at the start of a line,
its margin change. The writer puts a gap between two places: the indentation of the block, one
continuation for every row, and spaces up to the column.
-/

set_option autoImplicit false
set_option relaxedAutoImplicit false

namespace DeferredDefaults

namespace Position

/-- Rows compare first, then columns. -/
instance : LE Position := ⟨fun p q => p.row < q.row ∨ (p.row = q.row ∧ p.col ≤ q.col)⟩

theorem le_iff {p q : Position} : p ≤ q ↔ p.row < q.row ∨ (p.row = q.row ∧ p.col ≤ q.col) :=
  Iff.rfl

theorem not_lt_iff {p q : Position} : ¬ q < p ↔ p ≤ q := by
  rw [lt_iff, le_iff]
  omega

theorem le_refl (p : Position) : p ≤ p := .inr ⟨rfl, Nat.le_refl _⟩

theorem le_trans {p q r : Position} (first : p ≤ q) (second : q ≤ r) : p ≤ r := by
  rw [le_iff] at *
  omega

theorem ext_iff' {p q : Position} : p = q ↔ p.row = q.row ∧ p.col = q.col := by
  cases p
  cases q
  simp

theorem le_advance (p : Position) (text : List Char) : p ≤ p.advance text := by
  induction p, text using Position.advance.induct with
  | case1 p => exact le_refl p
  | case2 p rest ih =>
    rw [advance]
    refine le_trans ?_ ih
    simp [le_iff, nextRow]
  | case3 p c rest _ lineEnd ih =>
    rw [advance, if_pos lineEnd]
    · refine le_trans ?_ ih
      simp [le_iff, nextRow]
    · assumption
  | case4 p c rest _ noLineEnd ih =>
    rw [advance, if_neg noLineEnd]
    · refine le_trans ?_ ih
      simp [le_iff, right]
    · assumption

theorem advance_of_row {text : List Char} (row : ∀ c ∈ text, Lexeme.isLineEnd c = false)
    (p : Position) : p.advance text = p.right text.length := by
  induction text generalizing p with
  | nil => rfl
  | cons c rest ih =>
    rw [List.forall_mem_cons] at row
    have noLineEnd : ¬ (c = '\r' ∨ c = '\n') := by simpa [Lexeme.isLineEnd] using row.1
    rw [advance, if_neg noLineEnd, ih row.2]
    · rw [right, right, right, List.length_cons, Nat.add_assoc, Nat.add_comm 1]
    · rintro other rfl
      exact absurd (.inl rfl) noLineEnd

end Position

/-- The list does not end with a continuation. -/
def Lexeme.Finished (lexemes : List Lexeme) : Prop :=
  ∀ lexeme ∈ lexemes.getLast?, lexeme.kind ≠ .continuation

theorem Lexeme.finished_append_cons {front rest : List Lexeme} {lexeme : Lexeme} :
    Lexeme.Finished (front ++ lexeme :: rest) ↔
      (rest = [] → lexeme.kind ≠ .continuation) ∧ Lexeme.Finished rest := by
  unfold Lexeme.Finished
  cases rest with
  | nil => simp
  | cons next others => simp [List.getLast?_append, List.getLast?_cons]

namespace Layout

def pass (layout : Layout) (lexeme : Lexeme) : Layout :=
  match lexeme.kind with
  | .space =>
    { layout with
      margin :=
        if layout.atLineStart && layout.cursor.col == 0 then lexeme.text else layout.margin
      cursor := layout.cursor.right lexeme.text.length }
  | _ => { layout with cursor := layout.cursor.nextRow }

def cross (layout : Layout) (gap : List Lexeme) : Layout := gap.foldl pass layout

@[simp] theorem cross_nil (layout : Layout) : layout.cross [] = layout := rfl

@[simp] theorem cross_cons (layout : Layout) (lexeme : Lexeme) (gap : List Lexeme) :
    layout.cross (lexeme :: gap) = (layout.pass lexeme).cross gap := rfl

private theorem cross_append (layout : Layout) (front back : List Lexeme) :
    layout.cross (front ++ back) = (layout.cross front).cross back := List.foldl_append

theorem run_gap {gap : List Lexeme} (isGap : ∀ lexeme ∈ gap, lexeme.IsGap) (layout : Layout)
    (rest : List Lexeme) : layout.run (gap ++ rest) = (layout.cross gap).run rest := by
  induction gap generalizing layout with
  | nil => rfl
  | cons lexeme more ih =>
    rw [List.forall_mem_cons] at isGap
    rw [List.cons_append, run, cross_cons, ← ih isGap.2]
    have step : layout.step lexeme = .ok ([], layout.pass lexeme) := by
      rcases isGap.1.shape with ⟨kind, _⟩ | ⟨kind, _⟩ <;> simp only [Layout.step, pass, kind]
    rw [step]
    show ((layout.pass lexeme).run (more ++ rest)).bind _ = _
    cases (layout.pass lexeme).run (more ++ rest) <;> rfl

section Crossing

variable {gap : List Lexeme} (layout : Layout)

private theorem cross_unchanged : (layout.cross gap).depth = layout.depth ∧
    (layout.cross gap).blocks = layout.blocks ∧
    (layout.cross gap).atLineStart = layout.atLineStart ∧
    (layout.cross gap).lineHasCode = layout.lineHasCode := by
  induction gap generalizing layout with
  | nil => exact ⟨rfl, rfl, rfl, rfl⟩
  | cons lexeme rest ih =>
    obtain ⟨depth, blocks, atLineStart, lineHasCode⟩ := ih (layout.pass lexeme)
    rw [cross_cons, depth, blocks, atLineStart, lineHasCode]
    unfold pass
    split <;> exact ⟨rfl, rfl, rfl, rfl⟩

@[simp] theorem depth_cross : (layout.cross gap).depth = layout.depth :=
  (cross_unchanged layout).1

@[simp] theorem blocks_cross : (layout.cross gap).blocks = layout.blocks :=
  (cross_unchanged layout).2.1

@[simp] theorem atLineStart_cross : (layout.cross gap).atLineStart = layout.atLineStart :=
  (cross_unchanged layout).2.2.1

@[simp] theorem lineHasCode_cross : (layout.cross gap).lineHasCode = layout.lineHasCode :=
  (cross_unchanged layout).2.2.2

theorem cursor_cross (isGap : ∀ lexeme ∈ gap, lexeme.IsGap) :
    layout.cursor ≤ (layout.cross gap).cursor ∧
      ((layout.cross gap).cursor = layout.cursor ↔ gap = []) := by
  induction gap generalizing layout with
  | nil => exact ⟨Position.le_refl _, by simp⟩
  | cons lexeme rest ih =>
    rw [List.forall_mem_cons] at isGap
    obtain ⟨further, _⟩ := ih (layout.pass lexeme) isGap.2
    have moved : layout.cursor < (layout.pass lexeme).cursor := by
      rw [Position.lt_iff]
      rcases isGap.1.shape with ⟨kind, nonempty, _⟩ | ⟨kind, _⟩
      · have size : 0 < lexeme.text.length := List.length_pos_iff.2 nonempty
        simp only [pass, kind, Position.right]
        exact .inr ⟨trivial, by omega⟩
      · simp only [pass, kind, Position.nextRow]
        omega
    rw [cross_cons]
    rw [Position.lt_iff] at moved
    rw [Position.le_iff] at further ⊢
    constructor
    · omega
    · simp only [reduceCtorEq, iff_false, Position.ext_iff']
      omega

/-- A gap that leads to another row and does not end with a continuation goes on along that row. -/
theorem col_cross (isGap : ∀ lexeme ∈ gap, lexeme.IsGap) (finished : Lexeme.Finished gap)
    (later : layout.cursor.row < (layout.cross gap).cursor.row) :
    0 < (layout.cross gap).cursor.col := by
  rcases List.eq_nil_or_concat gap with rfl | ⟨front, last, rfl⟩
  · exact absurd later (Nat.lt_irrefl _)
  · rcases (isGap last (by simp)).shape with ⟨kind, nonempty, _⟩ | ⟨kind, _⟩
    · have size : 0 < last.text.length := List.length_pos_iff.2 nonempty
      rw [List.concat_eq_append, cross_append, cross_cons, cross_nil]
      simp only [pass, kind, Position.right]
      omega
    · exact absurd kind (finished last (by simp))

theorem margin_cross (isGap : ∀ lexeme ∈ gap, lexeme.IsGap)
    (spaces : layout.margin.all Lexeme.isSpace = true) :
    (layout.cross gap).margin.all Lexeme.isSpace = true := by
  induction gap generalizing layout with
  | nil => exact spaces
  | cons lexeme rest ih =>
    rw [List.forall_mem_cons] at isGap
    rw [cross_cons]
    apply ih _ isGap.2
    rcases isGap.1.shape with ⟨kind, _, allSpace⟩ | ⟨kind, _⟩
    · simp only [pass, kind]
      split
      · exact allSpace
      · exact spaces
    · simpa only [pass, kind] using spaces

end Crossing

end Layout

namespace Lexeme

def spaceOf (text : List Char) : List Lexeme := if text = [] then [] else [⟨.space, text⟩]

def padOf (indent : List Char) (rows columns : Nat) : List Lexeme :=
  if rows = 0 then spaceOf (indent ++ List.replicate columns ' ')
  else spaceOf indent ++ List.replicate rows ⟨.continuation, ['\\', '\n']⟩ ++
    spaceOf (List.replicate columns ' ')

theorem textOf_spaceOf (text : List Char) : textOf (spaceOf text) = text := by
  unfold spaceOf
  split
  · next empty => rw [empty]; rfl
  · simp

theorem textOf_padOf (indent : List Char) (rows columns : Nat) :
    textOf (padOf indent rows columns) =
      indent ++ ((List.replicate rows ['\\', '\n']).flatten ++ List.replicate columns ' ') := by
  unfold padOf
  split
  · next none =>
    rw [textOf_spaceOf, none]
    rfl
  · rw [textOf_append, textOf_append, textOf_spaceOf, textOf_spaceOf, List.append_assoc]
    rw [textOf, List.flatMap_replicate]

theorem padOf_eq_nil_iff (indent : List Char) (rows columns : Nat) :
    padOf indent rows columns = [] ↔ indent = [] ∧ rows = 0 ∧ columns = 0 := by
  have spaceNil : ∀ text : List Char, spaceOf text = [] ↔ text = [] := by
    intro text
    unfold spaceOf
    split <;> simp_all
  unfold padOf
  split
  · next none => simp [spaceNil, none]
  · next some => simp [spaceNil, some]

private theorem finished_spaceOf (text : List Char) : Finished (spaceOf text) := by
  unfold spaceOf
  split <;> simp [Finished]

/-- A gap that is written ends with a continuation only at the start of a row. -/
theorem finished_padOf {rows columns : Nat} (within : rows ≠ 0 → 0 < columns) :
    Finished (padOf [] rows columns) := by
  unfold padOf
  split
  · exact finished_spaceOf _
  · next some =>
    have width := within some
    have spaces : spaceOf (List.replicate columns ' ') = [⟨.space, List.replicate columns ' '⟩] :=
      if_neg (by simp; omega)
    rw [spaces, finished_append_cons]
    exact ⟨by simp, by simp [Finished]⟩

theorem isPad_spaceOf {text : List Char} (spaces : text.all isSpace = true) :
    Pad (spaceOf text) := by
  unfold spaceOf
  split
  · trivial
  · next nonempty =>
    exact ⟨⟨.inl ⟨rfl, nonempty, spaces⟩⟩, fun _ => rfl, nofun, trivial⟩

theorem isPad_padOf {indent : List Char} (spaces : indent.all isSpace = true)
    (rows columns : Nat) : Pad (padOf indent rows columns) := by
  have columnsSpace : (List.replicate columns ' ').all isSpace = true := by
    rw [List.all_replicate]
    split <;> rfl
  have down : ∀ rows, Pad (List.replicate rows ⟨.continuation, ['\\', '\n']⟩ ++
      spaceOf (List.replicate columns ' ')) := by
    intro rows
    induction rows with
    | zero => exact isPad_spaceOf columnsSpace
    | succ rows ih =>
      refine ⟨⟨.inr ⟨rfl, ['\n'], by simp [breaks], rfl⟩⟩, by rintro ⟨⟩, fun _ => rfl, ih⟩
  unfold padOf
  split
  · apply isPad_spaceOf
    rw [List.all_append, spaces, columnsSpace]
    rfl
  · next some =>
    unfold spaceOf
    split
    · exact down rows
    · next nonempty =>
      obtain ⟨others, rfl⟩ := Nat.exists_eq_succ_of_ne_zero some
      exact ⟨⟨.inl ⟨rfl, nonempty, spaces⟩⟩, fun _ => rfl, by rintro ⟨⟩, down _⟩

end Lexeme

namespace Layout

theorem cross_spaceOf (layout : Layout) (text : List Char) :
    layout.cross (Lexeme.spaceOf text) =
      { layout with
        margin :=
          if layout.atLineStart && layout.cursor.col == 0 && !text.isEmpty then text
          else layout.margin
        cursor := layout.cursor.right text.length } := by
  unfold Lexeme.spaceOf
  split
  · next empty =>
    subst empty
    simp [Position.right]
  · next nonempty => simp [pass, nonempty]

private theorem cross_continuations (layout : Layout) (rows : Nat) :
    layout.cross (List.replicate (rows + 1) ⟨.continuation, ['\\', '\n']⟩) =
      { layout with cursor := ⟨layout.cursor.row + rows + 1, 0⟩ } := by
  induction rows generalizing layout with
  | zero => rfl
  | succ rows ih =>
    rw [List.replicate_succ, cross_cons, ih]
    simp only [pass, Position.nextRow, mk.injEq, Position.mk.injEq, and_true]
    omega

theorem cursor_cross_padOf (layout : Layout) (indent : List Char) (rows columns : Nat) :
    (layout.cross (Lexeme.padOf indent rows columns)).cursor =
      if rows = 0 then layout.cursor.right (indent.length + columns)
      else ⟨layout.cursor.row + rows, columns⟩ := by
  unfold Lexeme.padOf
  split
  · rw [cross_spaceOf]
    simp
  · next some =>
    obtain ⟨others, rfl⟩ := Nat.exists_eq_succ_of_ne_zero some
    rw [cross_append, cross_append, cross_spaceOf, cross_continuations, cross_spaceOf]
    simp [Position.right]
    omega

/-- The margin behind a written gap at the start of a row. -/
theorem margin_cross_padOf {layout : Layout} (fresh : layout.atLineStart = true)
    (rowStart : layout.cursor.col = 0) (noMargin : layout.margin = []) {indent : List Char}
    {rows columns : Nat} (within : rows ≠ 0 → indent.length ≤ columns) :
    (layout.cross (Lexeme.padOf indent rows columns)).margin =
      if rows = 0 then indent ++ List.replicate columns ' ' else List.replicate columns ' ' := by
  unfold Lexeme.padOf
  split
  · rw [cross_spaceOf]
    by_cases empty : indent ++ List.replicate columns ' ' = []
    · simp [fresh, rowStart, noMargin, empty]
    · have some : (indent ++ List.replicate columns ' ').isEmpty = false := by
        rw [← Bool.not_eq_true, List.isEmpty_iff]
        exact empty
      simp only [fresh, rowStart, some, beq_self_eq_true, Bool.and_self, Bool.not_false, if_true]
  · next some =>
    obtain ⟨others, rfl⟩ := Nat.exists_eq_succ_of_ne_zero some
    rw [cross_append, cross_append, cross_spaceOf, cross_continuations, cross_spaceOf]
    cases columns with
    | zero =>
      have empty : indent = [] := List.eq_nil_of_length_eq_zero (Nat.le_zero.1 (within some))
      simp [noMargin, empty]
    | succ columns => simp [fresh, List.replicate_succ]

end Layout

end DeferredDefaults
