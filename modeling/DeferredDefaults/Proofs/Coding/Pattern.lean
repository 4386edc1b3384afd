import DeferredDefaults.Proofs.Coding.Preface

/-!
The header of a line as a pattern. A pattern is matched by trying its ways in order of preference: a
greedy part takes as much as it can, a reluctant one as little, and both give way if what follows
does not match. The name that a line declares is what the last group of the first match takes.
-/

set_option autoImplicit false
set_option relaxedAutoImplicit false

namespace DeferredDefaults.Coding

namespace Pattern

inductive Item where
  /-- One character of a class. -/
  | one (holds : Char → Bool)
  /-- Characters of a class, as many as possible. -/
  | many (holds : Char → Bool)
  /-- Characters of a class, as few as possible. -/
  | few (holds : Char → Bool)

variable {α : Type} {holds : Char → Bool} {next : List Char → Option α}

/-- The first way of an item in front of which `next` succeeds on what is left. -/
def Item.first? (next : List Char → Option α) : Item → List Char → Option α
  | .one _, [] => none
  | .one holds, c :: rest => if holds c then next rest else none
  | .many _, [] => next []
  | .many holds, c :: rest =>
    if holds c then (Item.first? next (.many holds) rest).or (next (c :: rest))
    else next (c :: rest)
  | .few _, [] => next []
  | .few holds, c :: rest =>
    (next (c :: rest)).or (if holds c then Item.first? next (.few holds) rest else none)

def first? (items : List Item) (next : List Char → Option α) : List Char → Option α :=
  items.foldr (fun item next => item.first? next) next

def taken? (items : List Item) (text : List Char) : Option (List Char) :=
  first? items (fun rest => some (text.take (text.length - rest.length))) text

/-- What a group takes behind the items in front of it. -/
def capture? (front group : List Item) : List Char → Option (List Char) :=
  first? front (taken? group)

private theorem first?_many_of_none (stops : ∀ c rest, holds c = true → next (c :: rest) = none)
    (text : List Char) : (Item.many holds).first? next text = next (text.dropWhile holds) := by
  induction text with
  | nil => rfl
  | cons c rest ih =>
    rw [Item.first?, List.dropWhile_cons]
    split
    · next held => rw [ih, stops c rest held, Option.or_none]
    · rfl

private theorem first?_many_of_some (goesOn : ∀ text, (next text).isSome = true)
    (text : List Char) :
    (Item.many holds).first? next text = next (text.dropWhile holds) := by
  induction text with
  | nil => rfl
  | cons c rest ih =>
    rw [Item.first?, List.dropWhile_cons]
    split
    · rw [ih, Option.or_of_isSome (goesOn _)]
    · rfl

def word (letters : List Char) : List Item := letters.map fun c => .one (· == c)

private theorem first?_word (letters text : List Char) :
    first? (word letters) next text =
      if letters.isPrefixOf text then next (text.drop letters.length) else none := by
  induction letters generalizing text with
  | nil => rfl
  | cons c letters ih =>
    cases text with
    | nil => rfl
    | cons d rest =>
      have step : first? (word (c :: letters)) next (d :: rest) =
          if d == c then first? (word letters) next rest else none := rfl
      rw [step, ih, List.isPrefixOf_cons_cons, List.length_cons, List.drop_succ_cons, Bool.beq_comm]
      cases c == d <;> rfl

end Pattern

open Pattern

def isBlank (c : Char) : Bool := c == ' ' || c == '\t'

def isMark (c : Char) : Bool := c == ':' || c == '='

/-- A header up to its name: `[ \t\f]*#.*?coding[:=][ \t]*`. -/
def headerFront : List Item :=
  [.many isIndent, .one (· == '#'), .few inLine] ++ word "coding".toList ++
    [.one isMark, .many isBlank]

def headerName : List Item := [.one isNameChar, .many isNameChar]

private theorem taken?_headerName (text : List Char) :
    taken? headerName text =
      if text.takeWhile isNameChar = [] then none else some (text.takeWhile isNameChar) := by
  cases text with
  | nil => rfl
  | cons c rest =>
    have run : taken? headerName (c :: rest) =
        if isNameChar c then (Item.many isNameChar).first?
          (fun left => some ((c :: rest).take ((c :: rest).length - left.length))) rest
        else none := rfl
    rw [run, List.takeWhile_cons]
    split
    · rw [first?_many_of_some fun _ => rfl, if_neg (List.cons_ne_nil _ _)]
      have whole := List.takeWhile_append_dropWhile (p := isNameChar) (l := rest)
      have length := congrArg List.length whole
      rw [List.length_append] at length
      have size : (c :: rest).length - (rest.dropWhile isNameChar).length =
          (rest.takeWhile isNameChar).length + 1 := by
        rw [List.length_cons]
        omega
      have front := @List.take_left _ (rest.takeWhile isNameChar) (rest.dropWhile isNameChar)
      rw [whole] at front
      rw [size, List.take_succ_cons, front]
    · rw [if_pos rfl]

theorem isNameChar_of_isBlank {c : Char} (blank : isBlank c = true) : isNameChar c = false := by
  simp only [isBlank, Bool.or_eq_true, beq_iff_eq] at blank
  rcases blank with rfl | rfl <;> decide +kernel

private theorem first?_coding (text : List Char) :
    first? (word "coding".toList ++ [.one isMark, .many isBlank]) (taken? headerName) text =
      nameAt? text := by
  have behind (rest : List Char) : (Item.many isBlank).first? (taken? headerName) rest =
      taken? headerName (rest.dropWhile isBlank) := by
    refine first?_many_of_none (fun c rest blank => ?_) rest
    rw [taken?_headerName, List.takeWhile_cons, isNameChar_of_isBlank blank]
    rfl
  rw [first?, List.foldr_append]
  show first? (word "coding".toList) _ text = _
  rw [first?_word, nameAt?]
  split
  · cases text.drop "coding".toList.length with
    | nil => rfl
    | cons mark rest =>
      show (if isMark mark then (Item.many isBlank).first? (taken? headerName) rest else none) =
        if (mark = ':' ∨ mark = '=') ∧ (rest.dropWhile isBlank).takeWhile isNameChar ≠ [] then
          some ((rest.dropWhile isBlank).takeWhile isNameChar) else none
      rw [behind, taken?_headerName]
      by_cases isMark : mark = ':' ∨ mark = '='
      · by_cases empty : (rest.dropWhile isBlank).takeWhile isNameChar = []
        · simp [empty]
        · simp [empty, Coding.isMark, isMark]
      · simp [Coding.isMark, isMark]
  · rfl

private theorem first?_few {text : List Char} (inside : ∀ c ∈ text, inLine c = true) :
    (Item.few inLine).first? nameAt? text = firstName? text := by
  induction text with
  | nil => rfl
  | cons c rest ih =>
    rw [List.forall_mem_cons] at inside
    rw [Item.first?, inside.1, if_pos rfl, ih inside.2, firstName?]
    cases nameAt? (c :: rest) <;> rfl

/-- A line declares what the group of the pattern takes. -/
theorem lineName?_eq_capture? {line : List Char} (inside : ∀ c ∈ line, inLine c = true) :
    lineName? line = capture? headerFront headerName line := by
  have coding : first? (word "coding".toList ++ [.one isMark, .many isBlank])
      (taken? headerName) = nameAt? := funext first?_coding
  have split : capture? headerFront headerName line =
      (Item.many isIndent).first?
        ((Item.one (· == '#')).first? ((Item.few inLine).first? nameAt?)) line := by
    rw [← coding]
    rfl
  rw [split, first?_many_of_none, lineName?]
  · have rest : ∀ c ∈ line.dropWhile isIndent, inLine c = true :=
      fun c member => inside c ((List.dropWhile_sublist _).subset member)
    cases behind : line.dropWhile isIndent with
    | nil => rfl
    | cons c comment =>
      rw [behind, List.forall_mem_cons] at rest
      rw [Item.first?, first?_few rest.2]
      by_cases hash : c = '#'
      · rw [hash]; rfl
      · simp [hash]
  · intro c rest indent
    have noHash : (c == '#') = false := by
      simp only [isIndent, Bool.or_eq_true, beq_iff_eq] at indent
      rcases indent with (rfl | rfl) | rfl <;> rfl
    rw [Item.first?, noHash]
    rfl

end DeferredDefaults.Coding
