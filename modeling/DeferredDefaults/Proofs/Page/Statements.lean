import DeferredDefaults.Proofs.Page.Placement

/-!
Printing statements at two places. Every statement begins on a line of its own, so that only the
distances within its lines matter. A run of trivia keeps the place behind it if it does not end its
row; then no other trivia may follow.
-/

set_option autoImplicit false
set_option relaxedAutoImplicit false

namespace DeferredDefaults

def EndsRow (tokens : List Token) : Prop := ∀ last ∈ tokens.getLast?, last.isBreak = true

namespace Seam

def lineAt (pair : Token × Token) : Seam := ⟨true, false, some (pair.1.start, pair.2.start)⟩

/-- A line that is printed: behind its first token the others stand at the same distances. -/
def PrintsLine : List (Token × Token) → Prop
  | [] => False
  | first :: rest => (lineAt first).Prints (first :: rest)

def behindLine : List (Token × Token) → Seam
  | [] => start
  | first :: rest => (lineAt first).behind (first :: rest)

theorem after_eq (seam : Seam) {pair : Token × Token} (noLayout : pair.1.isLayout = false) :
    seam.after pair =
      ⟨(seam.line || pair.1.isSignificant) && pair.1.kind != .newline,
        pair.1.isBreak || (seam.line && seam.flush && pair.1.isOp ","),
        if pair.1.isBreak then none else some (pair.1.stop, pair.2.stop)⟩ := by
  rw [after, noLayout]
  rfl

private theorem prints_of_flush {seam other : Seam} {pairs : List (Token × Token)}
    (prints : seam.Prints pairs) (line : seam.line = true → other.line = true)
    (last : other.last = seam.last) (flush : other.flush = true → seam.flush = true) :
    other.Prints pairs := by
  induction pairs generalizing seam other with
  | nil => trivial
  | cons pair rest ih =>
    obtain ⟨⟨noLayout, comma, fits⟩, others⟩ := prints
    refine ⟨⟨noLayout, fun isComma => line (comma isComma), ?_, ?_⟩, ih others ?_ ?_ ?_⟩
    · exact fun isFlush => fits.level (flush isFlush)
    · rw [last]
      exact fits.follows
    · simp only [after_eq _ noLayout, Bool.and_eq_true, Bool.or_eq_true]
      exact fun begun => ⟨begun.1.imp_left line, begun.2⟩
    · simp only [after_eq _ noLayout]
    · simp only [after_eq _ noLayout, Bool.or_eq_true, Bool.and_eq_true]
      rintro (isBreak | ⟨⟨_, isFlush⟩, isComma⟩)
      · exact .inl isBreak
      · exact .inr ⟨⟨comma isComma, flush isFlush⟩, isComma⟩

theorem admits_lineAt {pair : Token × Token} (noLayout : pair.1.isLayout = false) :
    (lineAt pair).Admits pair := by
  refine ⟨noLayout, fun _ => rfl, nofun, ?_⟩
  rintro last found
  cases found
  rw [SourceText.gap_self, SourceText.gap_self]

theorem printsLine_of_prints {seam : Seam} {pairs : List (Token × Token)}
    (prints : seam.Prints pairs) (some : pairs ≠ []) : PrintsLine pairs := by
  cases pairs with
  | nil => exact some rfl
  | cons first rest =>
    obtain ⟨⟨noLayout, comma, fits⟩, others⟩ := prints
    refine ⟨admits_lineAt noLayout, prints_of_flush others ?_ ?_ ?_⟩
    · simp only [after_eq _ noLayout, lineAt, Bool.and_eq_true, Bool.or_eq_true]
      exact fun begun => ⟨.inl trivial, begun.2⟩
    · simp only [after_eq _ noLayout]
    · simp only [after_eq _ noLayout, lineAt, Bool.or_eq_true, Bool.and_eq_true]
      rintro (isBreak | ⟨⟨_, isFlush⟩, _⟩)
      · exact .inl isBreak
      · cases isFlush

theorem printsLine_append {front back : List (Token × Token)} (some : front ≠ []) :
    PrintsLine (front ++ back) ↔ PrintsLine front ∧ (behindLine front).Prints back := by
  cases front with
  | nil => exact absurd rfl some
  | cons first rest =>
    show (lineAt first).Prints (first :: rest ++ back) ↔ _
    exact prints_append

theorem behindLine_append {front : List (Token × Token)} (some : front ≠ [])
    (back : List (Token × Token)) :
    behindLine (front ++ back) = (behindLine front).behind back := by
  cases front with
  | nil => exact absurd rfl some
  | cons first rest => exact behind_append _ _ _

end Seam

section Places

variable (here there : Token → Token)

structure Header.Prints (header : Header) : Prop where
  begins : header.head ≠ []
  whole : ∀ item ∈ header.parameters.items, item.Whole
  line : Seam.PrintsLine (header.tokens.map (Page.both here there))

/-- The line can be printed behind the header, or as a line of its own. -/
structure Header.PrintsSuite (header : Header) (line : List Token) : Prop where
  behind : (Seam.behindLine (header.tokens.map (Page.both here there))).Prints
    (line.map (Page.both here there))
  alone : Seam.PrintsLine (line.map (Page.both here there))
  ends : EndsRow line

/-- The trivia between a header and its block can be printed. -/
structure Margin.Prints (margin : Margin) : Prop where
  leading : Seam.start.Prints (margin.leading.map (Page.both here there))
  ends : EndsRow margin.leading

mutual

def Stmt.Closed : Stmt → Prop
  | .trivia tokens => EndsRow tokens
  | .compound _ _ body => BodyClosed body
  | .function _ _ body => BodyClosed body
  | .simple _ | .inlineFunction _ _ | .prologue _ | .runtimeImport => True

def BodyClosed : List Stmt → Prop
  | [] => True
  | stmt :: rest => stmt.Closed ∧ BodyClosed rest

end

mutual

def Stmt.Prints : Stmt → Prop
  | .trivia tokens => Seam.start.Prints (tokens.map (Page.both here there))
  | .simple line => Seam.PrintsLine (line.map (Page.both here there)) ∧ EndsRow line
  | .compound first margin body =>
    (Seam.PrintsLine (first.map (Page.both here there)) ∧ EndsRow first) ∧
      margin.Prints here there ∧ BodyPrints body
  | .function first margin body =>
    first.Prints here there ∧ margin.Prints here there ∧
      (match margin.indent with
        | some _ => first.tail ≠ [] ∧ EndsRow first.tail
        | none => ∀ line, .simple line ∈ body → first.PrintsSuite here there line) ∧
      BodyPrints body
  | .inlineFunction first line => first.Prints here there ∧ first.PrintsSuite here there line
  | .prologue _ | .runtimeImport => True

/-- The statements can be printed at two places: behind trivia that do not end their row no other
trivia follow. -/
def BodyPrints : List Stmt → Prop
  | [] => True
  | stmt :: rest =>
    stmt.Prints ∧ (stmt.Closed ∨ ∀ later ∈ rest, later.isTrivia = false) ∧ BodyPrints rest

end

end Places

namespace Page

variable {page other : Page}

structure Alike (page other : Page) : Prop where
  text : page.text = other.text
  atLineStart : page.atLineStart = other.atLineStart

structure Rested (page other : Page) : Prop where
  left : page.cursor = none
  right : other.cursor = none

private theorem Same.alike {seam : Seam} (same : Same seam page other) : Alike page other :=
  ⟨same.text, same.atLineStart⟩

private theorem Alike.rested (alike : Alike page other) (rested : Rested page other) :
    Same Seam.start page other :=
  ⟨alike.text, alike.atLineStart, .inr ⟨rested.left, rested.right, rfl⟩⟩

private theorem Alike.write (alike : Alike page other) (text : String) :
    Alike (page.write text) (other.write text) := by
  constructor
  · simp only [Page.write, alike.text]
  · simp only [Page.write, alike.atLineStart]

private theorem Alike.moveTo (alike : Alike page other) (cursor cursor' : Option Position) :
    Alike (page.moveTo cursor) (other.moveTo cursor') := ⟨alike.text, alike.atLineStart⟩

private theorem Alike.freshLine (alike : Alike page other) :
    Alike page.freshLine other.freshLine := by
  unfold Page.freshLine
  rw [← alike.atLineStart]
  split
  · exact alike
  · exact (alike.write "\n").moveTo none none

private theorem Rested.freshLine (rested : Rested page other) :
    Rested page.freshLine other.freshLine := by
  constructor
  · unfold Page.freshLine
    split
    · exact rested.left
    · rfl
  · unfold Page.freshLine
    split
    · exact rested.right
    · rfl

private theorem Alike.addedLine (alike : Alike page other) (indent text : String) :
    Alike (page.addedLine indent text) (other.addedLine indent text) :=
  (alike.freshLine.write (indent ++ text ++ "\n")).moveTo none none

private theorem alike_prologue (alike : Alike page other) (indent : String) (lines : List String) :
    Alike (lines.foldl (addedLine · indent) page) (lines.foldl (addedLine · indent) other) ∧
      (Rested page other →
        Rested (lines.foldl (addedLine · indent) page) (lines.foldl (addedLine · indent) other)) := by
  induction lines generalizing page other with
  | nil => exact ⟨alike, id⟩
  | cons line rest ih =>
    obtain ⟨alike, rested⟩ := ih (alike.addedLine indent line)
    exact ⟨alike, fun _ => rested ⟨rfl, rfl⟩⟩

private theorem cursor_tokens {move : Token → Token} (relocates : Relocates move)
    {tokens : List Token} (ends : EndsRow tokens) (rested : tokens = [] → page.cursor = none) :
    (page.tokens (tokens.map move)).cursor = none := by
  rcases List.eq_nil_or_concat tokens with rfl | ⟨front, last, rfl⟩
  · exact rested rfl
  · have isBreak : last.isBreak = true := ends last (by simp)
    have noLayout : last.isLayout = false := by
      rw [Token.isBreak, Bool.or_eq_true, beq_iff_eq, beq_iff_eq] at isBreak
      rcases isBreak with kind | kind <;> simp [Token.isLayout, kind]
    rw [List.concat_eq_append, List.map_append, Page.tokens, List.foldl_append, List.map_singleton,
      List.foldl_cons, List.foldl_nil, Page.token, relocates.isLayout, noLayout, relocates.isBreak,
      isBreak]
    rfl

section Printing

variable {here there : Token → Token} (relocates : Relocates here ∧ Relocates there)
include relocates

private theorem rested_tokens {tokens : List Token} (ends : EndsRow tokens)
    (rested : tokens = [] → Rested page other) :
    Rested (page.tokens (tokens.map here)) (other.tokens (tokens.map there)) :=
  ⟨cursor_tokens relocates.1 ends fun empty => (rested empty).left,
    cursor_tokens relocates.2 ends fun empty => (rested empty).right⟩

private theorem same_line (alike : Alike page other) (indent : String) {line : List Token}
    (prints : Seam.PrintsLine (line.map (both here there))) :
    Same (Seam.behindLine (line.map (both here there))) (page.line indent (line.map here))
      (other.line indent (line.map there)) := by
  cases line with
  | nil => exact prints.elim
  | cons first rest =>
    have begun : Same (Seam.lineAt (both here there first))
        ((page.freshLine.write indent).moveTo (some (here first).start))
        ((other.freshLine.write indent).moveTo (some (there first).start)) := by
      have written := alike.freshLine.write indent
      exact ⟨written.text, written.atLineStart, .inl ⟨_, rfl, rfl, rfl⟩⟩
    have tokens : (Seam.lineAt (both here there first)).Prints
        ((first :: rest).map (both here there)) := prints
    exact same_tokens relocates begun tokens

private theorem rested_line (indent : String) {line : List Token} (some : line ≠ [])
    (ends : EndsRow line) :
    Rested (page.line indent (line.map here)) (other.line indent (line.map there)) := by
  cases line with
  | nil => exact absurd rfl some
  | cons first rest =>
    have rested := fun page other : Page =>
      (rested_tokens relocates ends fun empty => absurd empty some : Rested
        (page.tokens ((first :: rest).map here)) (other.tokens ((first :: rest).map there)))
    exact rested _ _

private theorem same_header (options : Options) (alike : Alike page other) (indent : String)
    {first : Header} (prints : first.Prints here there) :
    Same (Seam.behindLine (first.tokens.map (both here there)))
      (page.header options indent (first.map here))
      (other.header options indent (first.map there)) := by
  have split : first.tokens.map (both here there) = first.head.map (both here there) ++
      (first.parameters.leading.map (both here there) ++
        ((first.parameters.items.flatMap ParameterItem.tokens).map (both here there) ++
          first.tail.map (both here there))) := by
    simp [Header.tokens, Parameters.tokens]
  have begins : first.head.map (both here there) ≠ [] := by simpa using prints.begins
  have line := prints.line
  rw [split, Seam.printsLine_append begins] at line
  rw [split, Seam.behindLine_append begins]
  simp only [Seam.prints_append] at line
  simp only [Seam.behind_append]
  obtain ⟨head, leading, items, tail⟩ := line
  have led := same_tokens relocates (same_line relocates alike indent head) leading
  exact same_tokens relocates (same_items relocates options led prints.whole items) tail

private theorem rested_header (options : Options) (indent : String) {first : Header}
    (some : first.tail ≠ []) (ends : EndsRow first.tail) :
    Rested (page.header options indent (first.map here))
      (other.header options indent (first.map there)) :=
  rested_tokens relocates ends fun empty => absurd empty some

end Printing

section Statements

variable {here there : Token → Token}

private theorem isSilent_map (options : Options) (move : Token → Token) (stmt : Stmt) :
    isSilent options (stmt.map move) = isSilent options stmt := by
  cases stmt <;> rfl

private theorem inlineLine?_map (options : Options) (move : Token → Token) (body : List Stmt) :
    inlineLine? options (bodyMap move body) =
      (inlineLine? options body).map (List.map move) := by
  have filtered : (bodyMap move body).filter (fun stmt => !isSilent options stmt) =
      (body.filter fun stmt => !isSilent options stmt).map (Stmt.map move) := by
    rw [bodyMap_eq, List.filter_map]
    simp only [Function.comp_def, isSilent_map]
  unfold inlineLine?
  rw [filtered]
  rcases body.filter fun stmt => !isSilent options stmt with _ | ⟨stmt, _ | ⟨second, rest⟩⟩
  · rfl
  · cases stmt <;> rfl
  · cases stmt <;> rfl

/-- The line that may stay on its header's line is a statement of the suite. -/
theorem mem_of_inlineLine? {options : Options} {body : List Stmt} {line : List Token}
    (found : inlineLine? options body = some line) : .simple line ∈ body := by
  unfold inlineLine? at found
  split at found
  · next filtered =>
    cases found
    have member : Stmt.simple line ∈ body.filter fun stmt => !isSilent options stmt := by
      rw [filtered]
      exact List.mem_singleton_self _
    exact (List.mem_filter.1 member).1
  · cases found

mutual

private theorem alike_statement (relocates : Relocates here ∧ Relocates there) (options : Options)
    (indent : String) : (stmt : Stmt) →
    stmt.Prints here there → {page other : Page} → Alike page other →
    (stmt.isTrivia = true → Rested page other) →
      Alike (statement options indent (stmt.map here) page)
        (statement options indent (stmt.map there) other) ∧
      (stmt.Closed → Rested page other →
        Rested (statement options indent (stmt.map here) page)
          (statement options indent (stmt.map there) other))
  | .trivia tokens, prints, page, other, alike, rested =>
    ⟨(same_tokens relocates (alike.rested (rested rfl)) prints).alike,
      fun closed rested => rested_tokens relocates closed fun _ => rested⟩
  | .simple line, prints, page, other, alike, _ => by
    have some : line ≠ [] := by
      rintro rfl
      exact prints.1
    exact ⟨(same_line relocates alike indent prints.1).alike,
      fun _ _ => rested_line relocates indent some prints.2⟩
  | .compound first margin body, ⟨⟨line, ends⟩, leading, prints⟩, page, other, alike, _ => by
    have some : first ≠ [] := by
      rintro rfl
      exact line
    have begun := (same_line relocates alike indent line).alike
    have rested : Rested (page.line indent (first.map here))
        (other.line indent (first.map there)) := rested_line relocates indent some ends
    have led := (same_tokens relocates (begun.rested rested) leading.leading).alike
    have restedLed := rested_tokens relocates leading.ends fun _ => rested
    obtain ⟨trivia, indentToken⟩ := margin
    cases indentToken with
    | none =>
      obtain ⟨alike, rest⟩ := alike_statements relocates options (indent ++ innerIndent) body prints
        led (.inl restedLed)
      exact ⟨alike.freshLine, fun closed _ => (rest closed restedLed).freshLine⟩
    | some inner =>
      obtain ⟨alike, rest⟩ := alike_statements relocates options inner.text body prints led
        (.inl restedLed)
      simp only [Stmt.map, Margin.map, Option.map_some, statement, relocates.1.text,
        relocates.2.text]
      exact ⟨alike, fun closed _ => rest closed restedLed⟩
  | .function first ⟨trivia, none⟩ body, ⟨header, leading, suite, prints⟩, page, other, alike, _ => by
    have headed := same_header relocates options alike indent header
    have led := (headed.alike.write "\n").moveTo none none
    have below : Rested (((page.header options indent (first.map here)).write "\n").moveTo none)
        (((other.header options indent (first.map there)).write "\n").moveTo none) := ⟨rfl, rfl⟩
    have same := same_tokens relocates (led.rested below) leading.leading
    have rested := rested_tokens relocates leading.ends fun _ => below
    obtain ⟨alike, rest⟩ := alike_statements relocates options (indent ++ innerIndent) body prints
      same.alike (.inl rested)
    simp only [Stmt.map, Margin.map, Option.map_none, statement, inlineLine?_map]
    cases found : inlineLine? options body with
    | none => exact ⟨alike.freshLine, fun closed _ => (rest closed rested).freshLine⟩
    | some line =>
      have printed := suite line (mem_of_inlineLine? found)
      have some : line ≠ [] := by
        rintro rfl
        exact printed.alone
      exact ⟨(same_tokens relocates headed printed.behind).alike,
        fun _ _ => rested_tokens relocates printed.ends fun empty => absurd empty some⟩
  | .function first ⟨trivia, some inner⟩ body, ⟨header, leading, ⟨more, ends⟩, prints⟩, page, other,
      alike, _ => by
    have headed := (same_header relocates options alike indent header).alike
    have rested : Rested (page.header options indent (first.map here))
        (other.header options indent (first.map there)) := rested_header relocates options indent
          more ends
    have led := (same_tokens relocates (headed.rested rested) leading.leading).alike
    have restedLed := rested_tokens relocates leading.ends fun _ => rested
    obtain ⟨alike, rest⟩ := alike_statements relocates options inner.text body prints led
        (.inl restedLed)
    simp only [Stmt.map, Margin.map, Option.map_some, statement, relocates.1.text,
      relocates.2.text]
    exact ⟨alike, fun closed _ => rest closed restedLed⟩
  | .inlineFunction first line, ⟨header, suite⟩, page, other, alike, _ => by
    have headed := same_header relocates options alike indent header
    have some : line ≠ [] := by
      rintro rfl
      exact suite.alone
    exact ⟨(same_tokens relocates headed suite.behind).alike,
      fun _ _ => rested_tokens relocates suite.ends fun empty => absurd empty some⟩
  | .prologue resolutions, _, page, other, alike, _ => by
    obtain ⟨alike, rested⟩ := alike_prologue alike indent (prologueLines options resolutions)
    exact ⟨alike, fun _ => rested⟩
  | .runtimeImport, _, page, other, alike, _ =>
    ⟨alike.addedLine indent options.importLine, fun _ _ => ⟨rfl, rfl⟩⟩

private theorem alike_statements (relocates : Relocates here ∧ Relocates there) (options : Options)
    (indent : String) : (body : List Stmt) →
    BodyPrints here there body → {page other : Page} → Alike page other →
    (Rested page other ∨ ∀ stmt ∈ body, stmt.isTrivia = false) →
      Alike (statements options indent (bodyMap here body) page)
        (statements options indent (bodyMap there body) other) ∧
      (BodyClosed body → Rested page other →
        Rested (statements options indent (bodyMap here body) page)
          (statements options indent (bodyMap there body) other))
  | [], _, page, other, alike, _ => ⟨alike, fun _ => id⟩
  | stmt :: rest, ⟨first, order, others⟩, page, other, alike, ready => by
    have firstReady : stmt.isTrivia = true → Rested page other := by
      intro isTrivia
      rcases ready with rested | noTrivia
      · exact rested
      · rw [noTrivia stmt List.mem_cons_self] at isTrivia
        cases isTrivia
    obtain ⟨printed, restedFirst⟩ := alike_statement relocates options indent stmt first alike
      firstReady
    have restReady : Rested (statement options indent (stmt.map here) page)
        (statement options indent (stmt.map there) other) ∨
          ∀ later ∈ rest, later.isTrivia = false := by
      rcases order with closed | noTrivia
      · rcases ready with rested | noTrivia
        · exact .inl (restedFirst closed rested)
        · exact .inr fun later member => noTrivia later (List.mem_cons_of_mem _ member)
      · exact .inr noTrivia
    obtain ⟨printedRest, restedRest⟩ := alike_statements relocates options indent rest others printed
      restReady
    exact ⟨printedRest, fun closed rested => restedRest closed.2 (restedFirst closed.1 rested)⟩

end

end Statements

end Page

/-- A program that can be printed at two places is printed the same at both. -/
theorem Program.render_map {here there : Token → Token}
    (relocates : Relocates here ∧ Relocates there) (options : Options) {program : Program}
    (prints : BodyPrints here there program.body) :
    (program.map here).render options = (program.map there).render options :=
  (Page.alike_statements relocates options "" program.body prints ⟨rfl, rfl⟩
    (.inl ⟨rfl, rfl⟩)).1.text

end DeferredDefaults
