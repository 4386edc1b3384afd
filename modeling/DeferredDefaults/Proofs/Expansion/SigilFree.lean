import DeferredDefaults.Proofs.LateBinding.Unmarked
import DeferredDefaults.Proofs.Page.Reprinting
import DeferredDefaults.Proofs.Sigil.Stability
import DeferredDefaults.Proofs.Token.Tiling
import DeferredDefaults.Proofs.Tree.Completion

/-!
Texts without sigils. With no sigil and no marker nothing is deferred, and the tokens of the text
are read back from it as they are, so expansion adds the import and changes nothing else.
-/

set_option autoImplicit false
set_option relaxedAutoImplicit false

namespace DeferredDefaults

/-- The text ends in a row that is not empty and has nothing but space. -/
def Text.endsBlank (text : List Char) : Bool :=
  let row := text.reverse.takeWhile (· != '\n')
  !row.isEmpty && row.all Lexeme.isSpace

def Woven : List Token → List Char → Prop
  | [], text => text = []
  | token :: rest, text => ∃ gap behind, text = gap ++ (token.text.toList ++ behind) ∧
    Lexeme.Gap gap ∧ Woven rest behind

/-- The text is that of the statements in front of the import: trivia, a docstring, and imports
from `__future__` with the trivia in front of them. -/
def Program.Preamble (program : Program) (tokens : List Token) (text : String) : Prop :=
  ∃ start futures later front back, program.body = start ++ futures ++ later ∧
    LateBinding.Opens start (futures ++ later) ∧ LateBinding.FutureRun futures later ∧
    program.body.take (LateBinding.importIndex program.body) = start ++ futures ∧
    tokens = front ++ back ∧ BodyCovers (start ++ futures) front ∧
    Woven (front.filter fun token => !token.isLayout) text.toList

namespace Lexeme

private theorem inked_of_endsBlank {text : List Char}
    (straight : ∀ lexeme ∈ split text, lexeme.Straight) (inks : Text.endsBlank text = false) :
    Inked true (split text) := by
  intro front space isSplit isSpace
  have whole : textOf front ++ space.text = text := by
    rw [← flatMap_text_split text, isSplit]
    simp [textOf]
  have reads := reads_split text
  rw [isSplit] at reads
  obtain ⟨filled, read, -⟩ := reads.drop
  rw [isSpace, first_space_iff filled] at read
  have inRow : ∀ c ∈ space.text.reverse, (c != '\n') = true := by
    intro c member
    have blank := List.all_eq_true.1 read.1 c (List.mem_reverse.1 member)
    rw [bne_iff_ne]
    rintro rfl
    cases blank
  rw [← Bool.not_eq_true]
  intro atRowStart
  have stops : (textOf front).reverse.takeWhile (· != '\n') = [] := by
    cases last : front.getLast? with
    | none => simp [List.getLast?_eq_none_iff.1 last, textOf]
    | some previous =>
      rw [last] at atRowStart
      obtain ⟨others, rfl⟩ := List.getLast?_eq_some_iff.1 last
      have ends := (straight previous (by simp [isSplit])).rowEnd (by simpa using atRowStart)
      obtain ⟨others, text⟩ := List.getLast?_eq_some_iff.1 ends
      simp [textOf, text]
  have row : text.reverse.takeWhile (· != '\n') = space.text.reverse := by
    rw [← whole, List.reverse_append, List.takeWhile_append_of_pos inRow, stops, List.append_nil]
  have blank : space.text.reverse.all Lexeme.isSpace = true := by simpa using read.1
  rw [Text.endsBlank, row, blank] at inks
  simp [filled] at inks

end Lexeme

namespace Page

private theorem gap_padding (cursor : Option Position) (start : Position) :
    Lexeme.Gap (padding cursor start).toList := by
  have blanks : ∀ count, Lexeme.Gap (List.replicate count ' ') := by
    intro count
    induction count with
    | zero => exact .nil
    | succ count ih => exact .space rfl ih
  unfold padding
  split
  · rw [String.toList_ofList]
    exact blanks _
  · split
    · rw [String.toList_ofList]
      generalize start.row - _ = rows
      induction rows with
      | zero => exact blanks _
      | succ rows ih =>
        rw [List.replicate_succ, List.flatten_cons, List.append_assoc]
        exact .continuation (by decide : ['\n'] ∈ Lexeme.breaks) ih
    · rw [String.toList_ofList]
      exact blanks _

private theorem woven_laidOut (cursor : Option Position) (tokens : List Token) :
    Woven (tokens.filter fun token => !token.isLayout) (laidOut cursor tokens).toList := by
  induction tokens generalizing cursor with
  | nil => rfl
  | cons token rest ih =>
    cases isLayout : token.isLayout with
    | true => simpa [laidOut, isLayout] using ih cursor
    | false =>
      rw [List.filter_cons_of_pos (by simp [isLayout]), laidOut, if_neg (by simp [isLayout])]
      refine ⟨_, _, ?_, gap_padding cursor token.start,
        ih (if token.isBreak then none else some token.stop)⟩
      simp

section Seam

variable {page : Page} {indents : List String} {front back rest line : List Token}

private theorem cursor_of_sets_line (whole : Line.IsWhole line)
    (sets : page.Sets true indents (line ++ back)) : page.cursor = none := by
  obtain ⟨begins, -⟩ := sets_line whole sets
  obtain ⟨code, stop, rfl, -⟩ := whole
  cases code with
  | nil => exact (begins stop rfl).2.1
  | cons first code => exact (begins first rfl).2.1

private theorem cursor_tokens_line (whole : Line.IsWhole line) (page : Page) (front : List Token) :
    (page.tokens (front ++ line)).cursor = none := by
  obtain ⟨code, stop, rfl, isNewline, -⟩ := whole
  have noLayout : stop.isLayout = false := by simp [Token.isLayout, isNewline]
  have isBreak : stop.isBreak = true := by simp [Token.isBreak, isNewline]
  rw [← List.append_assoc, tokens_append]
  exact (cursor_token noLayout _).trans (if_pos isBreak)

private theorem cursor_of_sets_statement {stmt : Stmt} (covers : stmt.Covers front)
    (notTrivia : stmt.isTrivia = false) (sets : page.Sets true indents (front ++ back)) :
    page.cursor = none := by
  cases stmt with
  | trivia => cases notTrivia
  | simple line =>
    obtain ⟨rfl, whole⟩ := covers
    exact cursor_of_sets_line whole sets
  | compound header margin body =>
    obtain ⟨indent, inner, dedent, rfl, whole, -⟩ := covers
    simp only [List.append_assoc] at sets
    exact cursor_of_sets_line whole sets
  | function header margin body =>
    obtain ⟨line, indent, inner, dedent, rfl, whole, -⟩ := covers
    simp only [List.append_assoc] at sets
    exact cursor_of_sets_line whole sets
  | inlineFunction header suite => exact cursor_of_sets_line covers.1 sets
  | prologue | runtimeImport => exact covers.elim

end Seam

end Page

theorem bodyCovers_append_iff {front back : List Stmt} {tokens : List Token} :
    BodyCovers (front ++ back) tokens ↔
      ∃ first later, tokens = first ++ later ∧ BodyCovers front first ∧ BodyCovers back later := by
  refine ⟨fun covers => ?_, ?_⟩
  · induction front generalizing tokens with
    | nil => exact ⟨[], tokens, rfl, rfl, covers⟩
    | cons stmt rest ih =>
      obtain ⟨own, others, rfl, coversOwn, coversOthers⟩ := covers
      obtain ⟨first, later, rfl, coversRest, coversBack⟩ := ih coversOthers
      exact ⟨own ++ first, later, (List.append_assoc ..).symm, ⟨own, first, rfl, coversOwn, coversRest⟩,
        coversBack⟩
  · rintro ⟨first, later, rfl, coversFront, coversBack⟩
    exact bodyCovers_append coversFront coversBack

namespace LateBinding

theorem exists_importIndex (body : List Stmt) : ∃ start futures later,
    body = start ++ futures ++ later ∧ Opens start (futures ++ later) ∧ FutureRun futures later ∧
      body.take (importIndex body) = start ++ futures ∧ body.drop (importIndex body) = later := by
  have opens := opens_prologueIndex body
  refine ⟨body.take (prologueIndex body), _, _, ?_, ?_,
    futureRun_futureLength (body.drop (prologueIndex body)), ?_, ?_⟩
  · rw [List.append_assoc, List.take_append_drop, List.take_append_drop]
  · rwa [List.take_append_drop]
  · rw [importIndex, List.take_add]
  · rw [importIndex, List.drop_drop]

/-- In front of the import the row has ended, or there is nothing behind it. -/
private theorem seam {start futures later : List Stmt} {front back rest : List Token}
    (opens : Opens start (futures ++ later)) (run : FutureRun futures later)
    (coversFront : BodyCovers (start ++ futures) front) (coversBack : BodyCovers later back)
    (sets : ({} : Page).Sets true [] (front ++ (back ++ rest)))
    (layoutOnly : ∀ token ∈ rest, token.isLayout = true) :
    (({} : Page).tokens front).cursor = none ∨ ∀ token ∈ back ++ rest, token.isLayout = true := by
  have behindSimple : ∀ (body : List Stmt) (line : List Token) (tokens : List Token),
      BodyCovers (body ++ [Stmt.simple line]) tokens → (({} : Page).tokens tokens).cursor = none := by
    intro body line tokens covers
    obtain ⟨first, last, rfl, -, own, none, rfl, ⟨rfl, whole⟩, isNone⟩ :=
      bodyCovers_append_iff.1 covers
    cases isNone
    rw [List.append_nil]
    exact Page.cursor_tokens_line whole _ _
  cases last : futures.getLast? with
  | some stmt =>
    obtain ⟨others, rfl⟩ := List.getLast?_eq_some_iff.1 last
    have isImport := run.last stmt last
    rw [← List.append_assoc] at coversFront
    cases stmt with
    | simple line => exact .inl (behindSimple _ _ _ coversFront)
    | trivia | compound | function | inlineFunction | prologue | runtimeImport => cases isImport
  | none =>
    rw [List.getLast?_eq_none_iff] at last
    subst last
    rw [List.append_nil] at coversFront
    obtain ⟨trivia, -, ⟨stmt, isDocstring, rfl⟩ | ⟨rfl, next⟩⟩ := opens
    · cases stmt with
      | simple line => exact .inl (behindSimple _ _ _ coversFront)
      | trivia | compound | function | inlineFunction | prologue | runtimeImport => cases isDocstring
    · cases later with
      | nil =>
        cases coversBack
        exact .inr layoutOnly
      | cons stmt others =>
        obtain ⟨own, more, rfl, coversOwn, -⟩ := coversBack
        have behind := (Page.statements_eq_tokens {} _ coversFront sets).2
        rw [List.append_assoc] at behind
        exact .inl (Page.cursor_of_sets_statement coversOwn (next stmt rfl).1 behind)

end LateBinding

namespace Page

/-- Late binding of a tree without the marker adds the import to its text, and nothing else. -/
private theorem render_bindLate {options : Options} {program : Program} {tokens rest : List Token}
    (style : options.prologue = .assignments) (covers : BodyCovers program.body tokens)
    (unnamed : Unnamed options.markerName tokens) (sets : ({} : Page).Sets true [] (tokens ++ rest))
    (layoutOnly : ∀ token ∈ rest, token.isLayout = true) :
    ∃ pre post next, laidOut none tokens = pre ++ post ∧ program.Preamble (tokens ++ rest) pre ∧
      program.bindLate options.markerName = .ok next ∧
      next.render options = pre ++ separator pre ++ options.importLine ++ "\n" ++ post := by
  obtain ⟨body, bound, same⟩ := printsAs_statements style program.body covers unnamed
  obtain ⟨start, futures, later, isBody, opens, run, isFront, isLater⟩ :=
    LateBinding.exists_importIndex program.body
  rw [isBody] at covers
  obtain ⟨front, back, rfl, coversFront, coversBack⟩ := bodyCovers_append_iff.1 covers
  rw [List.append_assoc] at sets
  obtain ⟨post, whole, text⟩ := text_with_import coversFront coversBack sets
    (LateBinding.seam opens run coversFront coversBack sets layoutOnly)
  refine ⟨_, post, ⟨LateBinding.insertAt (LateBinding.importIndex body) .runtimeImport body⟩, whole,
    ⟨start, futures, later, front, back ++ rest, isBody, opens, run, isFront,
      List.append_assoc .., coversFront, woven_laidOut none front⟩, ?_, ?_⟩
  · rw [Program.bindLate, bound]
    rfl
  · rw [← text, Program.render, LateBinding.insertAt, importIndex_printsAs same, ← isFront, ← isLater]
    refine congrArg Page.text (statements_printsAs ?_ "" {})
    exact List.rel_append (List.forall₂_take _ same)
      (.cons (.refl options _) (List.forall₂_drop _ same))

end Page

namespace Sigil

variable {tokens : List Token}

private theorem unmarked_of_isChain {previous : Option Token}
    (free : tokens.IsChain fun eq gt => isSigil eq gt = false)
    (first : ∀ token ∈ tokens.head?, isMarked previous token = false) : Unmarked previous tokens := by
  induction tokens generalizing previous with
  | nil => trivial
  | cons token rest ih =>
    refine ⟨first token rfl, ih free.tail fun next found => ?_⟩
    obtain ⟨others, rfl⟩ := List.head?_eq_some_iff.1 found
    exact (List.isChain_cons_cons.1 free).1

private theorem mark_of_isChain (free : tokens.IsChain fun eq gt => isSigil eq gt = false)
    (marker : String) : mark marker tokens = tokens := by
  have unmarked : Unmarked none tokens := unmarked_of_isChain free fun _ _ => rfl
  rw [mark, markCounting, markFrom_of_unmarked marker 0 unmarked, List.map_map]
  exact List.map_id _

private theorem reread_of_isChain {source : String} (tokenized : tokenize source = .ok tokens)
    (free : tokens.IsChain fun eq gt => isSigil eq gt = false)
    (blank : ∀ lexeme ∈ Lexeme.split source.toList, lexeme.usesBlanks = true)
    (continues : Lexeme.continuesLines {} (Lexeme.split source.toList) = true) :
    ∃ text, sourceText tokens = .ok text ∧ tokenize text = .ok tokens := by
  -- Marking with any name shows how the tokens are written.
  have identifier : Text.Identifier.isIdentifier "a".toList = true := by decide
  obtain ⟨placed, -⟩ := placed_mark identifier tokenized blank continues
  obtain ⟨written, isWritten, splits, -⟩ := written_mark tokenized "a"
  rw [mark_of_isChain free] at placed isWritten
  have clears : Clears "a" tokens := by
    intro front eq gt next back split sigil
    rw [split, List.isChain_append] at free
    simp [(List.isChain_cons_cons.1 free.2.1).1] at sigil
  have reread := splits identifier clears
  have filled := (reread ▸ Lexeme.reads_split (Lexeme.textOf written)).filled
  have synced : Synced {} {} [] {} := ⟨relay_initial, rfl, rfl, fun _ => .inr rfl⟩
  refine ⟨String.ofList (Lexeme.textOf written), ?_, ?_⟩
  · rw [sourceText, isWritten.run_eq]
    rfl
  · rw [tokenize, String.toList_ofList, reread, isWritten.run_placed synced filled placed]

end Sigil

namespace Expansion

/-- A text without sigils and without the marker only gains the import. -/
theorem expand_sigilFree {options : Options} {source : String} {tokens : List Token}
    {program : Program} (style : options.prologue = .assignments)
    (tokenized : tokenize source = .ok tokens) (read : Program.ofTokens tokens = .ok program)
    (free : tokens.IsChain fun eq gt => Sigil.isSigil eq gt = false)
    (unnamed : ∀ token ∈ tokens, token.isName options.markerName = false)
    (straight : ∀ lexeme ∈ Lexeme.split source.toList, lexeme.Straight)
    (inks : Text.endsBlank source.toList = false) :
    ∃ pre post, source = pre ++ post ∧ program.Preamble tokens pre ∧
      throughText options source =
        .ok (pre ++ Page.separator pre ++ options.importLine ++ "\n" ++ post) ∧
      (throughTokens options source).map Expanded.code =
        .ok (pre ++ Page.separator pre ++ options.importLine ++ "\n" ++ post) := by
  have blank : ∀ lexeme ∈ Lexeme.split source.toList, lexeme.usesBlanks = true :=
    fun lexeme member => (straight lexeme member).blanks
  have continues : Lexeme.continuesLines {} (Lexeme.split source.toList) = true :=
    Lexeme.continuesLines_of_straight (fun lexeme member => (straight lexeme member).row) {}
  have indented : Layout.Indented {} {} .origin (Lexeme.split source.toList) :=
    ⟨Sigil.stage_initial.inPhase, blank, continues, Position.le_refl _, fun _ => rfl, fun _ => .inl rfl⟩
  have prints : Layout.Prints {} {} {} := ⟨fun _ => ⟨rfl, rfl⟩, nofun⟩
  obtain ⟨sets, text⟩ := Layout.sets_run indented (Lexeme.reads_split source.toList) straight
    (Lexeme.inked_of_endsBlank straight inks) prints tokenized
  obtain ⟨front, stop, rfl, isStop, covers⟩ := Program.covers_of_nested
    (Layout.nested_run Layout.stacked_initial tokenized) read
  have layoutOnly : ∀ token ∈ [stop], token.isLayout = true := by
    simp [Token.isLayout, isStop]
  obtain ⟨pre, post, next, whole, preamble, bound, printed⟩ := Page.render_bindLate style covers
    (unnamed_append.1 unnamed).1 sets layoutOnly
  have expands : ofMarked options (front ++ [stop]) = .ok ⟨next, next.render options⟩ := by
    rw [ofMarked, read]
    show (program.bindLate options.markerName >>= fun program =>
      .ok (⟨program, program.render options⟩ : Expanded)) = _
    rw [bound]
    rfl
  have marked : markedTokens options source = .ok (front ++ [stop]) := by
    rw [markedTokens, tokenized]
    exact congrArg _ (Sigil.mark_of_isChain free options.markerName)
  obtain ⟨copy, isCopy, retokenized⟩ := Sigil.reread_of_isChain tokenized free blank continues
  have rewritten : markedText options source = .ok copy := by
    rw [markedText, marked]
    exact isCopy
  refine ⟨pre, post, ?_, preamble, ?_, ?_⟩
  · have same : Page.laidOut none (front ++ [stop]) = Page.laidOut none front := by
      rw [Page.laidOut_append, Page.laidOut_of_isLayout layoutOnly, String.append_empty]
    rw [← whole, ← same, text, Lexeme.textOf, Lexeme.flatMap_text_split, String.ofList_toList]
  · rw [throughText, rewritten]
    show (tokenize copy >>= fun tokens => ofMarked options tokens >>= fun expanded =>
      .ok expanded.code) = _
    rw [retokenized]
    show (ofMarked options (front ++ [stop]) >>= fun expanded => .ok expanded.code) = _
    rw [expands, ← printed]
    rfl
  · rw [throughTokens, marked]
    show (ofMarked options (front ++ [stop])).map _ = _
    rw [expands, ← printed]
    rfl

end Expansion

/-- A docstring over two rows, an import from `__future__` behind a comment, brackets over two rows,
a suite on its header's line, blocks, and space behind the last line. -/
def plainSource : String :=
  "\n'''a\r\n b''' \r\n# c\n\nfrom __future__ import d\n  # e\ndef f(a, b = [ 1,\r\n  2]) :  b\n" ++
    "if a :\n  async def g(*, c=f) :\n   # h\n   'i'\n\n   c ()\n  g()  "

theorem expand_sigilFree_plain : ∃ tokens program, tokenize plainSource = .ok tokens ∧
    Program.ofTokens tokens = .ok program ∧
    ∃ pre post, plainSource = pre ++ post ∧ program.Preamble tokens pre ∧
      Expansion.throughText {} plainSource =
        .ok (pre ++ Page.separator pre ++ ({} : Options).importLine ++ "\n" ++ post) ∧
      (Expansion.throughTokens {} plainSource).map Expansion.Expanded.code =
        .ok (pre ++ Page.separator pre ++ ({} : Options).importLine ++ "\n" ++ post) := by
  have holds : ((tokenize plainSource).toOption.any fun tokens =>
      (Program.ofTokens tokens).isOk &&
        decide (tokens.IsChain fun eq gt => Sigil.isSigil eq gt = false) &&
        tokens.all fun token => !token.isName ({} : Options).markerName) = true := by
    decide +kernel
  cases tokenized : tokenize plainSource with
  | error fault =>
    rw [tokenized] at holds
    cases holds
  | ok tokens =>
    rw [tokenized, toOption_ok, Option.any_some] at holds
    simp only [Bool.and_eq_true, decide_eq_true_eq, List.all_eq_true, Bool.not_eq_true'] at holds
    obtain ⟨⟨isRead, free⟩, unnamed⟩ := holds
    cases read : Program.ofTokens tokens with
    | error fault =>
      rw [read] at isRead
      cases isRead
    | ok program =>
      exact ⟨tokens, program, rfl, read, Expansion.expand_sigilFree rfl tokenized read free unnamed
        (by decide +kernel) (by decide +kernel)⟩

end DeferredDefaults
