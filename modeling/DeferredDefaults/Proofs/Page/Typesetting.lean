import DeferredDefaults.Proofs.Page.Continuation
import DeferredDefaults.Proofs.Tree.Coverage

/-!
Printing a tree as it stands. Where every line begins a row at the indentation of its block, a tree
is printed just as its tokens are, one after the other: opening a line at an indentation comes to
the same as padding up to its first token.
-/

set_option autoImplicit false
set_option relaxedAutoImplicit false

namespace DeferredDefaults

namespace Token

/-- Whether no code has appeared since the last logical line ended, behind a token. -/
def freshAfter (fresh : Bool) (token : Token) : Bool :=
  (fresh && !token.isSignificant) || token.kind == .newline

def indentsAfter (indents : List String) (token : Token) : List String :=
  match token.kind with
  | .indent => token.text :: indents
  | .dedent => indents.tail
  | _ => indents

theorem indentsAfter_of_not_isLayout {token : Token} (noLayout : token.isLayout = false)
    (indents : List String) : token.indentsAfter indents = indents := by
  obtain ⟨kind, text, start, stop⟩ := token
  cases kind <;> first | rfl | cases noLayout

theorem freshAfter_of_isLayout {token : Token} (isLayout : token.isLayout = true) (fresh : Bool) :
    token.freshAfter fresh = fresh := by
  have noNewline : token.kind ≠ .newline := by
    intro kind
    simp [Token.isLayout, kind] at isLayout
  simp [freshAfter, isSignificant, isLayout, noNewline]

end Token

namespace Page

/-- The tokens behind the page are set as it prints them: where a line begins, so does a row, and
the padding in front of its first token is the indentation of its block. -/
def Sets (page : Page) (fresh : Bool) (indents : List String) : List Token → Prop
  | [] => True
  | token :: rest =>
    (fresh = true → token.isSignificant = true → page.cursor = none ∧ page.atLineStart = true ∧
      indents.headD "" = padding none token.start) ∧
    (token.kind = .newline → fresh = false) ∧
    (page.token token).Sets (token.freshAfter fresh) (token.indentsAfter indents) rest

theorem tokens_cons (page : Page) (token : Token) (rest : List Token) :
    page.tokens (token :: rest) = (page.token token).tokens rest := rfl

private theorem write_empty (page : Page) : page.write "" = page := by
  simp [write]

private theorem write_write (page : Page) (front back : String) :
    (page.write front).write back = page.write (front ++ back) := by
  simp only [write, String.append_assoc, Page.mk.injEq, String.toList_append, true_and, and_true]
  cases last : back.toList.getLast? with
  | none =>
    rw [List.getLast?_eq_none_iff] at last
    simp [last]
  | some c => simp [List.getLast?_append, last]

theorem token_of_isLayout {token : Token} (isLayout : token.isLayout = true) (page : Page) :
    page.token token = page := by
  rw [Page.token, if_pos isLayout]

private theorem line_eq_tokens {page : Page} {indent : String} {line : List Token}
    (begins : ∀ first ∈ line.head?, first.isLayout = false ∧ page.cursor = none ∧
      page.atLineStart = true ∧ indent = padding none first.start) :
    page.line indent line = page.tokens line := by
  cases line with
  | nil => rfl
  | cons first rest =>
    obtain ⟨noLayout, cursor, start, rfl⟩ := begins first rfl
    have still : padding (some first.start) first.start = "" := by simp [padding]
    rw [line, freshLine, if_pos start, tokens_cons, tokens_cons, token_of_not_isLayout noLayout,
      token_of_not_isLayout noLayout, padTo, padTo, cursor]
    show (Page.tokens ((((page.write _).write (padding (some first.start) first.start)).write
      first.text).moveTo _) rest) = _
    rw [still, write_empty]

section Sets

variable {page : Page} {fresh : Bool} {indents : List String} {front back line : List Token}

theorem sets_append : page.Sets fresh indents (front ++ back) ↔ page.Sets fresh indents front ∧
    (page.tokens front).Sets (front.foldl Token.freshAfter fresh)
      (front.foldl Token.indentsAfter indents) back := by
  induction front generalizing page fresh indents with
  | nil => exact ⟨fun sets => ⟨trivial, sets⟩, And.right⟩
  | cons token front ih =>
    show (_ ∧ _ ∧ Sets _ _ _ (front ++ back)) ↔ (_ ∧ _ ∧ Sets _ _ _ front) ∧ _
    rw [ih, and_assoc, and_assoc]
    rfl

private theorem indents_of_not_isLayout (noLayout : ∀ token ∈ line, token.isLayout = false)
    (indents : List String) : line.foldl Token.indentsAfter indents = indents := by
  induction line with
  | nil => rfl
  | cons token rest ih =>
    rw [List.forall_mem_cons] at noLayout
    rw [List.foldl_cons, Token.indentsAfter_of_not_isLayout noLayout.1, ih noLayout.2]

private theorem sets_layout {token : Token} (isLayout : token.isLayout = true)
    (sets : page.Sets fresh indents (token :: back)) :
    page.Sets fresh (token.indentsAfter indents) back := by
  have later := sets.2.2
  rwa [token_of_isLayout isLayout, Token.freshAfter_of_isLayout isLayout] at later

private theorem sets_trivia (trivia : ∀ token ∈ front, token.isTrivia = true)
    (sets : page.Sets true indents (front ++ back)) : (page.tokens front).Sets true indents back := by
  have noLayout : ∀ token ∈ front, token.isLayout = false := by
    intro token member
    have isTrivia := trivia token member
    obtain ⟨kind, text, start, stop⟩ := token
    cases kind <;> first | rfl | cases isTrivia
  have fresh : front.foldl Token.freshAfter true = true := by
    clear sets noLayout
    induction front with
    | nil => rfl
    | cons token front ih =>
      rw [List.forall_mem_cons] at trivia
      rw [List.foldl_cons, Token.freshAfter, Token.isSignificant, trivia.1]
      exact ih trivia.2
  have later := (sets_append.1 sets).2
  rwa [fresh, indents_of_not_isLayout noLayout] at later

/-- A line begins a row, and behind it the next line may begin. -/
theorem sets_line (whole : Line.IsWhole line) (sets : page.Sets true indents (line ++ back)) :
    (∀ first ∈ line.head?, first.isLayout = false ∧ page.cursor = none ∧
      page.atLineStart = true ∧ indents.headD "" = padding none first.start) ∧
    (page.tokens line).Sets true indents back := by
  obtain ⟨code, stop, rfl, isNewline, inLine, notTrivia⟩ := whole
  have noLayout : ∀ token ∈ code ++ [stop], token.isLayout = false := by
    rw [List.forall_mem_append, List.forall_mem_singleton]
    exact ⟨fun token member => (inLine token member).2, by simp [Token.isLayout, isNewline]⟩
  constructor
  · intro first found
    have member := List.mem_of_mem_head? found
    obtain ⟨rest, split⟩ := List.head?_eq_some_iff.1 found
    rw [split] at sets
    have noNewline : first.kind ≠ .newline := by
      intro kind
      cases sets.2.1 kind
    have significant : first.isSignificant = true := by
      simp [Token.isSignificant, notTrivia first found, noNewline, noLayout first member]
    exact ⟨noLayout first member, sets.1 rfl significant⟩
  · have later := (sets_append.1 sets).2
    rw [indents_of_not_isLayout noLayout, List.foldl_append, List.foldl_cons, List.foldl_nil] at later
    rwa [Token.freshAfter, isNewline, beq_self_eq_true, Bool.or_true] at later

end Sets

section Headers

variable {options : Options}

private theorem items_eq_tokens {items : List ParameterItem}
    (plain : ∀ item ∈ items, Parameters.Plain item) (page : Page) :
    items.foldl (item options) page = page.tokens (items.flatMap ParameterItem.tokens) := by
  induction items generalizing page with
  | nil => rfl
  | cons first rest ih =>
    rw [List.forall_mem_cons] at plain
    rw [List.foldl_cons, List.flatMap_cons, tokens_append, ih plain.2]
    congr 1
    cases first with
    | separator value => rfl
    | parameter value =>
      have isPlain : ∀ default ∈ value.default, ∃ tokens, default.value = .expression tokens :=
        fun default found => (plain.1 default found).2
      simp only [item, ParameterItem.tokens, Parameter.tokens, tokens_append, tokens_cons]
      congr 1
      cases default : value.default with
      | none => rfl
      | some slot =>
        obtain ⟨eq, content⟩ := slot
        obtain ⟨tokens, rfl⟩ := isPlain _ default
        rfl

private theorem header_eq_tokens {header : Header} (plain : ∀ item ∈ header.parameters.items,
    Parameters.Plain item) {page : Page} {indent : String}
    (begins : ∀ first ∈ header.head.head?, first.isLayout = false ∧ page.cursor = none ∧
      page.atLineStart = true ∧ indent = padding none first.start) :
    page.header options indent header = page.tokens header.tokens := by
  rw [Page.header, line_eq_tokens begins, items_eq_tokens plain, Header.tokens, Parameters.tokens]
  simp only [tokens_append]

end Headers

private theorem head?_head_of_opensSuite {header : Header} {suite line : List Token}
    (opens : header.OpensSuite suite line) : header.head.head? = line.head? := by
  obtain ⟨first, more, read, rfl⟩ := opens
  have whole := Header.tokens_read read
  have nonempty := (Header.plain_read read).1
  cases head : header.head with
  | nil => exact absurd head nonempty
  | cons token rest =>
    rw [Header.tokens, head] at whole
    cases whole
    rfl

private theorem block_eq_tokens {options : Options} {body : List Stmt}
    {inner leading back : List Token}
    {indent dedent : Token} {page : Page} {indents : List String} (isIndent : indent.kind = .indent)
    (trivia : ∀ token ∈ leading, token.isTrivia = true) (isDedent : dedent.kind = .dedent)
    (inside : ∀ {page : Page}, page.Sets true (indent.text :: indents) (inner ++ dedent :: back) →
      statements options indent.text body page = page.tokens inner ∧
        (page.tokens inner).Sets true (indent.text :: indents) (dedent :: back))
    (sets : page.Sets true indents (leading ++ indent :: (inner ++ dedent :: back))) :
    statements options indent.text body (page.tokens leading) =
        page.tokens (leading ++ indent :: (inner ++ [dedent])) ∧
      (page.tokens (leading ++ indent :: (inner ++ [dedent]))).Sets true indents back := by
  have indentLayout : indent.isLayout = true := by simp [Token.isLayout, isIndent]
  have dedentLayout : dedent.isLayout = true := by simp [Token.isLayout, isDedent]
  have entered := sets_layout indentLayout (sets_trivia trivia sets)
  rw [Token.indentsAfter, isIndent] at entered
  obtain ⟨printed, left⟩ := inside entered
  have later := sets_layout dedentLayout left
  rw [Token.indentsAfter, isDedent] at later
  have whole : page.tokens (leading ++ indent :: (inner ++ [dedent])) =
      (page.tokens leading).tokens inner := by
    rw [tokens_append, tokens_cons, token_of_isLayout indentLayout, tokens_append]
    exact token_of_isLayout dedentLayout _
  rw [whole]
  exact ⟨printed, later⟩

mutual

/-- A statement is printed as its tokens are. -/
theorem statement_eq_tokens (options : Options) : (stmt : Stmt) → {front : List Token} →
    stmt.Covers front → {page : Page} → {indents : List String} → {back : List Token} →
    page.Sets true indents (front ++ back) →
    statement options (indents.headD "") stmt page = page.tokens front ∧
      (page.tokens front).Sets true indents back
  | .trivia trivia, _, covers, _, _, _, sets => by
    obtain ⟨rfl, areTrivia⟩ := covers
    exact ⟨rfl, sets_trivia areTrivia sets⟩
  | .simple line, _, covers, _, _, _, sets => by
    obtain ⟨rfl, whole⟩ := covers
    obtain ⟨begins, later⟩ := sets_line whole sets
    exact ⟨line_eq_tokens begins, later⟩
  | .compound header margin body, _, covers, page, indents, back, sets => by
    obtain ⟨_, inner, dedent, rfl, whole, ⟨indent, isIndent, kind, leading, rfl⟩, inside, isDedent⟩ :=
      covers
    simp only [List.append_assoc, List.singleton_append] at sets ⊢
    obtain ⟨begins, sets⟩ := sets_line whole sets
    obtain ⟨printed, later⟩ := block_eq_tokens kind leading isDedent
      (statements_eq_tokens options body inside) sets
    rw [statement, isIndent, line_eq_tokens begins, tokens_append]
    exact ⟨printed, later⟩
  | .function header margin body, _, covers, page, indents, back, sets => by
    obtain ⟨line, _, inner, dedent, rfl, whole, opens, ⟨indent, isIndent, kind, leading, rfl⟩, inside,
      isDedent⟩ := covers
    simp only [List.append_assoc, List.singleton_append] at sets ⊢
    obtain ⟨begins, sets⟩ := sets_line whole sets
    obtain ⟨printed, later⟩ := block_eq_tokens kind leading isDedent
      (statements_eq_tokens options body inside) sets
    have head : header.head.head? = line.head? := by
      obtain ⟨base, behind, suite, -, rfl⟩ := opens
      show base.head.head? = _
      exact head?_head_of_opensSuite suite
    rw [statement, isIndent, header_eq_tokens opens.plain (by rwa [head]), opens.tokens_eq,
      tokens_append]
    exact ⟨printed, later⟩
  | .inlineFunction header suite, line, covers, page, indents, back, sets => by
    obtain ⟨whole, opens, -⟩ := covers
    obtain ⟨begins, later⟩ := sets_line whole sets
    refine ⟨?_, later⟩
    rw [statement, header_eq_tokens opens.plain (by rwa [head?_head_of_opensSuite opens]),
      ← tokens_append, opens.tokens_eq]
  | .prologue _, _, covers, _, _, _, _ | .runtimeImport, _, covers, _, _, _, _ => covers.elim

theorem statements_eq_tokens (options : Options) : (body : List Stmt) → {front : List Token} →
    BodyCovers body front → {page : Page} → {indents : List String} → {back : List Token} →
    page.Sets true indents (front ++ back) →
    statements options (indents.headD "") body page = page.tokens front ∧
      (page.tokens front).Sets true indents back
  | [], _, covers, _, _, _, sets => by
    cases covers
    exact ⟨rfl, sets⟩
  | stmt :: rest, _, covers, page, indents, back, sets => by
    obtain ⟨first, others, rfl, coversFirst, coversRest⟩ := covers
    rw [List.append_assoc] at sets
    obtain ⟨printed, sets⟩ := statement_eq_tokens options stmt coversFirst sets
    obtain ⟨printedRest, later⟩ := statements_eq_tokens options rest coversRest sets
    rw [statements, printed, printedRest, tokens_append]
    exact ⟨rfl, later⟩

end

def laidOut : (cursor : Option Position) → List Token → String
  | _, [] => ""
  | cursor, token :: rest =>
    if token.isLayout then laidOut cursor rest
    else padding cursor token.start ++ token.text ++
      laidOut (if token.isBreak then none else some token.stop) rest

private theorem text_tokens (page : Page) (tokens : List Token) :
    (page.tokens tokens).text = page.text ++ laidOut page.cursor tokens := by
  induction tokens generalizing page with
  | nil => simp [Page.tokens, laidOut]
  | cons token rest ih =>
    rw [tokens_cons, ih, laidOut]
    cases isLayout : token.isLayout with
    | true => simp [token_of_isLayout isLayout]
    | false =>
      rw [token_of_not_isLayout isLayout]
      simp [padTo, moveTo, write, String.append_assoc]

theorem laidOut_append (cursor : Option Position) (front back : List Token) :
    laidOut cursor (front ++ back) =
      laidOut cursor front ++ laidOut (({ cursor := cursor } : Page).tokens front).cursor back := by
  have whole := text_tokens { cursor := cursor } (front ++ back)
  rw [tokens_append, text_tokens, text_tokens] at whole
  simpa [String.append_assoc] using whole.symm

theorem laidOut_of_isLayout {tokens : List Token} (layout : ∀ token ∈ tokens, token.isLayout = true)
    (cursor : Option Position) : laidOut cursor tokens = "" := by
  induction tokens with
  | nil => rfl
  | cons token rest ih =>
    rw [List.forall_mem_cons] at layout
    rw [laidOut, if_pos layout.1, ih layout.2]

private theorem Sets.congr {page other : Page} {fresh : Bool} {indents : List String}
    {tokens : List Token} (sets : page.Sets fresh indents tokens)
    (cursor : other.cursor = page.cursor)
    (start : page.atLineStart = true → other.atLineStart = true) :
    other.Sets fresh indents tokens := by
  induction tokens generalizing page other fresh indents with
  | nil => trivial
  | cons token rest ih =>
    obtain ⟨begins, newline, later⟩ := sets
    refine ⟨fun isFresh code => ?_, newline, ?_⟩
    · obtain ⟨none, isStart, indent⟩ := begins isFresh code
      exact ⟨cursor.trans none, start isStart, indent⟩
    · cases isLayout : token.isLayout with
      | true =>
        rw [token_of_isLayout isLayout] at later ⊢
        exact ih later cursor start
      | false =>
        rw [token_of_not_isLayout isLayout] at later ⊢
        refine ih later rfl ?_
        rw [padTo, padTo, write_write, write_write, cursor]
        simp only [moveTo, write]
        split
        · exact id
        · exact start

theorem sets_of_isLayout {tokens : List Token} (layout : ∀ token ∈ tokens, token.isLayout = true)
    (page : Page) (fresh : Bool) (indents : List String) : page.Sets fresh indents tokens := by
  induction tokens generalizing page fresh indents with
  | nil => trivial
  | cons token rest ih =>
    rw [List.forall_mem_cons] at layout
    refine ⟨fun _ code => ?_, fun newline => ?_, ih layout.2 _ _ _⟩
    · simp [Token.isSignificant, layout.1] at code
    · have isLayout := layout.1
      simp [Token.isLayout, newline] at isLayout

def Knows (page : Page) : Prop :=
  page.atLineStart = page.text.toList.getLast?.all (· == '\n')

private theorem Knows.tokens {page : Page} (knows : page.Knows) (tokens : List Token) :
    (page.tokens tokens).Knows := by
  induction tokens generalizing page with
  | nil => exact knows
  | cons token rest ih =>
    refine ih ?_
    cases isLayout : token.isLayout with
    | true => rwa [token_of_isLayout isLayout]
    | false =>
      rw [token_of_not_isLayout isLayout, padTo, write_write]
      exact atLineStart_write knows _

/-- What ends the last row of a text in front of a line that is added: nothing, if it has ended. -/
def separator (text : String) : String :=
  if text = "" ∨ text.toList.getLast? = some '\n' then "" else "\n"

private theorem addedLine_eq {page : Page} (knows : page.Knows) (text : String) :
    page.addedLine "" text =
      ⟨page.text ++ separator page.text ++ text ++ "\n", true, none⟩ := by
  have ends : page.atLineStart = true ↔ page.text = "" ∨ page.text.toList.getLast? = some '\n' := by
    rw [knows]
    cases last : page.text.toList.getLast? with
    | none => simp [String.toList_eq_nil_iff.1 (List.getLast?_eq_none_iff.1 last)]
    | some c =>
      have filled : page.text ≠ "" := fun empty => by simp [empty] at last
      simp [filled]
  rw [addedLine, freshLine, separator]
  by_cases start : page.atLineStart = true
  · rw [if_pos start, if_pos (ends.1 start)]
    simp [write, moveTo, String.append_assoc]
  · rw [if_neg start, if_neg (mt ends.2 start)]
    simp [write, moveTo, String.append_assoc]

theorem statements_append (options : Options) (indent : String) (front back : List Stmt)
    (page : Page) : statements options indent (front ++ back) page =
      statements options indent back (statements options indent front page) := by
  induction front generalizing page with
  | nil => rfl
  | cons stmt rest ih => exact ih _

/-- A tree whose tokens are set is printed as they are, up to the line of an import between two of
its statements. Only a comment at the end of the text leaves its row open. -/
theorem text_with_import {options : Options} {first later : List Stmt} {front back rest : List Token}
    (coversFirst : BodyCovers first front) (coversLater : BodyCovers later back)
    (sets : ({} : Page).Sets true [] (front ++ (back ++ rest)))
    (seam : (({} : Page).tokens front).cursor = none ∨
      ∀ token ∈ back ++ rest, token.isLayout = true) :
    ∃ post, laidOut none (front ++ back) = laidOut none front ++ post ∧
      (statements options "" (first ++ .runtimeImport :: later) {}).text =
        laidOut none front ++ separator (laidOut none front) ++ options.importLine ++ "\n" ++ post := by
  obtain ⟨printedFirst, laterSets⟩ := statements_eq_tokens options first coversFirst sets
  have knows : (({} : Page).tokens front).Knows := Knows.tokens (rfl : ({} : Page).Knows) front
  have text : (({} : Page).tokens front).text = laidOut none front := by
    rw [text_tokens]
    exact String.empty_append
  have added := addedLine_eq knows options.importLine
  rw [text] at added
  generalize isPage : (({} : Page).tokens front).addedLine "" options.importLine = page at added
  -- Behind the added line the tokens are set as they were, or there are none left.
  have setsLater : page.Sets true [] (back ++ rest) := by
    rcases seam with none | layout
    · exact laterSets.congr (by rw [added, none]) fun _ => by rw [added]
    · exact sets_of_isLayout layout _ _ _
  have same : laidOut page.cursor back = laidOut (({} : Page).tokens front).cursor back := by
    rcases seam with none | layout
    · rw [added, none]
    · have layoutBack := (List.forall_mem_append.1 layout).1
      rw [laidOut_of_isLayout layoutBack, laidOut_of_isLayout layoutBack]
  obtain ⟨printedLater, -⟩ := statements_eq_tokens options later coversLater setsLater
  refine ⟨laidOut (({} : Page).tokens front).cursor back, laidOut_append none front back, ?_⟩
  calc (statements options "" (first ++ .runtimeImport :: later) {}).text
      = (statements options "" later ((({} : Page).tokens front).addedLine ""
          options.importLine)).text := by
        rw [statements_append, ← show statements options "" first {} = _ from printedFirst]
        rfl
    _ = (page.tokens back).text := by
        rw [isPage]
        exact congrArg Page.text printedLater
    _ = _ := by rw [text_tokens, same, added]

end Page

end DeferredDefaults
