import DeferredDefaults.Proofs.Coding.Writing
import DeferredDefaults.Proofs.Expansion.SigilFree
import DeferredDefaults.Proofs.Page.Growth

/-!
The preface of a printed tree. Its trivia is printed as it stands, and the first line of code behind
it is either the import or a line of the source that has to stand in front of the import.
-/

set_option autoImplicit false
set_option relaxedAutoImplicit false

namespace DeferredDefaults

open Coding (IsNote IsReturn Begins Prefaced)
open Token (Preface Opens)

namespace Page

variable {page : Page} {row : Nat} {lines : List (List Char)} {trivia rest : List Token}

private theorem token_of_rested {token : Token} (noLayout : token.isLayout = false)
    (rested : page.cursor = none) :
    (page.token token).text.toList =
      page.text.toList ++ (List.replicate token.start.col ' ' ++ token.text.toList) := by
  rw [toList_token noLayout, rested]
  simp [padding]

private theorem inked_token {comment : Token} {note : List Char}
    (isComment : comment.IsCommentOn row note) (page : Page) :
    (page.token comment).atLineStart = false := by
  rw [token_of_not_isLayout isComment.noLayout]
  refine atLineStart_write_of_getLast? (fun none => ?_) fun feed => ?_
  · have empty := isComment.text
    rw [none] at empty
    exact absurd empty.symm isComment.nonempty
  · rw [isComment.text] at feed
    cases isComment.isNote.row '\n' (List.mem_of_getLast? feed)

private theorem rested_token {feed : Token} {ending : List Char} (isFeed : feed.IsFeedOn row ending)
    (page : Page) : (page.token feed).cursor = none ∧
      (page.token feed).atLineStart = true := by
  have isBreak : feed.isBreak = true := by simp [Token.isBreak, isFeed.kind]
  rw [token_of_not_isLayout isFeed.noLayout, if_pos isBreak]
  refine ⟨rfl, ?_⟩
  simp [moveTo, write, isFeed.text]

private theorem spaces_replicate (count : Nat) :
    (List.replicate count ' ').all Lexeme.isSpace = true :=
  List.all_eq_true.2 fun c member => by rw [List.eq_of_mem_replicate member]; rfl

private theorem prefaced_tokens (preface : Preface row lines trivia rest)
    (rested : page.cursor = none) (start : page.atLineStart = true) :
    ∃ text, (page.tokens trivia).freshLine.text.toList = page.text.toList ++ text ∧
      ∀ code, Begins code → Prefaced lines (text ++ code) code := by
  induction preface generalizing page with
  | code _ =>
    refine ⟨[], ?_, fun code begins => @Prefaced.code [] code rfl begins⟩
    rw [List.append_nil]
    show page.freshLine.text.toList = _
    rw [freshLine, if_pos start]
  | @blank row feed ending lines trivia rest isFeed _ ih =>
    obtain ⟨next, nextStart⟩ := rested_token isFeed page
    obtain ⟨text, printed, prefaced⟩ := ih next nextStart
    refine ⟨List.replicate feed.start.col ' ' ++ ending ++ '\n' :: text, ?_, fun code begins => ?_⟩
    · show ((page.token feed).tokens trivia).freshLine.text.toList = _
      rw [printed, token_of_rested isFeed.noLayout rested, isFeed.text]
      simp
    · have line := Prefaced.line (spaces_replicate feed.start.col) IsNote.nil
        isFeed.isReturn (prefaced code begins)
      simpa using line
  | @comment row comment feed note ending lines trivia rest isComment isFeed place _ ih =>
    have noBreak : comment.isBreak = false := by simp [Token.isBreak, isComment.kind]
    obtain ⟨next, nextStart⟩ := rested_token isFeed (page.token comment)
    obtain ⟨text, printed, prefaced⟩ := ih next nextStart
    refine ⟨List.replicate comment.start.col ' ' ++ (note ++ ending) ++ '\n' :: text, ?_,
      fun code begins => ?_⟩
    · have cursor : (page.token comment).cursor = some comment.stop := by
        rw [token_of_not_isLayout isComment.noLayout, noBreak]
        rfl
      have none : padding (some comment.stop) feed.start = "" := by
        rw [place, padding_some, SourceText.gap_self]
      show (((page.token comment).token feed).tokens trivia).freshLine.text.toList = _
      rw [printed, toList_token isFeed.noLayout, cursor, none,
        token_of_rested isComment.noLayout rested, isComment.text, isFeed.text]
      simp
    · have line := Prefaced.line (spaces_replicate comment.start.col) isComment.isNote
        isFeed.isReturn (prefaced code begins)
      simpa using line
  | @last row comment stop note isComment _ =>
    refine ⟨List.replicate comment.start.col ' ' ++ note ++ ['\n'], ?_, fun code begins => ?_⟩
    · show (page.token comment).freshLine.text.toList = _
      rw [freshLine, inked_token isComment page, if_neg Bool.false_ne_true, text_moveTo, text_write,
        String.toList_append, token_of_rested isComment.noLayout rested, isComment.text]
      simp
    · have line := Prefaced.line (spaces_replicate comment.start.col) isComment.isNote
        (.inl rfl) (@Prefaced.code [] code rfl begins)
      simpa using line

end Page

private theorem Stmt.exists_head {stmt : Stmt} {tokens : List Token} (covers : stmt.Covers tokens)
    (noTrivia : stmt.isTrivia = false) :
    ∃ first more, tokens = first :: more ∧ first.isTrivia = false := by
  have ofLine : ∀ {line : List Token}, Line.IsWhole line → ∀ behind : List Token,
      ∃ (first : Token) (more : List Token),
        line ++ behind = first :: more ∧ first.isTrivia = false := by
    rintro line ⟨code, stop, split, -, -, head⟩ behind
    cases line with
    | nil => simp at split
    | cons first more => exact ⟨first, more ++ behind, rfl, head first rfl⟩
  cases stmt with
  | trivia => cases noTrivia
  | simple line =>
    obtain ⟨rfl, whole⟩ := covers
    simpa using ofLine whole []
  | compound header margin body =>
    obtain ⟨indent, inner, dedent, rfl, whole, -⟩ := covers
    simpa using ofLine whole (indent ++ inner ++ [dedent])
  | function header margin body =>
    obtain ⟨line, indent, inner, dedent, rfl, whole, -⟩ := covers
    simpa using ofLine whole (indent ++ inner ++ [dedent])
  | inlineFunction header suite => simpa using ofLine covers.1 []
  | prologue | runtimeImport => exact covers.elim

namespace LateBinding

variable {marker : String}

/-- What stands at the front of a body stays, up to the first statement that binding can change. -/
theorem exists_of_statements {front behind body : List Stmt}
    (plain : ∀ stmt ∈ front, stmt.isTrivia = true ∨ stmt.isDocstring = true ∨
      stmt.isFutureImport = true)
    (bound : statements marker body = .ok (front ++ behind)) :
    ∃ others, body = front ++ others ∧ statements marker others = .ok behind := by
  induction front generalizing body with
  | nil => exact ⟨body, rfl, bound⟩
  | cons stmt rest ih =>
    rw [List.forall_mem_cons] at plain
    cases body with
    | nil => cases bound
    | cons first more =>
      obtain ⟨first', boundFirst, bound⟩ := bind_eq_ok.1 bound
      obtain ⟨more', boundMore, bound⟩ := bind_eq_ok.1 bound
      obtain ⟨same, split⟩ := List.cons.inj (Except.ok.inj bound)
      subst same split
      obtain ⟨others, rfl, boundOthers⟩ := ih plain.2 boundMore
      exact ⟨others, by rw [eq_of_statement boundFirst plain.1]; rfl, boundOthers⟩

private theorem import_leads (body : List Stmt) : ∃ trivia behind : List Stmt,
    insertAt (importIndex body) .runtimeImport body = trivia ++ behind ∧
      (∀ stmt ∈ trivia, stmt.isTrivia = true) ∧
      ((∃ later : List Stmt, behind = .runtimeImport :: later ∧ body = trivia ++ later ∧
          ∀ next ∈ later.head?, next.isTrivia = false) ∨
        ∃ (line : List Token) (later others : List Stmt), behind = .simple line :: later ∧
          body = trivia ++ Stmt.simple line :: others) := by
  obtain ⟨start, futures, later, isBody, opens, run, isFront, isLater⟩ := exists_importIndex body
  rw [insertAt, isFront, isLater]
  obtain ⟨trivia, isTrivia, ⟨stmt, isDocstring, rfl⟩ | ⟨rfl, next⟩⟩ := opens
  · cases stmt with
    | simple line =>
      refine ⟨trivia, .simple line :: (futures ++ .runtimeImport :: later), by simp, isTrivia,
        .inr ⟨line, _, futures ++ later, rfl, by simp [isBody]⟩⟩
    | trivia | compound | function | inlineFunction | prologue | runtimeImport => cases isDocstring
  · cases futures with
    | nil =>
      exact ⟨start, .runtimeImport :: later, by simp, isTrivia,
        .inl ⟨later, rfl, by simp [isBody], fun stmt member => (next stmt member).1⟩⟩
    | cons stmt others =>
      have noTrivia := (next stmt rfl).1
      have isFuture := (run.imports stmt List.mem_cons_self).resolve_left (by simp [noTrivia])
      cases stmt with
      | simple line =>
        exact ⟨start, .simple line :: (others ++ .runtimeImport :: later), by simp, isTrivia,
          .inr ⟨line, _, others ++ later, rfl, by simp [isBody]⟩⟩
      | trivia | compound | function | inlineFunction | prologue | runtimeImport => cases isFuture

end LateBinding

private theorem Token.Preface.trivia {row : Nat} {lines : List (List Char)}
    {trivia rest : List Token} (preface : Preface row lines trivia rest) :
    (∀ token ∈ trivia, token.isTrivia = true) ∧ ∀ token ∈ rest.head?, token.isTrivia = false := by
  induction preface with
  | code opens =>
    refine ⟨List.forall_mem_nil _, ?_⟩
    rcases opens with ⟨stop, rfl, isStop⟩ | ⟨blocks, token, rest, rfl, indents, significant, -⟩
    · rintro token ⟨⟩
      simp [isTrivia, isStop]
    · cases blocks with
      | nil =>
        rintro token ⟨⟩
        rw [isSignificant, Bool.not_eq_true', Bool.or_eq_false_iff, Bool.or_eq_false_iff]
          at significant
        exact significant.1.1
      | cons block others =>
        rintro token ⟨⟩
        simp [isTrivia, (indents block List.mem_cons_self).1]
  | blank isFeed _ ih =>
    exact ⟨List.forall_mem_cons.2 ⟨by simp [isTrivia, isFeed.kind], ih.1⟩, ih.2⟩
  | comment isComment isFeed _ _ ih =>
    exact ⟨List.forall_mem_cons.2 ⟨by simp [isTrivia, isComment.kind],
      List.forall_mem_cons.2 ⟨by simp [isTrivia, isFeed.kind], ih.1⟩⟩, ih.2⟩
  | last isComment isStop =>
    refine ⟨List.forall_mem_singleton.2 (by simp [isTrivia, isComment.kind]), ?_⟩
    rintro token ⟨⟩
    simp [isTrivia, isStop]

private theorem Token.Preface.opens {row : Nat} {lines : List (List Char)}
    {trivia rest : List Token} (preface : Preface row lines trivia rest) :
    ∃ row, Opens row rest := by
  induction preface with
  | code opens => exact ⟨_, opens⟩
  | blank _ _ ih => exact ih
  | comment _ _ _ _ ih => exact ih
  | last _ isStop => exact ⟨row, .inl ⟨_, rfl, isStop⟩⟩

private theorem Token.eq_of_trivia {trivia rest trivia' rest' : List Token}
    (isTrivia : ∀ token ∈ trivia, token.isTrivia = true)
    (isTrivia' : ∀ token ∈ trivia', token.isTrivia = true)
    (head : ∀ token ∈ rest.head?, token.isTrivia = false)
    (head' : ∀ token ∈ rest'.head?, token.isTrivia = false)
    (same : trivia ++ rest = trivia' ++ rest') : trivia = trivia' ∧ rest = rest' := by
  have run : ∀ {trivia rest : List Token}, (∀ token ∈ trivia, token.isTrivia = true) →
      (∀ token ∈ rest.head?, token.isTrivia = false) →
      (trivia ++ rest).takeWhile Token.isTrivia = trivia := by
    intro trivia rest isTrivia head
    rw [List.takeWhile_append_of_pos isTrivia]
    cases rest with
    | nil => exact List.append_nil trivia
    | cons token more =>
      rw [List.takeWhile_cons, head token rfl]
      exact List.append_nil trivia
  have front : trivia = trivia' := by
    rw [← run isTrivia head, same, run isTrivia' head']
  subst front
  exact ⟨rfl, List.append_cancel_left same⟩

namespace Page

variable {options : Options}

private theorem statements_of_trivia {trivia : List Stmt} {tokens : List Token}
    (isTrivia : ∀ stmt ∈ trivia, stmt.isTrivia = true) (covers : BodyCovers trivia tokens) :
    (∀ token ∈ tokens, token.isTrivia = true) ∧ ∀ indent page,
      statements options indent trivia page = page.tokens tokens := by
  induction trivia generalizing tokens with
  | nil =>
    cases covers
    exact ⟨List.forall_mem_nil _, fun _ _ => rfl⟩
  | cons stmt rest ih =>
    rw [List.forall_mem_cons] at isTrivia
    obtain ⟨front, back, rfl, coversFirst, coversRest⟩ := covers
    obtain ⟨inside, printed⟩ := ih isTrivia.2 coversRest
    cases stmt with
    | trivia own =>
      obtain ⟨rfl, ownTrivia⟩ := coversFirst
      refine ⟨List.forall_mem_append.2 ⟨ownTrivia, inside⟩, fun indent page => ?_⟩
      rw [statements, statement, printed, tokens_append]
    | simple | compound | function | inlineFunction | prologue | runtimeImport =>
      cases isTrivia.1

private theorem exists_begins_line {row : Nat} {line more : List Token} (whole : Line.IsWhole line)
    (opens : Opens row (line ++ more)) (page : Page) : ∃ code, code ≠ [] ∧ Begins code ∧
      page.freshLine.text.toList ++ code <+: (page.line "" line).text.toList := by
  obtain ⟨first, others, rfl⟩ : ∃ first others, line = first :: others := by
    obtain ⟨code, stop, rfl, -⟩ := whole
    exact List.exists_cons_of_ne_nil (by simp)
  have noLayout := whole.noLayout first List.mem_cons_self
  rcases opens with ⟨stop, split, isStop⟩ |
    ⟨blocks, token, rest, split, indents, -, -, filled, isCode, -⟩
  · obtain ⟨rfl, -⟩ := List.cons.inj split
    simp [Token.isLayout, isStop] at noLayout
  · cases blocks with
    | cons block blocks =>
      obtain ⟨rfl, -⟩ := List.cons.inj split
      simp [Token.isLayout, (indents first List.mem_cons_self).1] at noLayout
    | nil =>
      obtain ⟨rfl, -⟩ := List.cons.inj split
      refine ⟨first.text.toList, fun empty => filled (String.toList_eq_nil_iff.1 empty),
        Coding.begins_of_isCode isCode, List.IsPrefix.trans ?_ (isPrefix_tokens _ others)⟩
      have printed := toList_token noLayout
        ((page.freshLine.write "").moveTo (some first.start))
      have cursor : ((page.freshLine.write "").moveTo (some first.start)).cursor =
        some first.start := rfl
      rw [cursor, padding_some, SourceText.gap_self, text_moveTo, text_write] at printed
      rw [printed]
      simp

private theorem exists_begins_import (options : Options) (page : Page) :
    ∃ code, code ≠ [] ∧ Begins code ∧
    page.freshLine.text.toList ++ code <+: (page.addedLine "" options.importLine).text.toList := by
  obtain ⟨rest, split⟩ : ∃ rest, options.importLine.toList = 'f' :: rest := by
    simp [Options.importLine]
  refine ⟨options.importLine.toList, by simp [split], ?_, ⟨['\n'], ?_⟩⟩
  · rw [split]
    rintro c ⟨⟩
    decide
  · simp [addedLine]

end Page

/-- The trivia at the front of a body is that of a preface, and the other statements stand for the
tokens behind it. -/
private theorem LateBinding.exists_behind {marker : String} {row : Nat} {lines : List (List Char)}
    {trivia rest front back : List Token} {body stmts others : List Stmt}
    (preface : Preface row lines trivia rest) (covers : BodyCovers body front)
    (isRest : Reader.IsRest back) (split : trivia ++ rest = front ++ back)
    (bound : statements marker body = .ok (stmts ++ others))
    (areTrivia : ∀ stmt ∈ stmts, stmt.isTrivia = true)
    (head : ∀ stmt ∈ others.head?, stmt.isTrivia = false) :
    ∃ source tokens, statements marker source = .ok others ∧ BodyCovers source tokens ∧
      rest = tokens ++ back ∧ BodyCovers stmts trivia := by
  obtain ⟨source, rfl, boundSource⟩ :=
    exists_of_statements (fun stmt member => .inl (areTrivia stmt member)) bound
  obtain ⟨first, later, rfl, coversFirst, coversLater⟩ := bodyCovers_append_iff.1 covers
  obtain ⟨isTrivia, headRest⟩ := preface.trivia
  have firstTrivia := (@Page.statements_of_trivia {} _ _ areTrivia coversFirst).1
  have headLater : ∀ token ∈ (later ++ back).head?, token.isTrivia = false := by
    cases source with
    | nil =>
      cases coversLater
      intro stop member
      simp [Token.isTrivia, isRest stop member]
    | cons stmt more =>
      obtain ⟨stmt', boundFirst, boundSource⟩ := bind_eq_ok.1 boundSource
      obtain ⟨more', boundMore, boundSource⟩ := bind_eq_ok.1 boundSource
      cases boundSource
      have noTrivia : stmt.isTrivia = false := by
        rw [← (sort_of_statement boundFirst).1]
        exact head _ rfl
      obtain ⟨own, tokens, rfl, coversStmt, -⟩ := coversLater
      obtain ⟨token, behind, rfl, tokenTrivia⟩ := Stmt.exists_head coversStmt noTrivia
      rintro token ⟨⟩
      exact tokenTrivia
  rw [List.append_assoc] at split
  obtain ⟨rfl, same⟩ := Token.eq_of_trivia isTrivia firstTrivia headRest headLater split
  exact ⟨source, later, boundSource, coversLater, same, coversFirst⟩

/-- What late binding makes of a tree is printed with the preface of its tokens. -/
theorem Program.exists_prefaced {options : Options} {marker : String} {program next : Program}
    {row : Nat} {lines : List (List Char)} {trivia rest : List Token}
    (preface : Preface row lines trivia rest)
    (read : Program.ofTokens (trivia ++ rest) = .ok program)
    (bound : program.bindLate marker = .ok next) :
    ∃ code, Prefaced lines (next.render options).toList code := by
  obtain ⟨front, back, covers, isRest, split⟩ := Program.covers_ofTokens read
  obtain ⟨body, boundBody, bound⟩ := bind_eq_ok.1 bound
  cases bound
  obtain ⟨stmts, behind, inserted, areTrivia, leads⟩ := LateBinding.import_leads body
  obtain ⟨text, printed, prefaced⟩ :=
    Page.prefaced_tokens preface (rfl : ({} : Page).cursor = none) rfl
  -- What is printed first behind the preface begins with code, and stays.
  have finish : ∀ {page : Page} {code : List Char}, code ≠ [] → Begins code →
      (({} : Page).tokens trivia).freshLine.text.toList ++ code <+: page.text.toList →
      ∀ later, ∃ code, Prefaced lines (Page.statements options "" later page).text.toList code := by
    intro page code some begins isPrefix later
    obtain ⟨more, whole⟩ := isPrefix.trans (Page.isPrefix_statements options "" later page)
    refine ⟨code ++ more, ?_⟩
    rw [← whole, printed, List.append_assoc, List.append_assoc]
    exact prefaced (code ++ more) (begins.append some more)
  show ∃ code, Prefaced lines
    (Page.statements options "" (LateBinding.insertAt _ _ body) {}).text.toList code
  rw [inserted, Page.statements_append]
  rcases leads with ⟨later, rfl, rfl, head⟩ | ⟨line, later, others, rfl, rfl⟩
  · obtain ⟨-, -, -, -, -, coversTrivia⟩ :=
      LateBinding.exists_behind preface covers isRest split boundBody areTrivia head
    rw [(Page.statements_of_trivia areTrivia coversTrivia).2, Page.statements, Page.statement]
    obtain ⟨code, some, begins, isPrefix⟩ :=
      Page.exists_begins_import options (({} : Page).tokens trivia)
    exact finish some begins isPrefix later
  · have head : ∀ stmt ∈ (Stmt.simple line :: others).head?, stmt.isTrivia = false := by
      rintro stmt ⟨⟩
      rfl
    obtain ⟨source, tokens, boundSource, coversSource, rfl, coversTrivia⟩ :=
      LateBinding.exists_behind preface covers isRest split boundBody areTrivia head
    cases source with
    | nil => cases boundSource
    | cons stmt more =>
      obtain ⟨stmt', boundFirst, boundSource⟩ := bind_eq_ok.1 boundSource
      obtain ⟨more', -, boundSource⟩ := bind_eq_ok.1 boundSource
      cases boundSource
      cases LateBinding.simple_of_statement boundFirst
      obtain ⟨own, tokens, rfl, ⟨rfl, whole⟩, -⟩ := coversSource
      obtain ⟨row, opens⟩ := preface.opens
      rw [List.append_assoc] at opens
      obtain ⟨code, some, begins, isPrefix⟩ :=
        Page.exists_begins_line whole opens (({} : Page).tokens trivia)
      rw [(Page.statements_of_trivia areTrivia coversTrivia).2, Page.statements, Page.statement]
      exact finish some begins isPrefix later

end DeferredDefaults
