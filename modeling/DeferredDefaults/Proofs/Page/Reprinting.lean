import DeferredDefaults.Proofs.Page.Typesetting
import DeferredDefaults.Proofs.Token.Indentation

/-!
Texts that are printed as they stand. Where only blanks stand between tokens and rows end with a
line feed, layout finds the tokens of a text set as a page prints them, and printing them one after
the other gives the text again.
-/

set_option autoImplicit false
set_option relaxedAutoImplicit false

namespace DeferredDefaults

namespace Lexeme

/-- The lexeme is printed as it stands: space is made of blanks, no row goes on behind a backslash,
and every row ends with a line feed. -/
structure Straight (lexeme : Lexeme) : Prop where
  blanks : lexeme.usesBlanks = true
  row : lexeme.kind ≠ .continuation
  rowEnd : lexeme.kind = .lineBreak → lexeme.text.getLast? = some '\n'

instance (lexeme : Lexeme) : Decidable lexeme.Straight :=
  decidable_of_iff (lexeme.usesBlanks = true ∧ lexeme.kind ≠ .continuation ∧
      (lexeme.kind = .lineBreak → lexeme.text.getLast? = some '\n'))
    ⟨fun ⟨blanks, row, rowEnd⟩ => ⟨blanks, row, rowEnd⟩,
      fun straight => ⟨straight.blanks, straight.row, straight.rowEnd⟩⟩

/-- Space at the end does not fill a row of its own. The lexemes begin a row or go on with one. -/
def Inked (rowStart : Bool) (lexemes : List Lexeme) : Prop :=
  ∀ front space, lexemes = front ++ [space] → space.kind = .space →
    (front.getLast?.elim rowStart fun previous => previous.kind == .lineBreak) = false

private theorem Inked.behind {rowStart : Bool} {front rest : List Lexeme} {lexeme : Lexeme}
    (inked : Inked rowStart (front ++ lexeme :: rest)) : Inked (lexeme.kind == .lineBreak) rest := by
  rintro more space rfl isSpace
  have last := inked (front ++ lexeme :: more) space (by simp) isSpace
  cases found : more.getLast? with
  | none => simpa [List.getLast?_eq_none_iff.1 found] using last
  | some previous => simpa [List.getLast?_append, List.getLast?_cons, found] using last

theorem continuesLines_of_straight {lexemes : List Lexeme} (straight : ∀ lexeme ∈ lexemes,
    lexeme.kind ≠ .continuation) (phase : Phase) : continuesLines phase lexemes = true := by
  induction lexemes generalizing phase with
  | nil => rfl
  | cons lexeme rest ih =>
    rw [List.forall_mem_cons] at straight
    rw [continuesLines]
    split
    · next continuation => exact absurd continuation straight.1
    · exact ih straight.2 _
    · exact ih straight.2 _

end Lexeme

private theorem Phase.not_fresh_of_newline {phase : Phase} {kind : Lexeme.Kind}
    (isNewline : phase.kindOf kind = .newline) : phase.fresh = false := by
  cases kind with
  | lineBreak =>
    cases fresh : phase.fresh with
    | false => rfl
    | true => simp [Phase.kindOf, Layout.kindOf, fresh] at isNewline
  | comment | space | continuation | string | openQuote | number | name | operator | stray =>
    cases isNewline

theorem Page.cursor_token {token : Token} (noLayout : token.isLayout = false) (page : Page) :
    (page.token token).cursor = if token.isBreak then none else some token.stop := by
  rw [token_of_not_isLayout noLayout]
  rfl

namespace Layout

open Page (Sets laidOut padding)

variable {phase : Phase} {layout : Layout} {last : Position} {lexemes : List Lexeme} {page : Page}

/-- The page has been printed up to where the layout reads. -/
structure Prints (phase : Phase) (layout : Layout) (page : Page) : Prop where
  rowStart : phase.rowStart = true → page.cursor = none ∧ page.atLineStart = true
  inRow : phase.rowStart = false → page.cursor = some layout.cursor

private theorem gap_eq {gap rest : List Lexeme} (reads : Lexeme.Reads (gap ++ rest))
    (isGap : ∀ lexeme ∈ gap, lexeme.IsGap) (straight : ∀ lexeme ∈ gap, lexeme.Straight) :
    ∃ count, gap = Lexeme.spaceOf (List.replicate count ' ') := by
  refine Lexeme.gap_eq_blanks reads ?_ fun lexeme member => (straight lexeme member).blanks
  intro lexeme member
  rcases (isGap lexeme member).shape with ⟨space, -⟩ | ⟨continuation, -⟩
  · exact space
  · exact absurd continuation (straight lexeme member).row

private theorem Prints.padding_eq (prints : Prints phase layout page)
    (inPhase : layout.InPhase phase) (count : Nat) :
    padding page.cursor (layout.cross (Lexeme.spaceOf (List.replicate count ' '))).cursor =
      String.ofList (List.replicate count ' ') := by
  rw [cross_spaceOf]
  cases rowStart : phase.rowStart with
  | true => simp [(prints.rowStart rowStart).1, padding, Position.right, inPhase.col rowStart]
  | false => simp [prints.inRow rowStart, padding, Position.right]

private theorem Prints.token {gap : List Lexeme} {lexeme : Lexeme} {settled : Layout}
    (same : settled = { layout.cross gap with blocks := settled.blocks })
    (straight : lexeme.Straight) (phase : Phase) (page : Page) :
    Prints (phase.after lexeme) (settled.behind lexeme)
      (page.token ((layout.cross gap).tokenFor lexeme)) := by
  have token : settled.tokenFor lexeme = (layout.cross gap).tokenFor lexeme := by
    rw [same, tokenFor_blocks]
  have noLayout := isLayout_tokenFor (layout.cross gap) lexeme
  have isBreak := isBreak_tokenFor (layout.cross gap) lexeme
  rw [Page.token_of_not_isLayout noLayout]
  refine ⟨fun rowStart => ?_, fun inRow => ?_⟩
  · have lineBreak := (phase.rowStart_after lexeme).1 rowStart
    rw [isBreak, lineBreak]
    refine ⟨rfl, ?_⟩
    rw [Page.moveTo, Page.write, text_tokenFor, String.toList_ofList, straight.rowEnd lineBreak]
    rfl
  · have noBreak : lexeme.kind ≠ .lineBreak := by
      intro lineBreak
      rw [(phase.rowStart_after lexeme).2 lineBreak] at inRow
      cases inRow
    have within : ((layout.cross gap).tokenFor lexeme).isBreak = false := by
      rw [isBreak, beq_eq_false_iff_ne]
      exact noBreak
    rw [cursor_behind, token, Token.behind, within]
    rfl

private theorem laidOut_blocks {blocks : List Token}
    (layoutOnly : ∀ block ∈ blocks, block.isLayout = true) (cursor : Option Position)
    (rest : List Token) :
    laidOut cursor (blocks ++ rest) = laidOut cursor rest := by
  induction blocks with
  | nil => rfl
  | cons block blocks ih =>
    rw [List.forall_mem_cons] at layoutOnly
    rw [List.cons_append, laidOut, if_pos layoutOnly.1, ih layoutOnly.2]

private theorem sets_settle {blocks rest : List Token} {settled : Layout} {count : Nat}
    (margin : layout.margin = List.replicate count ' ')
    (settles : layout.settle = .ok (blocks, settled))
    (sets : page.Sets true (settled.blocks.map blanks) rest) :
    page.Sets true (layout.blocks.map blanks) (blocks ++ rest) := by
  have layoutOnly := isLayout_of_settle settles
  have printed : page.tokens blocks = page := by
    clear settles sets
    induction blocks with
    | nil => rfl
    | cons block blocks ih =>
      rw [List.forall_mem_cons] at layoutOnly
      rw [Page.tokens_cons, Page.token_of_isLayout layoutOnly.1, ih layoutOnly.2]
  have fresh : blocks.foldl Token.freshAfter true = true := by
    clear settles sets printed
    induction blocks with
    | nil => rfl
    | cons block blocks ih =>
      rw [List.forall_mem_cons] at layoutOnly
      rw [List.foldl_cons, Token.freshAfter_of_isLayout layoutOnly.1, ih layoutOnly.2]
  have indents : blocks.foldl Token.indentsAfter (layout.blocks.map blanks) =
      settled.blocks.map blanks := by
    rcases settle_eq_ok settles with ⟨-, rfl, rfl⟩ | ⟨-, rfl, rfl⟩
    · simp [Token.indentsAfter, opening, margin, blanks]
    · simp only [kept_eq, List.map_drop]
      generalize layout.closed = closed
      generalize layout.blocks.map blanks = indents
      induction closed generalizing indents with
      | nil => rfl
      | cons inner closed ih => simpa [Token.indentsAfter, dedentAt] using ih indents.tail
  rw [Page.sets_append, printed, fresh, indents]
  exact ⟨Page.sets_of_isLayout layoutOnly _ _ _, sets⟩

private theorem headD_of_settle {blocks : List Token} {settled : Layout} {count : Nat}
    (margin : layout.margin = List.replicate count ' ')
    (settles : layout.settle = .ok (blocks, settled)) :
    (settled.blocks.map blanks).headD "" = String.ofList (List.replicate count ' ') := by
  have width : width layout.margin = count := by rw [margin, width_blanks]
  rcases settle_eq_ok settles with ⟨-, -, rfl⟩ | ⟨returns, -, rfl⟩
  · simp [width, blanks]
  · rw [width] at returns
    show (layout.kept.map blanks).headD "" = _
    cases kept : layout.kept with
    | nil =>
      rw [kept] at returns
      cases returns
      rfl
    | cons inner others =>
      rw [kept] at returns
      cases returns
      rfl

private theorem Indented.rowStart_of_isCode {gap rest : List Lexeme} {lexeme : Lexeme}
    (indented : Indented phase layout last (gap ++ lexeme :: rest))
    (isGap : ∀ lexeme ∈ gap, lexeme.IsGap) (isCode : lexeme.kind.isCode = true)
    (fresh : phase.fresh = true) : phase.rowStart = true := by
  rcases indented.rowStart fresh with rowStart | ends
  · exact rowStart
  · cases gap with
    | nil =>
      rw [ends lexeme rfl] at isCode
      cases isCode
    | cons first others =>
      have isBreak := ends first rfl
      rcases (isGap first (by simp)).shape with ⟨kind, -⟩ | ⟨kind, -⟩ <;>
        rw [kind] at isBreak <;> cases isBreak

private theorem gap_eq_nil {gap : List Lexeme} (indented : Indented phase layout last gap)
    (inked : Lexeme.Inked phase.rowStart gap)
    (fresh : phase.fresh = true) {count : Nat}
    (blankGap : gap = Lexeme.spaceOf (List.replicate count ' ')) : gap = [] := by
  rw [Lexeme.spaceOf] at blankGap
  split at blankGap
  · exact blankGap
  · rcases indented.rowStart fresh with rowStart | ends
    · have none := inked [] _ blankGap rfl
      rw [rowStart] at none
      cases none
    · have isBreak := ends _ (by rw [blankGap]; rfl)
      cases isBreak

private theorem sets_finish {gap : List Lexeme} {tokens : List Token}
    (indented : Indented phase layout last gap) (reads : Lexeme.Reads gap)
    (isGap : ∀ lexeme ∈ gap, lexeme.IsGap) (straight : ∀ lexeme ∈ gap, lexeme.Straight)
    (inked : Lexeme.Inked phase.rowStart gap) (prints : Prints phase layout page)
    (finished : (layout.cross gap).finish = .ok tokens) :
    page.Sets phase.fresh (layout.blocks.map blanks) tokens ∧
      laidOut page.cursor tokens = String.ofList (Lexeme.textOf gap) := by
  obtain ⟨count, blankGap⟩ := gap_eq (by rwa [List.append_nil]) isGap straight
  obtain ⟨place, finish⟩ := finish_of_depth (depth_of_finish finished)
  rw [finish, lineHasCode_cross, indented.inPhase.line] at finished
  have layoutOnly : ∀ token ∈ List.replicate (layout.cross gap).blocks.length (dedentAt place) ++
      [(⟨.endMarker, "", place, place⟩ : Token)], token.isLayout = true := by
    intro token member
    simp only [List.mem_append, List.mem_replicate, List.mem_singleton] at member
    rcases member with ⟨-, rfl⟩ | rfl <;> rfl
  generalize List.replicate (layout.cross gap).blocks.length (dedentAt place) ++
    [(⟨.endMarker, "", place, place⟩ : Token)] = closing at finished layoutOnly
  cases fresh : phase.fresh with
  | true =>
    rw [fresh] at finished
    cases finished
    refine ⟨Page.sets_of_isLayout layoutOnly _ _ _, ?_⟩
    rw [gap_eq_nil indented inked fresh blankGap]
    exact Page.laidOut_of_isLayout layoutOnly _
  | false =>
    rw [fresh] at finished
    cases finished
    refine ⟨⟨nofun, fun _ => rfl, Page.sets_of_isLayout layoutOnly _ _ _⟩, ?_⟩
    have padded := prints.padding_eq indented.inPhase count
    rw [← blankGap] at padded
    show padding _ _ ++ "" ++ laidOut none closing = _
    rw [padded, Page.laidOut_of_isLayout layoutOnly, blankGap, Lexeme.textOf_spaceOf,
      String.append_empty, String.append_empty]

/-- Layout finds tokens that are set as the page prints them, and printing gives the text again. -/
theorem sets_run {tokens : List Token} (indented : Indented phase layout last lexemes)
    (reads : Lexeme.Reads lexemes) (straight : ∀ lexeme ∈ lexemes, lexeme.Straight)
    (inked : Lexeme.Inked phase.rowStart lexemes) (prints : Prints phase layout page)
    (ran : layout.run lexemes = .ok tokens) :
    page.Sets phase.fresh (layout.blocks.map blanks) tokens ∧
      laidOut page.cursor tokens = String.ofList (Lexeme.textOf lexemes) := by
  generalize size : lexemes.length = n
  induction n using Nat.strongRecOn generalizing lexemes layout phase last tokens page with
  | ind n ih =>
    obtain ⟨gap, rest, rfl, isGap, head⟩ := Lexeme.exists_gap reads
    rw [run_gap isGap] at ran
    cases rest with
    | nil =>
      rw [List.append_nil] at indented reads straight inked ⊢
      exact sets_finish indented reads isGap straight inked prints ran
    | cons lexeme more =>
      obtain ⟨noSpace, noContinuation⟩ := head lexeme rfl
      have readsLexeme : Lexeme.Reads (lexeme :: more) := reads.drop
      have smaller : more.length < n := by
        rw [List.length_append, List.length_cons] at size
        omega
      have isStraight := straight lexeme (by simp)
      have straightMore : ∀ lexeme ∈ more, lexeme.Straight := fun lexeme member =>
        straight lexeme (by simp [member])
      obtain ⟨count, blankGap⟩ := gap_eq reads isGap fun lexeme member =>
        straight lexeme (by simp [member])
      have padded : padding page.cursor (layout.cross gap).cursor =
          String.ofList (Lexeme.textOf gap) := by
        rw [blankGap, prints.padding_eq indented.inPhase, Lexeme.textOf_spaceOf]
      obtain ⟨hasToken, cases⟩ := run_cons_eq_ok noSpace noContinuation ran
      have kind := indented.inPhase.kind_tokenFor gap lexeme
      obtain ⟨noLayout, significant, -, freshAfter⟩ := Phase.traits hasToken kind
      have noBlocks := Token.indentsAfter_of_not_isLayout noLayout
      have fresh : (layout.cross gap).atLineStart = phase.fresh := by
        rw [atLineStart_cross, indented.inPhase.fresh]
      have rowStart : (phase.after lexeme).rowStart = (lexeme.kind == .lineBreak) := by
        rw [Bool.eq_iff_iff, phase.rowStart_after lexeme, beq_iff_eq]
      have inkedMore : Lexeme.Inked (phase.after lexeme).rowStart more := rowStart ▸ inked.behind
      -- What follows the token, whatever blocks have opened or closed in front of it.
      have behind : ∀ (settled : Layout) (others : List Token),
          settled = { layout.cross gap with blocks := settled.blocks } →
          (settled.behind lexeme).run more = .ok others →
          (page.token ((layout.cross gap).tokenFor lexeme)).Sets
              (((layout.cross gap).tokenFor lexeme).freshAfter phase.fresh)
              (settled.blocks.map blanks) others ∧
            laidOut page.cursor ((layout.cross gap).tokenFor lexeme :: others) =
              String.ofList (Lexeme.textOf (gap ++ lexeme :: more)) := by
        intro settled others same ranRest
        obtain ⟨sets, text⟩ := ih more.length smaller
          (indented.behind same readsLexeme isGap hasToken) readsLexeme.2.2 straightMore inkedMore
          (Prints.token same isStraight phase page) ranRest rfl
        rw [blocks_behind] at sets
        refine ⟨by rwa [Token.freshAfter, ← freshAfter], ?_⟩
        have cursor := Page.cursor_token noLayout page
        rw [laidOut, if_neg (by simp [noLayout]), start_tokenFor, padded, text_tokenFor, ← cursor,
          text, Lexeme.textOf_append, Lexeme.textOf_cons, String.ofList_append, String.ofList_append,
          String.append_assoc]
      rcases cases with ⟨notFirst, others, rfl, ranRest⟩ |
        ⟨isFresh, isCode, blocks, settled, others, settles, rfl, ranRest⟩
      · obtain ⟨sets, text⟩ := behind (layout.cross gap) others rfl ranRest
        refine ⟨⟨fun isFresh code => ?_, fun isNewline => ?_, ?_⟩, text⟩
        · rw [fresh, isFresh, ← significant, code] at notFirst
          cases notFirst
        · exact Phase.not_fresh_of_newline (kind.symm.trans isNewline)
        · rwa [noBlocks, ← blocks_cross layout]
      · obtain ⟨sets, text⟩ := behind settled others (settle_blocks settles) ranRest
        rw [fresh] at isFresh
        rw [isFresh] at sets ⊢
        have layoutOnly := isLayout_of_settle settles
        refine ⟨?_, by rw [laidOut_blocks layoutOnly]; exact text⟩
        have margin := (indented.cross reads isGap isFresh).2.resolve_right fun ends => by
          rw [ends lexeme rfl] at isCode
          cases isCode
        obtain ⟨cursor, start⟩ := prints.rowStart (indented.rowStart_of_isCode isGap isCode isFresh)
        rw [← blocks_cross layout]
        refine sets_settle margin settles ⟨fun _ _ => ⟨cursor, start, ?_⟩, fun isNewline => ?_, ?_⟩
        · rw [start_tokenFor, headD_of_settle margin settles]
          simp [padding]
        · rw [← isFresh]
          exact Phase.not_fresh_of_newline (kind.symm.trans isNewline)
        · rwa [noBlocks]

end Layout

end DeferredDefaults
