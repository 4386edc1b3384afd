import DeferredDefaults.Proofs.Page.ParameterList
import DeferredDefaults.Proofs.Tree.Coverage

/-!
Printing line by line. Between two lines what is printed behind a page revises what the tokens spell
and is made of lines that say what is found. Trivia, lines of the text, lines that have been added
and the tokens around blocks each add their own part in front.
-/

set_option autoImplicit false
set_option relaxedAutoImplicit false

namespace DeferredDefaults

open Lexeme (Spacing Front Revised isLineEnd)
open Text.Identifier (isIdentifier)

namespace Page

/-- The row in print has not ended, and the text that is spelled goes on with its end. -/
structure IsOpen (page : Page) (last : Option Position) (old : List Char) : Prop where
  inked : page.atLineStart = false
  cursor : ∀ place ∈ last, page.cursor = some place
  ends : old.head?.all isLineEnd = true
  placed : old = [] ∨ last.isSome = true

/-- Between two lines what is printed behind the page revises what the tokens spell, and the lines
say what is found at the level of `blocks`. A row that is open is ended first. -/
def Proceeds (code : List Char) (page : Page) (tokens : List Token) (goal : List Char → Prop) :
    Prop :=
  ∃ rest, code = page.text.toList ++ rest ∧ ∀ last old, Spells ⟨0, true, last⟩ tokens old →
    Revised .free old rest ∧ goal rest ∧
      (page.IsOpen last old → rest.head?.all isLineEnd = true)

section Rules

variable {code : List Char} {page : Page} {later : List Token} {goal goal' : List Char → Prop}
  {begins : Bool} {blocks : List Nat} {found : List (Kind × String)} {indent : String}

theorem Proceeds.imp (implies : ∀ rest, goal rest → goal' rest)
    (proceeds : Proceeds code page later goal) : Proceeds code page later goal' := by
  obtain ⟨rest, split, behind⟩ := proceeds
  refine ⟨rest, split, fun last old spells => ?_⟩
  obtain ⟨revised, reached, ends⟩ := behind last old spells
  exact ⟨revised, implies rest reached, ends⟩

private theorem atLineStart_freshLine (page : Page) : page.freshLine.atLineStart = true := by
  rw [freshLine]
  split
  · next start => exact start
  · rfl

theorem Proceeds.freshLine
    (proceeds : Proceeds code page.freshLine later (Lines begins blocks · found)) :
    Proceeds code page later (Lines begins blocks · found) := by
  rw [Page.freshLine] at proceeds
  split at proceeds
  · exact proceeds
  · obtain ⟨rest, split, behind⟩ := proceeds
    rw [text_moveTo, text_write, String.toList_append, List.append_assoc] at split
    refine ⟨_, split, fun last old spells => ?_⟩
    obtain ⟨revised, lines, _⟩ := behind last old spells
    refine ⟨revised.plain (by decide) (List.forall_mem_nil _), ?_, fun _ => rfl⟩
    exact @Lines.blank _ _ [] ['\n'] _ _ .nil (by decide) lines

theorem Proceeds.ended (isCode : code = page.text.toList) :
    Proceeds code page later (Lines false [] · [(.endMarker, "")]) :=
  ⟨[], by rw [isCode, List.append_nil], fun _ _ _ =>
    ⟨⟨nofun, nofun, nofun, fun _ _ _ => rfl, nofun⟩, Lines.ended, fun _ => rfl⟩⟩

theorem Proceeds.layout {token : Token} (isLayout : token.isLayout = true)
    (proceeds : Proceeds code page later goal) : Proceeds code page (token :: later) goal := by
  obtain ⟨rest, split, behind⟩ := proceeds
  refine ⟨rest, split, fun last old spells => ?_⟩
  obtain ⟨revised, reached, ends⟩ := behind none old ((spells_layout isLayout).1 spells).2
  refine ⟨revised, reached, fun isOpen => ends ⟨isOpen.inked, nofun, isOpen.ends, .inl ?_⟩⟩
  exact spells.ends_of_isLayout isLayout isOpen.ends

private theorem Proceeds.blank {token : Token} (isNl : token.kind = .nl)
    (proceeds : Proceeds code (page.token token) later (Lines begins blocks · found)) :
    Proceeds code page (token :: later) (Lines begins blocks · found) := by
  have noLayout : token.isLayout = false := by simp [Token.isLayout, isNl]
  have isBreak : token.isBreak = true := by simp [Token.isBreak, isNl]
  obtain ⟨rest, split, behind⟩ := proceeds
  rw [toList_token noLayout, List.append_assoc, List.append_assoc] at split
  refine ⟨_, split, fun last old spells => ?_⟩
  obtain ⟨gap, others, rfl, spacing, isGap, spelled, spellsLater⟩ := (spells_token noLayout).1 spells
  have spot : Spot.after ⟨0, true, last⟩ token = ⟨0, true, none⟩ := by
    rw [Spot.after, noLayout, Token.depthAfter_of_kind (by simp [isNl])]
    simp [Token.isSignificant, Token.isTrivia, isNl, isBreak]
  rw [spot] at spellsLater
  obtain ⟨revised, lines, _⟩ := behind none others spellsLater
  have member := spelled.mem_breaks isBreak (spelled.nonempty (by simp [isNl]))
  have spacingPad := spacing_padding page.cursor token.start
  refine ⟨(revised.lineBreak member).gaps spacing spacingPad, Lines.blank spacingPad member lines,
    fun isOpen => ?_⟩
  -- The row ends at once, so there is no gap in front of the line break.
  have noGap : gap = [] := by
    by_contra some
    obtain ⟨c, more, split, _, lineEnd⟩ := spacing.head some (token.text.toList ++ others)
    have ends := isOpen.ends
    rw [split, List.head?_cons, Option.all_some, lineEnd] at ends
    cases ends
  obtain ⟨place, isLast⟩ : ∃ place, last = some place := by
    rcases isOpen.placed with none | isSome
    · rw [noGap, List.nil_append, List.append_eq_nil_iff] at none
      rw [none.1] at member
      exact absurd member (by decide)
    · exact Option.isSome_iff_exists.1 isSome
  have noPad : (padding page.cursor token.start).toList = [] := by
    rw [isOpen.cursor place isLast, padding_some, String.toList_ofList, ← isGap place isLast, noGap]
  rw [noPad]
  exact Lexeme.ends_of_mem_breaks member rest

private theorem Proceeds.comment {token : Token} (isComment : token.kind = .comment)
    (proceeds : Proceeds code (page.token token) later (Lines begins blocks · found)) :
    Proceeds code page (token :: later) (Lines begins blocks · found) := by
  have noLayout : token.isLayout = false := by simp [Token.isLayout, isComment]
  have noBreak : token.isBreak = false := by simp [Token.isBreak, isComment]
  obtain ⟨rest, split, behind⟩ := proceeds
  rw [toList_token noLayout, List.append_assoc, List.append_assoc] at split
  refine ⟨_, split, fun last old spells => ?_⟩
  obtain ⟨gap, others, rfl, spacing, _, spelled, spellsLater⟩ := (spells_token noLayout).1 spells
  have spot : Spot.after ⟨0, true, last⟩ token = ⟨0, true, some token.stop⟩ := by
    rw [Spot.after, noLayout, Token.depthAfter_of_kind (by simp [isComment])]
    simp [Token.isSignificant, Token.isTrivia, isComment, noBreak]
  rw [spot] at spellsLater
  obtain ⟨revised, lines, ends⟩ := behind (some token.stop) others spellsLater
  have endsOld := spelled.ends isComment
  obtain ⟨cursor, inked⟩ := place_of_spelled spelled noBreak page
  have endsNew := ends ⟨inked, by rintro place ⟨⟩; exact cursor, endsOld, .inr rfl⟩
  have onRow : Revised .lexeme others rest :=
    revised.bounded (Lexeme.bounded_of_ends endsOld) (Lexeme.bounded_of_ends endsNew)
      fun _ => endsNew
  have spacingPad := spacing_padding page.cursor token.start
  have form := spelled
  cases form with
  | cutOff isNewline =>
    rw [isComment] at isNewline
    cases isNewline
  | lexeme kind hasToken noStray sameKind nonempty read =>
    have some : token.text.toList ≠ [] := fun none => nonempty (String.toList_eq_nil_iff.1 none)
    rw [(Lexeme.kind_of_kindOf sameKind).2.2 isComment] at read
    have again := Lexeme.first_of_revised some read rfl (by rintro ⟨⟩) (by rintro ⟨⟩) onRow
    refine ⟨(onRow.append some).gaps spacing spacingPad,
      Lines.comment spacingPad some again endsNew lines, fun isOpen => ?_⟩
    have goesOn := isOpen.ends
    rw [spelled.head noBreak spacing] at goesOn
    cases goesOn

theorem Proceeds.trivia {tokens : List Token} (trivia : ∀ token ∈ tokens, token.isTrivia = true)
    (proceeds : Proceeds code (page.tokens tokens) later (Lines begins blocks · found)) :
    Proceeds code page (tokens ++ later) (Lines begins blocks · found) := by
  induction tokens generalizing page with
  | nil => exact proceeds
  | cons token rest ih =>
    rw [List.forall_mem_cons] at trivia
    have behind := ih trivia.2 proceeds
    have isTrivia := trivia.1
    rw [Token.isTrivia, Bool.or_eq_true, beq_iff_eq, beq_iff_eq] at isTrivia
    rcases isTrivia with isComment | isNl
    · exact behind.comment isComment
    · exact behind.blank isNl

/-- The desk behind the first token of a line. -/
def Desk.first (token : Token) (blocks : List Nat) : Desk where
  front := .lexeme
  spot := ⟨token.depthAfter 0, false, some token.stop⟩
  blocks := blocks

/-- The first token of a line, at its indentation. -/
theorem Proceeds.first {token : Token} (noLayout : token.isLayout = false)
    (noTrivia : token.isTrivia = false) (spaces : indent.toList.all Lexeme.isSpace = true)
    (level : Layout.width indent.toList = blocks.headD 0)
    (continues : Continues code (.first token blocks)
      (((page.write indent).moveTo (some token.start)).token token) later found) :
    Proceeds code page (token :: later)
      (Lines true blocks · (token.kind.gist token.text ++ found)) := by
  obtain ⟨rest, split, behind⟩ := continues
  have noPad : padding (some token.start) token.start = "" := by simp [padding]
  rw [toList_token noLayout, text_moveTo, text_write, String.toList_append, List.append_assoc,
    List.append_assoc, Page.moveTo, noPad, String.toList_empty, List.nil_append] at split
  refine ⟨_, split, fun last old spells => ?_⟩
  obtain ⟨gap, others, rfl, spacing, _, spelled, spellsLater⟩ := (spells_token noLayout).1 spells
  have form := spelled
  cases form with
  | cutOff _ _ _ _ inLine => cases inLine
  | lexeme kind hasToken noStray sameKind nonempty read =>
    obtain ⟨_, significant, isBreak⟩ := Lexeme.traits_of_kindOf hasToken sameKind
    have isCode : kind.isCode = true := by
      cases kind with
      | lineBreak | comment => simp [Token.isTrivia, sameKind, Layout.kindOf] at noTrivia
      | space | continuation | openQuote => cases hasToken
      | string | number | name | operator | stray => rfl
    rw [isCode] at significant
    have noBreak := (Token.traits_of_isSignificant significant).2
    have noNewline : (token.kind == .newline) = false := by
      rw [Token.isBreak, Bool.or_eq_false_iff] at noBreak
      exact noBreak.1
    have spot : Spot.after ⟨0, true, last⟩ token = ⟨token.depthAfter 0, false, some token.stop⟩ := by
      simp [Spot.after, noLayout, noBreak, significant, noNewline]
    have agrees := Desk.agrees_token spelled noLayout noBreak (by rw [spot])
      ((page.write indent).moveTo (some token.start)) 0 blocks
    rw [spot] at agrees spellsLater
    obtain ⟨revised, follows⟩ := behind agrees others spellsLater
    obtain ⟨revised, again⟩ :=
      Lexeme.read_anew nonempty hasToken noStray sameKind read (.lexeme noBreak) revised
    have sameKind : token.kind = Layout.codeKind kind := by
      cases kind <;> first | exact sameKind | cases isCode
    refine ⟨revised.gaps spacing (.of_isSpace spaces), ?_, fun isOpen => ?_⟩
    · refine Lines.first spaces level nonempty isCode sameKind (again.resolve_left ?_)
        (follows [] .nil)
      rintro ⟨rfl, _⟩
      cases isCode
    · have goesOn := isOpen.ends
      rw [spelled.head noBreak spacing] at goesOn
      cases goesOn

private theorem Continues.newline {desk : Desk} {token : Token} (isNewline : token.kind = .newline)
    (noSingle : desk.front ≠ .single) (noExtra : desk.extra = 0)
    (proceeds : Proceeds code (page.token token) later (Yields {} desk.blocks · found)) :
    Continues code desk page (token :: later) ((.newline, "") :: found) := by
  have noLayout : token.isLayout = false := by simp [Token.isLayout, isNewline]
  have isBreak : token.isBreak = true := by simp [Token.isBreak, isNewline]
  obtain ⟨rest, split, behind⟩ := proceeds
  rw [toList_token noLayout, List.append_assoc, List.append_assoc] at split
  refine ⟨_, split, fun agrees old spells => ?_⟩
  obtain ⟨gap, others, rfl, spacing, isGap, spelled, spellsLater⟩ := (spells_token noLayout).1 spells
  have closed : desk.spot.depth = 0 := by
    cases spelled with
    | cutOff _ _ _ closed => exact closed
    | lexeme kind hasToken _ sameKind =>
      rw [(Lexeme.traits_of_kindOf hasToken sameKind).2.2, beq_iff_eq] at isBreak
      rw [isNewline, isBreak, Layout.kindOf] at sameKind
      by_contra deep
      rw [if_pos (.inl (Nat.pos_of_ne_zero deep))] at sameKind
      cases sameKind
  have spot : desk.spot.after token = ⟨0, true, none⟩ := by
    simp [Spot.after, noLayout, isBreak, isNewline, Token.depthAfter_of_kind, closed]
  have onRow : desk.front = .lexeme := by
    cases front : desk.front with
    | lexeme => rfl
    | single => exact absurd front noSingle
    | free =>
      have deep := agrees.closed front
      omega
  rw [spot] at spellsLater
  obtain ⟨revised, yields, ends⟩ := behind none others spellsLater
  have samePad := agrees.gap_eq onRow isGap
  rw [closed, noExtra, onRow, ← samePad]
  have form := spelled
  cases form with
  | lexeme kind hasToken noStray sameKind nonempty read =>
    have member := spelled.mem_breaks isBreak nonempty
    refine ⟨(revised.lineBreak member).spaced spacing, fun pad space => ?_⟩
    rw [← List.append_assoc]
    exact @Yields.lineBreak (.inside 0) _ _ _ _ _ (space.append spacing) member yields
  | cutOff _ none isEnd _ _ noLineFeed =>
    subst isEnd
    have inked : (page.token token).atLineStart = false := by
      have padded : (page.padTo token.start).atLineStart = false := by
        refine atLineStart_write_of_getLast? (fun _ => agrees.inked onRow) ?_
        rwa [← samePad]
      rw [token_of_not_isLayout noLayout, none]
      exact @atLineStart_write_of_getLast? (page.padTo token.start) "" (fun _ => padded) (by decide)
    have endsNew := ends ⟨inked, by rintro _ ⟨⟩, rfl, .inl rfl⟩
    have onEnd : Revised .lexeme [] rest :=
      revised.bounded trivial (Lexeme.bounded_of_ends endsNew) fun _ => endsNew
    rw [none, String.toList_empty, List.nil_append, List.nil_append]
    refine ⟨onEnd.spaced spacing, fun pad space => ?_⟩
    rw [← List.append_assoc]
    exact Yields.rowEnd endsNew yields (space.append spacing)

theorem Continues.lineEnd {desk : Desk} {tokens : List Token} {stop : Token}
    (inLine : ∀ token ∈ tokens, token.isLayout = false ∧ token.kind ≠ .newline)
    (isNewline : stop.kind = .newline) (noSingle : desk.front ≠ .single) (noExtra : desk.extra = 0)
    (proceeds : Proceeds code (page.tokens (tokens ++ [stop])) later
      (Yields {} desk.blocks · found)) :
    Continues code desk page (tokens ++ [stop] ++ later) (gist (tokens ++ [stop]) ++ found) := by
  have behind := desk.behind_eq tokens
  have said : gist [stop] = [(.newline, "")] := by simp [Kind.gist, isNewline]
  rw [tokens_append] at proceeds
  rw [List.append_assoc, gist_append, List.append_assoc, said]
  refine Continues.tokens inLine (fun single => absurd single noSingle) (.inl noExtra) ?_
  refine Continues.newline isNewline (Desk.front_behind noSingle tokens) ?_ ?_
  · rw [behind]
    exact noExtra
  · rw [behind]
    exact proceeds

theorem isPrefix_freshLine (page : Page) :
    page.text.toList <+: page.freshLine.text.toList := by
  rw [Page.freshLine]
  split
  · exact List.prefix_rfl
  · rw [text_moveTo, text_write, String.toList_append]
    exact List.prefix_append _ _

private theorem Proceeds.of_newline {stop : Token} (isNewline : stop.kind = .newline)
    (isPrefix : page.text.toList <+: code) : Proceeds code page (stop :: later) goal := by
  obtain ⟨rest, split⟩ := isPrefix
  refine ⟨rest, split.symm, fun last old spells => ?_⟩
  rw [spells_token (by simp [Token.isLayout, isNewline])] at spells
  obtain ⟨_, _, _, _, _, spelled, _⟩ := spells
  cases spelled with
  | cutOff _ _ _ _ inLine => cases inLine
  | lexeme kind hasToken _ sameKind =>
    have isBreak : stop.isBreak = true := by simp [Token.isBreak, isNewline]
    rw [(Lexeme.traits_of_kindOf hasToken sameKind).2.2, beq_iff_eq] at isBreak
    rw [isNewline, isBreak] at sameKind
    cases sameKind

theorem Proceeds.line {line : List Token} (whole : Line.IsWhole line)
    (spaces : indent.toList.all Lexeme.isSpace = true)
    (level : Layout.width indent.toList = blocks.headD 0)
    (proceeds : Proceeds code (page.line indent line) later (Yields {} blocks · found)) :
    Proceeds code page (line ++ later) (Lines true blocks · (gist line ++ found)) := by
  obtain ⟨tokens, stop, rfl, isNewline, inLine, noTrivia⟩ := whole
  cases tokens with
  | nil =>
    refine Proceeds.of_newline isNewline ?_
    obtain ⟨rest, split, _⟩ := proceeds
    refine (isPrefix_freshLine page).trans (List.IsPrefix.trans ?_ ⟨rest, split.symm⟩)
    refine List.IsPrefix.trans ?_ (isPrefix_tokens _ [stop])
    rw [text_moveTo, text_write, String.toList_append]
    exact List.prefix_append _ _
  | cons first more =>
    rw [List.forall_mem_cons] at inLine
    have behind := @Continues.lineEnd _ _ _ _ (.first first blocks) _ _
      (fun token member => (inLine.2 token member).symm) isNewline (by nofun) rfl proceeds
    have begun := Proceeds.first inLine.1.2 (noTrivia first rfl) spaces level behind
    rw [← List.append_assoc, ← gist_cons] at begun
    exact begun.freshLine

private theorem Proceeds.added {text : String} (isLine : Phrase.IsLine text)
    (spaces : indent.toList.all Lexeme.isSpace = true)
    (level : Layout.width indent.toList = blocks.headD 0)
    (proceeds : Proceeds code (page.addedLine indent text) later (Lines begins blocks · found)) :
    Proceeds code page later (Lines true blocks · (lineGist text ++ found)) := by
  refine Proceeds.freshLine ?_
  obtain ⟨rest, split, behind⟩ := proceeds
  rw [Page.addedLine, text_moveTo, text_write, String.toList_append, String.toList_append,
    String.toList_append, List.append_assoc, List.append_assoc, List.append_assoc] at split
  refine ⟨_, split, fun last old spells => ?_⟩
  obtain ⟨revised, lines, _⟩ := behind last old spells
  obtain ⟨first, words, isText, stands, _⟩ := id isLine
  refine ⟨?_, Lines.added isLine spaces level lines, fun isOpen => ?_⟩
  · have ended : Revised .free old ("\n".toList ++ rest) :=
      revised.plain (by decide) (List.forall_mem_nil _)
    have put : Revised .free old (text.toList ++ ("\n".toList ++ rest)) :=
      ended.plain (by rw [isText]; exact stands.plain) (List.forall_mem_nil _)
    exact put.gaps .nil (.of_isSpace spaces)
  · have inked := isOpen.inked
    rw [atLineStart_freshLine] at inked
    cases inked

theorem Proceeds.addedLines {lines : List String} (areLines : ∀ line ∈ lines, Phrase.IsLine line)
    (spaces : indent.toList.all Lexeme.isSpace = true)
    (level : Layout.width indent.toList = blocks.headD 0)
    (proceeds : Proceeds code (lines.foldl (addedLine · indent) page) later
      (Lines begins blocks · found)) :
    Proceeds code page later
      (Lines (!lines.isEmpty || begins) blocks · (lines.flatMap lineGist ++ found)) := by
  induction lines generalizing page with
  | nil => exact proceeds
  | cons line rest ih =>
    rw [List.forall_mem_cons] at areLines
    have behind := ih areLines.2 proceeds
    rw [List.flatMap_cons, List.append_assoc]
    exact Proceeds.added areLines.1 spaces level behind

/-- A suite that goes to lines of its own below its header. It begins with code. -/
theorem Continues.expand {desk : Desk} {width : Nat} {suite : List Token} {stop : Token}
    (inLine : ∀ token ∈ suite, token.isLayout = false ∧ token.kind ≠ .newline)
    (hasCode : ∃ token ∈ suite, token.isTrivia = false)
    (isSingle : desk.front = .single) (noExtra : desk.extra = 0) (closed : desk.spot.depth = 0)
    (deeper : desk.blocks.headD 0 < width) (isPrefix : page.text.toList <+: code)
    (proceeds : (∀ first ∈ suite.head?, first.isTrivia = false) →
      Proceeds code ((page.write "\n").moveTo none) (suite ++ [stop] ++ later)
        (Lines true (width :: desk.blocks) · found)) :
    Continues code desk page (suite ++ [stop] ++ later)
      ((.newline, "") :: (.indent, "") :: found) := by
  have begins : desk.Agrees page → ∀ old, Spells desk.spot (suite ++ [stop] ++ later) old →
      ∃ first more, suite = first :: more ∧ first.isSignificant = true := by
    intro agrees old spells
    have spot : desk.spot = ⟨0, false, desk.spot.last⟩ := by
      rw [← closed, ← agrees.fresh]
    rw [spot, List.append_assoc] at spells
    exact spells.isSignificant_head inLine hasCode
  by_cases code_ : ∀ first ∈ suite.head?, first.isTrivia = false
  · obtain ⟨rest, split, behind⟩ := proceeds code_
    rw [text_moveTo, text_write, String.toList_append, List.append_assoc] at split
    refine ⟨_, split, fun agrees old spells => ?_⟩
    obtain ⟨first, more, rfl, significant⟩ := begins agrees old spells
    have spot : desk.spot = ⟨0, false, desk.spot.last⟩ := by
      rw [← closed, ← agrees.fresh]
    rw [spot] at spells
    have fresh : Spells ⟨0, true, none⟩ (first :: more ++ [stop] ++ later) old :=
      spells.refresh significant
    obtain ⟨revised, lines, _⟩ := behind none old fresh
    have put : Revised .free old ("\n".toList ++ rest) :=
      revised.plain (by decide) (List.forall_mem_nil _)
    rw [isSingle, closed, noExtra]
    refine ⟨put.toSingle nofun, fun gap spacing => ?_⟩
    exact @Yields.lineBreak (.inside 0) _ _ ['\n'] _ _ spacing (by decide) (lines.opens deeper)
  · obtain ⟨rest, split⟩ := isPrefix
    refine ⟨rest, split.symm, fun agrees old spells => absurd ?_ code_⟩
    obtain ⟨first, more, rfl, significant⟩ := begins agrees old spells
    rintro _ ⟨⟩
    simp only [Token.isSignificant, Bool.not_eq_true', Bool.or_eq_false_iff] at significant
    exact significant.1.1

end Rules

end Page

end DeferredDefaults
