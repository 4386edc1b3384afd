import DeferredDefaults.Proofs.Page.Phrase
import DeferredDefaults.Proofs.Page.Placement
import DeferredDefaults.Proofs.Token.Spelling

/-!
Printing within a line. What is printed behind a page revises what the tokens spell, and reading it
finds their gist; every way of printing adds its own part in front. Gaps stay as they are behind a
token of the same row, and elsewhere nothing looks at them.
-/

set_option autoImplicit false
set_option relaxedAutoImplicit false

namespace DeferredDefaults

open Lexeme (Spacing Front Revised)

inductive Token.Leaves (token : Token) : Front → Prop
  | lexeme : token.isBreak = false → Token.Leaves token .lexeme
  | lineBreak : token.isBreak = true → Token.Leaves token .free
  | single : token.isOp "=" = true ∨ token.isOp ":" = true → Token.Leaves token .single

theorem Token.depthAfter_add {token : Token} {depth extra : Nat}
    (enclosed : extra = 0 ∨ (token.closesBracket = true → 0 < depth)) :
    token.depthAfter (depth + extra) = token.depthAfter depth + extra := by
  unfold Token.depthAfter
  split
  · omega
  · split
    · next closes =>
      rcases enclosed with rfl | inside
      · rfl
      · have deep := inside closes
        omega
    · rfl

namespace Lexeme

variable {text old new gap pad : List Char} {kind : Kind} {front : Front}

private theorem Revised.padded (spacing : Spacing gap) (spacing' : Spacing pad)
    (same : front = .lexeme → gap = pad) (noEquals : front = .single → new.head? ≠ some '=')
    (revised : Revised .lexeme old new) : Revised front (gap ++ old) (pad ++ new) := by
  cases front with
  | lexeme =>
    rw [same rfl]
    exact revised.spaced spacing'
  | free => exact revised.gaps spacing spacing'
  | single =>
    exact (revised.gaps spacing spacing').toSingle (spacing'.noEquals (noEquals rfl))

private theorem single_of_isOp {token : Token}
    (isSingle : token.isOp "=" = true ∨ token.isOp ":" = true) :
    token.kind = .op ∧ ∃ c, (c = '=' ∨ c = ':') ∧ token.text.toList = [c] := by
  rcases isSingle with single | single
  · obtain ⟨isOp, text⟩ := Token.isOp_iff.1 single
    exact ⟨isOp, '=', .inl rfl, by rw [text]; rfl⟩
  · obtain ⟨isOp, text⟩ := Token.isOp_iff.1 single
    exact ⟨isOp, ':', .inr rfl, by rw [text]; rfl⟩

/-- A token is read anew in front of what is printed behind it. -/
theorem read_anew {token : Token} {depth : Nat} {fresh : Bool}
    (nonempty : token.text ≠ "") (hasToken : kind.hasToken = true) (noStray : kind ≠ .stray)
    (sameKind : token.kind = Layout.kindOf depth fresh kind)
    (read : first (token.text.toList ++ old) = (kind, token.text.toList.length))
    {next : Front} (leaves : token.Leaves next) (revised : Revised next old new) :
    Revised .lexeme (token.text.toList ++ old) (token.text.toList ++ new) ∧
      (kind = .lineBreak ∧ token.text.toList ∈ breaks ∨
        first (token.text.toList ++ new) = (kind, token.text.toList.length)) := by
  have some : token.text.toList ≠ [] := fun none => nonempty (String.toList_eq_nil_iff.1 none)
  have isBreak := (traits_of_kindOf hasToken sameKind).2.2
  cases leaves with
  | lexeme within =>
    rw [isBreak, beq_eq_false_iff_ne] at within
    exact ⟨revised.append some, .inr (first_of_revised some read hasToken noStray within revised)⟩
  | lineBreak ends =>
    rw [isBreak, beq_iff_eq] at ends
    subst ends
    have member := ((first_lineBreak_iff some).1 read).1
    exact ⟨revised.lineBreak member, .inl ⟨rfl, member⟩⟩
  | single isSingle =>
    obtain ⟨isOp, c, isSingle, text⟩ := single_of_isOp isSingle
    have isOperator := (kind_of_kindOf sameKind).1 isOp
    subst isOperator
    rw [text] at read ⊢
    exact ⟨revised.afterSingle isSingle (noEquals_of_single isSingle read),
      .inr (first_of_single isSingle (revised.single rfl))⟩

end Lexeme

private theorem Follows.token {token : Token} {kind : Lexeme.Kind} {depth extra : Nat}
    {blocks : List Nat}
    {pad rest : List Char} {found : List (Kind × String)} (spacing : Spacing pad)
    (nonempty : token.text ≠ "") (hasToken : kind.hasToken = true)
    (sameKind : token.kind = Layout.kindOf depth false kind) (noNewline : token.kind ≠ .newline)
    (enclosed : extra = 0 ∨ (token.closesBracket = true → 0 < depth))
    (read : kind = .lineBreak ∧ token.text.toList ∈ Lexeme.breaks ∨
      Lexeme.first (token.text.toList ++ rest) = (kind, token.text.toList.length))
    (follows : Follows (token.depthAfter depth + extra) blocks rest found) :
    Follows (depth + extra) blocks (pad ++ (token.text.toList ++ rest))
      (token.kind.gist token.text ++ found) := by
  intro gap space
  rw [← List.append_assoc]
  have spacing := space.append spacing
  have yields := follows [] .nil
  rw [← Token.depthAfter_add enclosed] at yields
  by_cases isCode : kind.isCode = true
  · have sameKind : token.kind = Layout.codeKind kind := by
      cases kind <;> first | exact sameKind | cases isCode
    refine Yields.code spacing nonempty isCode sameKind (read.resolve_left ?_) yields
    rintro ⟨rfl, _⟩
    cases isCode
  · have some : token.text.toList ≠ [] := fun none => nonempty (String.toList_eq_nil_iff.1 none)
    have noOp : token.kind ≠ .op := by
      intro isOp
      rw [(Lexeme.kind_of_kindOf sameKind).1 isOp] at isCode
      exact isCode rfl
    rw [Token.depthAfter_of_kind noOp] at yields
    cases kind with
    | lineBreak =>
      have deep : 0 < depth := by
        by_contra flat
        rw [Layout.kindOf, if_neg (by simp [flat])] at sameKind
        exact noNewline sameKind
      have member : token.text.toList ∈ Lexeme.breaks := by
        rcases read with ⟨_, member⟩ | read
        · exact member
        · exact ((Lexeme.first_lineBreak_iff some).1 read).1
      have isNl : token.kind = .nl := by rw [sameKind, Layout.kindOf, if_pos (.inl deep)]
      have kindOf : (Phase.inside (depth + extra)).kindOf .lineBreak = .nl :=
        if_pos (.inl (Nat.lt_of_lt_of_le deep (Nat.le_add_right _ _)))
      have behind : (Phase.inside (depth + extra)).after ⟨.lineBreak, token.text.toList⟩ =
          ⟨depth + extra, false, true⟩ := by
        simp only [Phase.after, kindOf]
        rfl
      have broken := Yields.lineBreak spacing member (behind ▸ yields.rowStart)
      rw [kindOf] at broken
      rw [isNl]
      exact broken
    | comment =>
      have isComment : token.kind = .comment := sameKind
      have commented := @Yields.token (.inside (depth + extra)) _ _ _ _ _ _ spacing some rfl rfl
        (read.resolve_left (by rintro ⟨⟨⟩, -⟩)) yields
      rw [isComment]
      exact commented
    | space | continuation | openQuote => cases hasToken
    | string | number | name | operator | stray => exact absurd rfl isCode

def Within : (depth : Nat) → List Token → Prop
  | depth, [] => 0 < depth
  | depth, token :: rest => 0 < depth ∧ Within (token.depthAfter depth) rest

theorem Within.pos {depth : Nat} {tokens : List Token} (within : Within depth tokens) :
    0 < depth := by
  cases tokens with
  | nil => exact within
  | cons token rest => exact within.1

theorem within_append {depth : Nat} {front back : List Token} : Within depth (front ++ back) ↔
    Within depth front ∧ Within (front.foldl Token.depthAfter depth) back := by
  induction front generalizing depth with
  | nil => exact ⟨fun within => ⟨within.pos, within⟩, And.right⟩
  | cons token rest ih => rw [List.cons_append, Within, Within, ih, and_assoc, List.foldl_cons]

theorem foldl_depthAfter_of_isTrivia {tokens : List Token}
    (trivia : ∀ token ∈ tokens, token.isTrivia = true) (depth : Nat) :
    tokens.foldl Token.depthAfter depth = depth := by
  induction tokens with
  | nil => rfl
  | cons token rest ih =>
    rw [List.forall_mem_cons] at trivia
    rw [List.foldl_cons, Token.depthAfter_of_isTrivia trivia.1, ih trivia.2]

theorem within_of_isTrivia {depth : Nat} (inside : 0 < depth) {tokens : List Token}
    (trivia : ∀ token ∈ tokens, token.isTrivia = true) : Within depth tokens := by
  induction tokens with
  | nil => exact inside
  | cons token rest ih =>
    rw [List.forall_mem_cons] at trivia
    rw [Within, Token.depthAfter_of_isTrivia trivia.1]
    exact ⟨inside, ih trivia.2⟩

namespace Page

@[simp] theorem text_write (page : Page) (text : String) :
    (page.write text).text = page.text ++ text := rfl

@[simp] theorem text_moveTo (page : Page) (cursor : Option Position) :
    (page.moveTo cursor).text = page.text := rfl

@[simp] theorem text_padTo (page : Page) (start : Position) :
    (page.padTo start).text = page.text ++ padding page.cursor start := rfl

theorem token_of_not_isLayout {token : Token} (noLayout : token.isLayout = false) (page : Page) :
    page.token token = ((page.padTo token.start).write token.text).moveTo
      (if token.isBreak then none else some token.stop) := by
  rw [Page.token, noLayout]
  rfl

theorem tokens_append (page : Page) (front back : List Token) :
    page.tokens (front ++ back) = (page.tokens front).tokens back := List.foldl_append

theorem toList_token {token : Token} (noLayout : token.isLayout = false) (page : Page) :
    (page.token token).text.toList =
      page.text.toList ++ ((padding page.cursor token.start).toList ++ token.text.toList) := by
  rw [token_of_not_isLayout noLayout]
  simp

theorem spacing_padding (cursor : Option Position) (start : Position) :
    Spacing (padding cursor start).toList := by
  unfold padding
  split
  · rw [String.toList_ofList]
    exact .replicate _
  · split
    · rw [String.toList_ofList]
      exact (Spacing.continuations _).append (.replicate _)
    · rw [String.toList_ofList]
      exact .replicate _

structure Desk where
  /-- What has been printed in front. -/
  front : Front
  /-- The place between the tokens. -/
  spot : Spot
  /-- The number of brackets that are open only in print. -/
  extra : Nat := 0
  /-- The widths of the open blocks, the innermost first. -/
  blocks : List Nat

namespace Desk

/-- The page stands at the desk: behind a token of the row it knows its place. -/
structure Agrees (desk : Desk) (page : Page) : Prop where
  fresh : desk.spot.fresh = false
  cursor : desk.front = .lexeme →
    ∃ place, desk.spot.last = some place ∧ page.cursor = some place
  inked : desk.front = .lexeme → page.atLineStart = false
  /-- A row goes on only inside brackets. -/
  closed : desk.front = .free → 0 < desk.spot.depth

def after (desk : Desk) (token : Token) : Desk :=
  { desk with
    front := if token.isBreak then .free else .lexeme
    spot := desk.spot.after token }

def behind (desk : Desk) (tokens : List Token) : Desk := tokens.foldl after desk

theorem behind_append (desk : Desk) (front back : List Token) :
    desk.behind (front ++ back) = (desk.behind front).behind back := List.foldl_append

theorem behind_eq (desk : Desk) (tokens : List Token) : desk.behind tokens =
    { desk with front := (desk.behind tokens).front, spot := desk.spot.behind tokens } := by
  induction tokens generalizing desk with
  | nil => rfl
  | cons token rest ih => exact ih (desk.after token)

theorem front_behind {desk : Desk} (noSingle : desk.front ≠ .single) (tokens : List Token) :
    (desk.behind tokens).front ≠ .single := by
  induction tokens generalizing desk with
  | nil => exact noSingle
  | cons token rest ih =>
    refine @ih (desk.after token) ?_
    simp only [after]
    split <;> nofun

theorem behind_concat (desk : Desk) (tokens : List Token) (last : Token) :
    desk.behind (tokens ++ [last]) =
      { desk with
        front := if last.isBreak then .free else .lexeme
        spot := desk.spot.behind (tokens ++ [last]) } := by
  rw [behind_append, behind_eq desk tokens, Spot.behind, Spot.behind, List.foldl_append]
  rfl

end Desk

/-- What is printed behind the page revises what the tokens spell and says what is found. -/
def Continues (code : List Char) (desk : Desk) (page : Page) (tokens : List Token)
    (found : List (Kind × String)) : Prop :=
  ∃ rest, code = page.text.toList ++ rest ∧ (desk.Agrees page → ∀ old,
    Spells desk.spot tokens old → Revised desk.front old rest ∧
      Follows (desk.spot.depth + desk.extra) desk.blocks rest found)

theorem atLineStart_write_of_getLast? {page : Page} {text : String}
    (begun : text = "" → page.atLineStart = false) (last : text.toList.getLast? ≠ some '\n') :
    (page.write text).atLineStart = false := by
  rw [Page.write]
  cases found : text.toList.getLast? with
  | none => exact begun (String.toList_eq_nil_iff.1 (List.getLast?_eq_none_iff.1 found))
  | some c =>
    rw [found] at last
    simpa using last

section Rules

variable {code : List Char} {desk : Desk} {page : Page} {later : List Token}
  {found : List (Kind × String)}

theorem Desk.Agrees.gap_eq (agrees : desk.Agrees page) (onRow : desk.front = .lexeme)
    {start : Position} {gap : List Char}
    (isGap : ∀ place ∈ desk.spot.last, gap = SourceText.gap place start) :
    gap = (padding page.cursor start).toList := by
  obtain ⟨place, last, cursor⟩ := agrees.cursor onRow
  rw [cursor, padding_some, String.toList_ofList]
  exact isGap place last

theorem place_of_spelled {token : Token} {spot : Spot} {gap rest : List Char}
    (spelled : token.Spelled spot gap rest) (within : token.isBreak = false) (page : Page) :
    (page.token token).cursor = some token.stop ∧ (page.token token).atLineStart = false := by
  cases spelled with
  | cutOff isNewline => simp [Token.isBreak, isNewline] at within
  | lexeme kind hasToken noStray sameKind nonempty read =>
    obtain ⟨noLayout, _, isBreak⟩ := Lexeme.traits_of_kindOf hasToken sameKind
    have some : token.text.toList ≠ [] := fun none => nonempty (String.toList_eq_nil_iff.1 none)
    have noBreak : kind ≠ .lineBreak := by rwa [isBreak, beq_eq_false_iff_ne] at within
    rw [token_of_not_isLayout noLayout]
    exact ⟨by simp [Page.moveTo, within], atLineStart_write_of_getLast?
      (fun none => absurd none nonempty) (fun lineFeed =>
        absurd (Lexeme.getLast?_of_first some read hasToken noBreak _ lineFeed) (by decide))⟩

theorem Desk.agrees_token {token : Token} {spot : Spot} {gap rest : List Char}
    (spelled : token.Spelled spot gap rest) (noLayout : token.isLayout = false)
    (within : token.isBreak = false) (inLine : (spot.after token).fresh = false) (page : Page)
    (extra : Nat) (blocks : List Nat) :
    Agrees ⟨.lexeme, spot.after token, extra, blocks⟩ (page.token token) := by
  obtain ⟨cursor, inked⟩ := place_of_spelled spelled within page
  refine ⟨inLine, fun _ => ⟨token.stop, ?_, cursor⟩, fun _ => inked, nofun⟩
  simp [Spot.after, noLayout, within]

private theorem Desk.Agrees.token (agrees : desk.Agrees page) {token : Token} {gap rest : List Char}
    (spelled : token.Spelled desk.spot gap rest) (noNewline : token.kind ≠ .newline)
    {next : Front} (leaves : token.Leaves next) :
    { desk with front := next, spot := desk.spot.after token }.Agrees (page.token token) := by
  have noLayout : token.isLayout = false := by
    cases spelled with
    | cutOff isNewline => exact absurd isNewline noNewline
    | lexeme kind hasToken _ sameKind => exact (Lexeme.traits_of_kindOf hasToken sameKind).1
  have inLine : (desk.spot.after token).fresh = false := by
    rw [Spot.after, noLayout, agrees.fresh]
    simp [noNewline]
  cases leaves with
  | lexeme within =>
    exact Desk.agrees_token spelled noLayout within inLine page desk.extra desk.blocks
  | lineBreak ends =>
    refine ⟨inLine, by rintro ⟨⟩, by rintro ⟨⟩, fun _ => ?_⟩
    have isNl : token.kind = .nl := by
      rw [Token.isBreak, Bool.or_eq_true, beq_iff_eq, beq_iff_eq] at ends
      exact ends.resolve_left noNewline
    rw [Spot.depth_after noLayout, Token.depthAfter_of_kind (by simp [isNl])]
    cases spelled with
    | cutOff isNewline => exact absurd isNewline noNewline
    | lexeme kind hasToken _ sameKind =>
      rw [(Lexeme.traits_of_kindOf hasToken sameKind).2.2, beq_iff_eq] at ends
      rw [isNl, ends, Layout.kindOf, agrees.fresh] at sameKind
      by_contra flat
      rw [if_neg (by simp [flat])] at sameKind
      cases sameKind
  | single => exact ⟨inLine, by rintro ⟨⟩, by rintro ⟨⟩, by rintro ⟨⟩⟩

theorem Continues.leave {token : Token} {next : Front} (noLayout : token.isLayout = false)
    (noNewline : token.kind ≠ .newline)
    (breaks : desk.front = .single → token.isBreak = true)
    (enclosed : desk.extra = 0 ∨ (token.closesBracket = true → 0 < desk.spot.depth))
    (leaves : token.Leaves next)
    (continues : Continues code { desk with front := next, spot := desk.spot.after token }
      (page.token token) later found) :
    Continues code desk page (token :: later) (token.kind.gist token.text ++ found) := by
  obtain ⟨rest, split, behind⟩ := continues
  rw [toList_token noLayout, List.append_assoc, List.append_assoc] at split
  refine ⟨_, split, ?_⟩
  intro agrees old spells
  obtain ⟨gap, text, rfl, spacing, isGap, spelled, spellsLater⟩ := (spells_token noLayout).1 spells
  obtain ⟨revised, follows⟩ := behind (agrees.token spelled noNewline leaves) text spellsLater
  cases spelled with
  | cutOff isNewline => exact absurd isNewline noNewline
  | lexeme kind hasToken noStray sameKind nonempty readOld =>
    obtain ⟨revised, read⟩ :=
      Lexeme.read_anew nonempty hasToken noStray sameKind readOld leaves revised
    have some : token.text.toList ≠ [] := fun none => nonempty (String.toList_eq_nil_iff.1 none)
    have spacingPad := spacing_padding page.cursor token.start
    refine ⟨revised.padded spacing spacingPad (fun onRow => agrees.gap_eq onRow isGap) ?_, ?_⟩
    · intro single
      have isBreak := breaks single
      rw [(Lexeme.traits_of_kindOf hasToken sameKind).2.2, beq_iff_eq] at isBreak
      rw [isBreak, Lexeme.first_lineBreak_iff some] at readOld
      have heads : ∀ text ∈ Lexeme.breaks, text.head? ≠ Option.some '=' := by decide
      rw [List.head?_append_of_ne_nil _ some]
      exact heads _ readOld.1
    · rw [agrees.fresh] at sameKind
      rw [Spot.depth_after noLayout] at follows
      exact Follows.token spacingPad nonempty hasToken sameKind noNewline enclosed read follows

private theorem leaves_after (token : Token) :
    token.Leaves (if token.isBreak then .free else .lexeme) := by
  cases isBreak : token.isBreak with
  | true => exact .lineBreak isBreak
  | false => exact .lexeme isBreak

theorem Continues.tokens {tokens : List Token}
    (inLine : ∀ token ∈ tokens, token.isLayout = false ∧ token.kind ≠ .newline)
    (breaks : desk.front = .single → ∀ first ∈ tokens.head?, first.isBreak = true)
    (enclosed : desk.extra = 0 ∨ Within desk.spot.depth tokens)
    (continues : Continues code (desk.behind tokens) (page.tokens tokens) later found) :
    Continues code desk page (tokens ++ later) (gist tokens ++ found) := by
  induction tokens generalizing desk page with
  | nil => exact continues
  | cons token rest ih =>
    rw [List.forall_mem_cons] at inLine
    rw [List.cons_append, gist_cons, List.append_assoc]
    refine Continues.leave inLine.1.1 inLine.1.2 (fun single => breaks single token rfl)
      (enclosed.imp_right fun within _ => within.pos) (leaves_after token) ?_
    refine ih inLine.2 ?_ ?_ continues
    · cases token.isBreak <;> nofun
    · refine enclosed.imp_right fun within => ?_
      simp only [Spot.depth_after inLine.1.1]
      exact within.2

end Rules

end Page

end DeferredDefaults
