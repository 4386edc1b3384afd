import DeferredDefaults.Proofs.Page.Continuation

/-!
A late default in print. The marker gives way to the wrapper and its lambda, and the parenthesis of
the marker call becomes that of the wrapper; a single argument loses its comma, and several get
parentheses of their own.
-/

set_option autoImplicit false
set_option relaxedAutoImplicit false

namespace DeferredDefaults

open Lexeme (Spacing Front Revised Bounded)
open Phrase (textOf tokensOf)
open Text.Identifier (isIdentifier)

theorem Token.kind_of_closesBracket {token : Token} (closes : token.closesBracket = true) :
    token.kind = .op := by
  simp only [Token.closesBracket, Bool.or_eq_true, Token.isOp_iff] at closes
  rcases closes with (isOp | isOp) | isOp <;> exact isOp.1

private theorem Spells.bounded {spot : Spot} {next : Token} {rest : List Token} {text : List Char}
    (spells : Spells spot (next :: rest) text)
    (edge : next.isTrivia = true ∨ next.closesBracket = true) : Bounded text := by
  have noLayout : next.isLayout = false := by
    rcases edge with trivia | closes
    · simp only [Token.isTrivia, Bool.or_eq_true, beq_iff_eq] at trivia
      rcases trivia with kind | kind <;> simp [Token.isLayout, kind]
    · simp [Token.isLayout, Token.kind_of_closesBracket closes]
  obtain ⟨gap, behind, rfl, spacing, _, spelled, _⟩ := (spells_token noLayout).1 spells
  refine spacing.bounded fun _ => ?_
  have form := spelled
  cases form with
  | cutOff isNewline =>
    rcases edge with trivia | closes
    · simp [Token.isTrivia, isNewline] at trivia
    · simp [Token.closesBracket, Token.isOp, isNewline] at closes
  | lexeme kind hasToken _ sameKind nonempty read =>
    have some : next.text.toList ≠ [] := fun none => nonempty (String.toList_eq_nil_iff.1 none)
    rcases edge with trivia | closes
    · simp only [Token.isTrivia, Bool.or_eq_true, beq_iff_eq] at trivia
      rcases trivia with isComment | isNl
      · rw [(Lexeme.kind_of_kindOf sameKind).2.2 isComment, Lexeme.first_comment_iff some] at read
        obtain ⟨more, split⟩ := List.head?_eq_some_iff.1 read.1
        rw [split]
        exact Lexeme.bounded_cons rfl (by decide) _
      · have member := spelled.mem_breaks (by simp [Token.isBreak, isNl]) nonempty
        exact Lexeme.bounded_of_ends (Lexeme.ends_of_mem_breaks member behind)
    · simp only [Token.closesBracket, Bool.or_eq_true, Token.isOp_iff] at closes
      rcases closes with (isOp | isOp) | isOp <;> rw [isOp.2] <;>
        exact Lexeme.bounded_cons rfl (by decide) behind

def Token.IsPlain (token : Token) : Prop :=
  token.kind = .name ∨ token.isOp "(" = true ∨ token.isOp "," = true

namespace Token.IsPlain

variable {token : Token}

private theorem kind (isPlain : token.IsPlain) : token.kind = .name ∨ token.kind = .op := by
  rcases isPlain with isName | isOp | isOp
  · exact .inl isName
  · exact .inr (Token.isOp_iff.1 isOp).1
  · exact .inr (Token.isOp_iff.1 isOp).1

private theorem isLayout (isPlain : token.IsPlain) : token.isLayout = false := by
  rcases isPlain.kind with kind | kind <;> simp [Token.isLayout, kind]

private theorem closesBracket (isPlain : token.IsPlain) : token.closesBracket = false := by
  rcases isPlain with isName | isOp | isOp
  · simp [Token.closesBracket, Token.isOp, isName]
  · simp [Token.closesBracket, Token.isOp, (Token.isOp_iff.1 isOp).2]
  · simp [Token.closesBracket, Token.isOp, (Token.isOp_iff.1 isOp).2]

private theorem le_depthAfter (isPlain : token.IsPlain) (depth : Nat) :
    depth ≤ token.depthAfter depth := by
  rw [Token.depthAfter, isPlain.closesBracket]
  split <;> simp

private theorem spot_after (isPlain : token.IsPlain) (spot : Spot) :
    spot.after token = ⟨token.depthAfter spot.depth, false, some token.stop⟩ := by
  rcases isPlain.kind with kind | kind <;>
    simp [Spot.after, Token.isBreak, Token.isSignificant, Token.isTrivia,
      Token.isLayout, kind]

private theorem plain (isPlain : token.IsPlain) {spot : Spot} {gap behind : List Char}
    (spelled : token.Spelled spot gap behind) :
    ∀ c ∈ token.text.toList, Lexeme.isQuote c = false ∧ c ≠ '\\' := by
  rcases isPlain with isName | isOp | isOp
  · cases spelled with
    | cutOff isNewline =>
      rw [isName] at isNewline
      cases isNewline
    | lexeme kind _ _ sameKind nonempty read =>
      have some : token.text.toList ≠ [] := fun none => nonempty (String.toList_eq_nil_iff.1 none)
      rw [(Lexeme.kind_of_kindOf sameKind).2.1 isName] at read
      intro c member
      exact Text.Identifier.plain_of_isInner (Text.Identifier.isInner_of_isIdentifier
        (Lexeme.isIdentifier_of_first some read) c member)
  · rw [(Token.isOp_iff.1 isOp).2]
    decide
  · rw [(Token.isOp_iff.1 isOp).2]
    decide

end Token.IsPlain

/-- A late default can be printed: it holds a whole marker call and reads identifiers. -/
structure Deferred.Sound (deferred : Deferred) : Prop where
  whole : deferred.call.Whole
  dependencies : ∀ name ∈ deferred.dependencies, isIdentifier name.toList = true

namespace Page

variable {code : List Char} {desk : Desk} {page : Page} {later : List Token}
  {found : List (Kind × String)} {options : Options}

private theorem Continues.move (free : desk.front ≠ .lexeme) {cursor : Option Position}
    (continues : Continues code desk (page.moveTo cursor) later found) :
    Continues code desk page later found := by
  obtain ⟨rest, split, behind⟩ := continues
  refine ⟨rest, split, fun agrees => behind ⟨agrees.fresh, ?_, ?_, agrees.closed⟩⟩
  · exact fun onRow => absurd onRow free
  · exact fun onRow => absurd onRow free

private theorem Continues.pad (free : desk.front ≠ .lexeme) {start : Position}
    (continues : Continues code desk (page.padTo start) later found) :
    Continues code desk page later found := by
  obtain ⟨rest, split, behind⟩ := continues
  rw [text_padTo, String.toList_append, List.append_assoc] at split
  refine ⟨_, split, fun agrees old spells => ?_⟩
  have spacing := spacing_padding page.cursor start
  obtain ⟨revised, follows⟩ := behind ⟨agrees.fresh, fun onRow => absurd onRow free,
    fun onRow => absurd onRow free, agrees.closed⟩ old spells
  refine ⟨?_, fun gap space => ?_⟩
  · have loose : Revised .free old ((padding page.cursor start).toList ++ rest) :=
      revised.gaps .nil spacing
    cases front : desk.front with
    | lexeme => exact absurd front free
    | free => exact loose
    | single =>
      rw [front] at revised
      exact loose.toSingle (spacing.noEquals (revised.single rfl))
  · rw [← List.append_assoc]
    exact follows _ (space.append spacing)

private theorem Continues.words {text : String} {words : List Word}
    (isText : text.toList = textOf words)
    {next : Front} (free : desk.front ≠ .lexeme) (inside : 0 < desk.spot.depth)
    (opens : desk.front = .single → (textOf words).head?.any (· != '=') = true)
    (loose : next ≠ .lexeme) {extra : Nat}
    (stands : ∀ c, (next = .single → c ≠ some '=') → Phrase.Stands words c)
    (depth : (tokensOf words).foldl Token.depthAfter (desk.spot.depth + desk.extra) =
      desk.spot.depth + extra)
    (continues : Continues code { desk with front := next, extra := extra } (page.write text) later
      found) :
    Continues code desk page later (gist (tokensOf words) ++ found) := by
  obtain ⟨rest, split, behind⟩ := continues
  rw [text_write, String.toList_append, List.append_assoc, isText] at split
  refine ⟨_, split, fun agrees old spells => ?_⟩
  obtain ⟨revised, follows⟩ := behind ⟨agrees.fresh, fun onRow => absurd onRow loose,
    fun onRow => absurd onRow loose, fun _ => inside⟩ old spells
  have standsRest : Phrase.Stands words rest.head? :=
    stands _ fun single => (single ▸ revised).single rfl
  refine ⟨?_, (depth ▸ follows).words standsRest⟩
  have put : Revised .free old (textOf words ++ rest) :=
    revised.plain standsRest.plain (List.forall_mem_nil _)
  cases front : desk.front with
  | lexeme => exact absurd front free
  | free => exact put
  | single =>
    refine put.toSingle ?_
    have opens := opens front
    rw [List.head?_append]
    cases head : (textOf words).head? with
    | none =>
      rw [head] at opens
      cases opens
    | some c =>
      rw [head] at opens
      simpa using opens

private theorem Continues.skip {token : Token} (isPlain : token.IsPlain)
    (free : desk.front ≠ .lexeme)
    {extra : Nat} (depth : token.depthAfter desk.spot.depth + extra = desk.spot.depth + desk.extra)
    (continues : Continues code
      { desk with spot := desk.spot.after token, extra := extra } page later found) :
    Continues code desk page (token :: later) found := by
  obtain ⟨rest, split, behind⟩ := continues
  refine ⟨rest, split, fun agrees old spells => ?_⟩
  obtain ⟨gap, text, rfl, spacing, _, spelled, spellsLater⟩ :=
    (spells_token isPlain.isLayout).1 spells
  have spot := isPlain.spot_after desk.spot
  obtain ⟨revised, follows⟩ := behind ⟨by simp [spot],
    fun onRow => absurd onRow free, fun onRow => absurd onRow free, fun isFree => by
      simp only [spot]
      exact Nat.lt_of_lt_of_le (agrees.closed isFree) (isPlain.le_depthAfter _)⟩ text spellsLater
  simp only [spot, depth] at follows
  refine ⟨?_, follows⟩
  have dropped : Revised .free (gap ++ (token.text.toList ++ text)) rest :=
    (revised.plain (List.forall_mem_nil _) (isPlain.plain spelled)).gaps spacing .nil
  cases front : desk.front with
  | lexeme => exact absurd front free
  | free => exact dropped
  | single => exact dropped.toSingle ((front ▸ revised).single rfl)

private theorem Continues.dropComma {comma next : Token} (isComma : comma.isOp "," = true)
    (edge : next.isTrivia = true ∨ next.closesBracket = true) (noSingle : desk.front ≠ .single)
    (continues : Continues code { desk with spot := desk.spot.after comma }
      (page.comma false (some comma)) (next :: later) found) :
    Continues code desk page (comma :: next :: later) found := by
  have isPlain : comma.IsPlain := .inr (.inr isComma)
  have depth : comma.depthAfter desk.spot.depth = desk.spot.depth := by
    simp [Token.depthAfter, Token.opensBracket, Token.closesBracket, Token.isOp,
      (Token.isOp_iff.1 isComma).2]
  have text : (page.comma false (some comma)).text = page.text := by
    rw [Page.comma, if_neg Bool.false_ne_true]
    split <;> rfl
  have spot := isPlain.spot_after desk.spot
  obtain ⟨rest, split, behind⟩ := continues
  rw [text] at split
  refine ⟨rest, split, fun agrees old spells => ?_⟩
  have agreesNext : { desk with spot := desk.spot.after comma }.Agrees
      (page.comma false (some comma)) := by
    refine ⟨by simp [spot], fun onRow => ?_, fun onRow => ?_, fun isFree => ?_⟩
    · obtain ⟨place, _, cursor⟩ := agrees.cursor onRow
      exact ⟨comma.stop, by simp [spot], by simp [Page.comma, cursor, Page.moveTo]⟩
    · obtain ⟨place, _, cursor⟩ := agrees.cursor onRow
      simpa [Page.comma, cursor, Page.moveTo] using agrees.inked onRow
    · simp only [spot, depth]
      exact agrees.closed isFree
  obtain ⟨gap, others, rfl, spacing, _, spelled, spellsNext⟩ :=
    (spells_token isPlain.isLayout).1 spells
  obtain ⟨revised, follows⟩ := behind agreesNext others spellsNext
  simp only [spot, depth] at follows
  refine ⟨?_, follows⟩
  rw [(Token.isOp_iff.1 isComma).2]
  cases front : desk.front with
  | lexeme => exact (front ▸ revised).comma spacing (spellsNext.bounded edge)
  | free =>
    exact (revised.plain (List.forall_mem_nil _) (by decide)).gaps spacing .nil
  | single => exact absurd front noSingle

/-- The parenthesis behind several arguments, in front of the bracket that closes the call. -/
private theorem Continues.closeTuple {next : Token} (closes : next.closesBracket = true)
    (noSingle : desk.front ≠ .single)
    (continues : Continues code desk (page.write ")") (next :: later) found) :
    Continues code { desk with extra := desk.extra + 1 } page (next :: later)
      ((.op, ")") :: found) := by
  obtain ⟨rest, split, behind⟩ := continues
  rw [text_write, String.toList_append, List.append_assoc] at split
  refine ⟨_, split, fun agrees old spells => ?_⟩
  have inked : (page.write ")").atLineStart = false :=
    atLineStart_write_of_getLast? nofun (by decide)
  obtain ⟨revised, follows⟩ := behind ⟨agrees.fresh, agrees.cursor, fun _ => inked, agrees.closed⟩
    old spells
  have put : Revised .free old (")".toList ++ rest) :=
    revised.plain (by decide) (List.forall_mem_nil _)
  constructor
  · cases front : desk.front with
    | lexeme =>
      have isOp := Token.kind_of_closesBracket closes
      have goesOn := spells.head (by simp [Token.isLayout, isOp]) (by simp [Token.isBreak, isOp])
      refine put.bounded (spells.bounded (.inr closes)) (Lexeme.bounded_cons rfl (by decide) rest) ?_
      intro ends
      rw [goesOn] at ends
      cases ends
    | free => exact put
    | single => exact absurd front noSingle
  · exact @Follows.words desk.blocks rest found [.op ')'] (desk.spot.depth + (desk.extra + 1))
      ⟨.inr (.inl rfl), trivial⟩ follows

private theorem Continues.isPrefix (continues : Continues code desk page later found) :
    page.text.toList <+: code := by
  obtain ⟨rest, split, _⟩ := continues
  exact ⟨rest, split.symm⟩

theorem isPrefix_token (page : Page) (token : Token) :
    page.text.toList <+: (page.token token).text.toList := by
  cases layout : token.isLayout with
  | true =>
    rw [Page.token, layout]
    exact List.prefix_rfl
  | false =>
    rw [toList_token layout]
    exact List.prefix_append _ _

theorem isPrefix_tokens (page : Page) (tokens : List Token) :
    page.text.toList <+: (page.tokens tokens).text.toList := by
  induction tokens generalizing page with
  | nil => exact List.prefix_rfl
  | cons token rest ih => exact (isPrefix_token page token).trans (ih (page.token token))

private theorem Continues.gap {call : MarkerCall} (whole : call.Whole) {rest : List Token}
    (free : desk.front ≠ .lexeme)
    (breaks : desk.front = .single → ∃ first ∈ call.gap.head?, first.isBreak = true)
    (inside : 0 < desk.spot.depth)
    (continues : Continues code
      { desk with front := .free, spot := desk.spot.behind call.gap } (page.gap call)
      (call.opening :: rest) found) :
    Continues code desk page (call.gap ++ call.opening :: rest) found := by
  rcases List.eq_nil_or_concat call.gap with none | ⟨front, last, isGap⟩
  · have isFree : desk.front = .free := by
      cases front : desk.front with
      | lexeme => exact absurd front free
      | free => rfl
      | single =>
        obtain ⟨first, head, _⟩ := breaks front
        rw [none] at head
        cases head
    rw [Page.gap, none, ← isFree] at continues
    rw [none]
    exact continues
  · rw [List.concat_eq_append] at isGap
    have some : call.gap.isEmpty = false := by simp [isGap]
    rw [Page.gap, some, if_neg Bool.false_ne_true] at continues
    have inLine : ∀ token ∈ call.gap, token.isLayout = false ∧ token.kind ≠ .newline := by
      intro token member
      have trivia := whole.gap token member
      simp only [Token.isTrivia, Bool.or_eq_true, beq_iff_eq] at trivia
      rcases trivia with kind | kind <;> simp [Token.isLayout, kind]
    by_cases ends : last.isBreak = true
    · have behind : desk.behind call.gap =
          { desk with front := .free, spot := desk.spot.behind call.gap } := by
        rw [isGap, Desk.behind_concat, ends]
        rfl
      have printed := Continues.pad (by rintro ⟨⟩) continues
      rw [← behind] at printed
      have led := Continues.tokens inLine (fun single first head => ?_)
        (.inr (within_of_isTrivia inside whole.gap)) printed
      · rw [gist_of_isTrivia whole.gap, List.nil_append] at led
        exact led.move free
      · obtain ⟨other, head', isBreak⟩ := breaks single
        rwa [Option.mem_unique head head']
    · -- A comment does not end in front of the parenthesis.
      have isComment : last.kind = .comment := by
        have trivia := whole.gap last (by simp [isGap])
        simp only [Token.isTrivia, Bool.or_eq_true, beq_iff_eq] at trivia
        exact trivia.resolve_right fun isNl => ends (by simp [Token.isBreak, isNl])
      have isOp := (Token.isOp_iff.1 whole.opening).1
      obtain ⟨others, split⟩ : page.text.toList <+: code := by
        refine (isPrefix_tokens (page.moveTo (Option.some call.name.stop)) call.gap).trans ?_
        refine List.IsPrefix.trans ?_ continues.isPrefix
        rw [text_padTo, String.toList_append]
        exact List.prefix_append _ _
      refine ⟨others, split.symm, fun _ old spells => ?_⟩
      rw [isGap, List.append_assoc] at spells
      obtain ⟨_, spells⟩ := spells.drop
      have isBreak := spells.isBreak_of_comment isComment (by simp [Token.isLayout, isOp])
      simp [Token.isBreak, isOp] at isBreak

private theorem foldl_argument_tuple (args : List Argument) (page : Page) :
    args.foldl (argument · true) page = page.tokens (args.flatMap Argument.tokens) := by
  induction args generalizing page with
  | nil => rfl
  | cons argument rest ih =>
    rw [List.foldl_cons, ih, List.flatMap_cons, Page.tokens, Page.tokens, List.foldl_append,
      Argument.tokens, List.foldl_append]
    cases comma : argument.comma <;> simp [Page.argument, Page.comma, Page.tokens, comma]

section Call

variable {call : MarkerCall} (whole : call.Whole)
  (inLine : ∀ token ∈ call.tokens, token.isLayout = false ∧ token.kind ≠ .newline)
include whole inLine

private theorem Continues.closing (noSingle : desk.front ≠ .single) (noExtra : desk.extra = 0)
    (continues : Continues code
      { desk with front := .lexeme, spot := desk.spot.after call.closing }
      (page.token call.closing) later found) :
    Continues code desk page (call.closing :: later) (gist [call.closing] ++ found) := by
  have isOp := Token.kind_of_closesBracket whole.closing
  have plain := inLine call.closing (by simp [MarkerCall.tokens])
  rw [gist_cons, gist_nil, List.append_nil]
  exact Continues.leave plain.1 plain.2 (fun single => absurd single noSingle) (.inl noExtra)
    (.lexeme (by simp [Token.isBreak, isOp])) continues

private theorem Continues.tuple (isFree : desk.front = .free) (noExtra : desk.extra = 0)
    (within : Within desk.spot.depth (call.inner ++ [call.closing]))
    (continues : Continues code
      { desk with front := .lexeme, spot := desk.spot.behind (call.inner ++ [call.closing]) }
      ((((page.write "(").tokens call.inner).write ")").token call.closing) later found) :
    Continues code desk page (call.inner ++ call.closing :: later)
      ((.op, "(") :: (gist (call.args.flatMap Argument.tokens) ++
        (.op, ")") :: (gist [call.closing] ++ found))) := by
  have inner : ∀ token ∈ call.inner, token.isLayout = false ∧ token.kind ≠ .newline :=
    fun token member => inLine token (by simp [MarkerCall.tokens, member])
  have trailing : gist call.inner = gist (call.args.flatMap Argument.tokens) := by
    rw [MarkerCall.inner, gist_append, gist_of_isTrivia whole.trailing, List.append_nil]
  rw [← trailing]
  obtain ⟨front, isBehind⟩ : ∃ front, { desk with extra := 1 }.behind call.inner =
      ⟨front, desk.spot.behind call.inner, 1, desk.blocks⟩ := ⟨_, Desk.behind_eq _ _⟩
  have noSingle : front ≠ .single := by
    have other := @Desk.front_behind { desk with extra := 1 } (by rw [isFree]; rintro ⟨⟩) call.inner
    rwa [isBehind] at other
  rw [Spot.behind, List.foldl_append] at continues
  have closed : Continues code ⟨front, desk.spot.behind call.inner, 0, desk.blocks⟩
      (((page.write "(").tokens call.inner).write ")") (call.closing :: later)
      (gist [call.closing] ++ found) := by
    refine Continues.closing whole inLine noSingle rfl ?_
    rw [← noExtra]
    exact continues
  have listed : Continues code { desk with extra := 1 } (page.write "(")
      (call.inner ++ call.closing :: later)
      (gist call.inner ++ (.op, ")") :: (gist [call.closing] ++ found)) := by
    refine Continues.tokens inner (fun single => ?_) (.inr (within_append.1 within).1) ?_
    · rw [isFree] at single
      cases single
    · rw [isBehind]
      exact closed.closeTuple whole.closing noSingle
  refine @Continues.words code desk page _ _ "(" [.op '('] rfl .free (by rw [isFree]; rintro ⟨⟩)
    within.pos (by rw [isFree]; rintro ⟨⟩) (by rintro ⟨⟩) 1 (fun _ _ => ⟨.inl rfl, trivial⟩) ?_ ?_
  · rw [noExtra]
    rfl
  · rw [← isFree]
    exact listed

private theorem Continues.ending (noSingle : desk.front ≠ .single) (noExtra : desk.extra = 0)
    (continues : Continues code
      { desk with front := .lexeme, spot := desk.spot.behind (call.trailing ++ [call.closing]) }
      ((page.tokens call.trailing).token call.closing) later found) :
    Continues code desk page (call.trailing ++ call.closing :: later)
      (gist [call.closing] ++ found) := by
  have trailing : ∀ token ∈ call.trailing, token.isLayout = false ∧ token.kind ≠ .newline :=
    fun token member => inLine token (by simp [MarkerCall.tokens, MarkerCall.inner, member])
  have printed : Continues code desk page (call.trailing ++ call.closing :: later)
      (gist call.trailing ++ (gist [call.closing] ++ found)) := by
    refine Continues.tokens trailing (fun single => absurd single noSingle) (.inl noExtra) ?_
    rw [Desk.behind_eq]
    rw [Spot.behind, List.foldl_append] at continues
    exact Continues.closing whole inLine (Desk.front_behind noSingle _) noExtra continues
  rwa [gist_of_isTrivia whole.trailing, List.nil_append] at printed

private theorem Continues.single (isFree : desk.front = .free) (noExtra : desk.extra = 0)
    {argument : Argument} (isArgument : call.args = [argument])
    (continues : Continues code
      { desk with front := .lexeme, spot := desk.spot.behind (call.inner ++ [call.closing]) }
      (((page.argument false argument).tokens call.trailing).token call.closing) later found) :
    Continues code desk page (call.inner ++ call.closing :: later)
      (gist argument.value ++ (gist [call.closing] ++ found)) := by
  have split : call.inner = argument.value ++ (argument.comma.toList ++ call.trailing) := by
    simp [MarkerCall.inner, isArgument, Argument.tokens]
  have value : ∀ token ∈ argument.value, token.isLayout = false ∧ token.kind ≠ .newline :=
    fun token member => inLine token (by simp [MarkerCall.tokens, split, member])
  rw [split, List.append_assoc, List.append_assoc, Spot.behind, List.foldl_append,
    List.foldl_append] at continues
  rw [split, List.append_assoc, List.append_assoc]
  have noSingle := @Desk.front_behind desk (by rw [isFree]; rintro ⟨⟩) argument.value
  refine Continues.tokens value (fun single => ?_) (.inl noExtra) ?_
  · rw [isFree] at single
    cases single
  rw [Desk.behind_eq]
  cases comma : argument.comma with
  | none =>
    rw [Page.argument, comma] at continues
    exact Continues.ending whole inLine noSingle noExtra continues
  | some token =>
    have isComma := whole.comma argument (by simp [isArgument]) token comma
    rw [Page.argument, comma] at continues
    obtain ⟨next, others, rest, edge⟩ : ∃ next others,
        call.trailing ++ call.closing :: later = next :: others ∧
          (next.isTrivia = true ∨ next.closesBracket = true) := by
      cases trailing : call.trailing with
      | nil => exact ⟨_, _, rfl, .inr whole.closing⟩
      | cons next others => exact ⟨_, _, rfl, .inl (whole.trailing next (by simp [trailing]))⟩
    have ended : Continues code ⟨(desk.behind argument.value).front,
        (desk.spot.behind argument.value).after token, desk.extra, desk.blocks⟩
        ((page.tokens argument.value).comma false (some token)) (call.trailing ++ call.closing :: later)
        (gist [call.closing] ++ found) := Continues.ending whole inLine noSingle noExtra continues
    rw [rest] at ended
    rw [Option.toList_some, List.singleton_append, rest]
    exact ended.dropComma isComma edge noSingle

end Call

def enclosed (page : Page) (deferred : Deferred) : Page :=
  let call := deferred.call
  let tuple := deferred.isTuple
  let listed := call.args.foldl (argument · tuple) (if tuple then page.write "(" else page)
  let ended := listed.tokens call.trailing
  (if tuple then ended.write ")" else ended).token call.closing

private theorem Continues.enclosed {deferred : Deferred} (whole : deferred.call.Whole)
    (inLine : ∀ token ∈ deferred.call.tokens, token.isLayout = false ∧ token.kind ≠ .newline)
    (isFree : desk.front = .free) (noExtra : desk.extra = 0)
    (within : Within desk.spot.depth (deferred.call.inner ++ [deferred.call.closing]))
    (continues : Continues code
      { desk with
        front := .lexeme
        spot := desk.spot.behind (deferred.call.inner ++ [deferred.call.closing]) }
      (page.enclosed deferred) later found) :
    Continues code desk page (deferred.call.inner ++ deferred.call.closing :: later)
      (deferred.body ++ (gist [deferred.call.closing] ++ found)) := by
  cases tuple : deferred.isTuple with
  | true =>
    rw [Page.enclosed] at continues
    simp only [tuple, if_true, foldl_argument_tuple, ← tokens_append] at continues
    have printed := Continues.tuple whole inLine isFree noExtra within continues
    rw [Deferred.body, tuple]
    simpa using printed
  | false =>
    have noSingle : desk.front ≠ .single := by rw [isFree]; rintro ⟨⟩
    rw [Page.enclosed] at continues
    simp only [tuple, Bool.false_eq_true, if_false] at continues
    rw [Deferred.body, tuple, if_neg Bool.false_ne_true]
    have few : deferred.call.args.length ≤ 1 := by
      simpa [Deferred.isTuple] using tuple
    rcases args : deferred.call.args with - | ⟨argument, - | ⟨next, others⟩⟩
    · have inner : deferred.call.inner = deferred.call.trailing := by
        simp [MarkerCall.inner, args]
      rw [args] at continues
      rw [inner] at continues ⊢
      exact Continues.ending whole inLine noSingle noExtra continues
    · rw [args] at continues
      have printed := Continues.single whole inLine isFree noExtra args continues
      simpa using printed
    · simp [args] at few

/-- A late default behind the `=` of its parameter. -/
theorem Continues.deferred {deferred : Deferred} (sound : deferred.Sound)
    (wrapper : isIdentifier options.wrapperName.toList = true)
    (inLine : ∀ token ∈ deferred.call.tokens, token.isLayout = false ∧ token.kind ≠ .newline)
    (isSingle : desk.front = .single) (noExtra : desk.extra = 0)
    (within : Within desk.spot.depth deferred.call.tokens)
    (continues : Continues code
      { desk with front := .lexeme, spot := desk.spot.behind deferred.call.tokens }
      (page.deferred options deferred) later found) :
    Continues code desk page (deferred.call.tokens ++ later)
      (deferred.linear options ++ found) := by
  let call := deferred.call
  have whole : call.Whole := sound.whole
  have split : call.tokens =
      call.name :: (call.gap ++ call.opening :: (call.inner ++ [call.closing])) := by
    simp [MarkerCall.tokens]
  have noLayout : ∀ token ∈ call.gap, token.isLayout = false := by
    intro token member
    have among : token ∈ call.tokens := by simp [split, member]
    exact (inLine token among).1
  have isName : call.name.IsPlain := .inl whole.name
  have isOpening : call.opening.IsPlain := .inr (.inl whole.opening)
  -- The depths in front of the gap, of the parenthesis and of what it encloses.
  have named : (desk.spot.after call.name).depth = desk.spot.depth := by
    rw [Spot.depth_after isName.isLayout, Token.depthAfter_of_kind (by simp [whole.name])]
  have passed : ((desk.spot.after call.name).behind call.gap).depth = desk.spot.depth := by
    rw [Spot.depth_behind noLayout, named, foldl_depthAfter_of_isTrivia whole.gap]
  have opens : call.opening.depthAfter desk.spot.depth = desk.spot.depth + 1 := by
    rw [Token.depthAfter, if_pos (by simp [Token.opensBracket, whole.opening])]
  have opened : (((desk.spot.after call.name).behind call.gap).after call.opening).depth =
      desk.spot.depth + 1 := by
    rw [Spot.depth_after isOpening.isLayout, passed, opens]
  have inside := within.pos
  rw [split, Within, within_append, Token.depthAfter_of_kind (by simp [whole.name]),
    foldl_depthAfter_of_isTrivia whole.gap, Within, opens] at within
  rw [split, Spot.behind, List.foldl_cons, List.foldl_append, List.foldl_cons] at continues
  have body : Continues code ⟨.free, ((desk.spot.after call.name).behind call.gap).after call.opening,
      0, desk.blocks⟩
      ((((page.padTo call.name.start).write (lambdaText options deferred)).gap call).moveTo
        (some call.opening.stop)) (call.inner ++ call.closing :: later)
      (deferred.body ++ (gist [call.closing] ++ found)) := by
    refine Continues.enclosed whole inLine rfl rfl (by rw [opened]; exact within.2.2.2) ?_
    rw [← noExtra]
    exact continues
  let next : Front :=
    if call.gap.head?.any fun first => first.kind == .nl then .single else .free
  have loose : next ≠ .lexeme := by
    simp only [next]
    split <;> rintro ⟨⟩
  have led : Continues code ⟨next, desk.spot, 1, desk.blocks⟩
      ((page.padTo call.name.start).write (lambdaText options deferred)) (call.tokens ++ later)
      (deferred.body ++ (gist [call.closing] ++ found)) := by
    rw [split, List.cons_append, List.append_assoc, List.cons_append, List.append_assoc]
    refine Continues.skip isName loose (by rw [Token.depthAfter_of_kind (by simp [whole.name])]) ?_
    refine Continues.gap whole loose ?_ (by rw [named]; exact inside) ?_
    · intro single
      have breaks : (call.gap.head?.any fun first => first.kind == .nl) = true := by
        by_contra noBreak
        simp only [next, if_neg noBreak] at single
        cases single
      obtain ⟨first, head, isNl⟩ := (Option.any_eq_true _ _).1 breaks
      rw [beq_iff_eq] at isNl
      exact ⟨first, head, by simp [Token.isBreak, isNl]⟩
    · refine Continues.skip isOpening (by rintro ⟨⟩) ?_ (body.move (by rintro ⟨⟩))
      rw [passed, opens]
      rfl
  have printed : Continues code desk (page.padTo call.name.start) (call.tokens ++ later)
      (gist (tokensOf (lambdaWords options deferred)) ++
        (deferred.body ++ (gist [call.closing] ++ found))) := by
    refine Continues.words (textOf_lambdaWords deferred) (by rw [isSingle]; rintro ⟨⟩) inside ?_ loose
      ?_ ?_ led
    · exact fun _ => head_lambdaWords wrapper deferred
    · intro c noEquals
      exact stands_lambdaWords wrapper sound.dependencies fun breaks => noEquals (if_pos breaks)
    · rw [depth_lambdaWords, noExtra]
  rw [gist_lambdaWords] at printed
  have linear : deferred.linear options ++ found =
      [(Kind.name, options.wrapperName), (.op, "("), (.name, "lambda")] ++
        listing deferred.dependencies ++ [(Kind.op, ":")] ++
        (deferred.body ++ (gist [call.closing] ++ found)) := by
    simp [Deferred.linear, call]
  rw [linear]
  exact printed.pad (by rw [isSingle]; rintro ⟨⟩)

end Page

end DeferredDefaults
