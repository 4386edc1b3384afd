import Mathlib.Data.List.Chain
import DeferredDefaults.Proofs.Token.Edges
import DeferredDefaults.Proofs.Token.Margins

/-!
The tokens of a text keep the marker apart: where one token directly follows another, the marker
does not come about across the seam.
-/

set_option autoImplicit false
set_option relaxedAutoImplicit false

namespace DeferredDefaults

open Text (Sealed Blunt Bare)

/-- Where `token` ends, `next` does not go on with the marker. -/
structure Token.Parts (token next : Token) : Prop where
  apart : (Sealed markerText token.text.toList ∧ token.text ≠ "") ∨
    Blunt markerText next.text.toList ∨
    (token.isBreak = false ∧ SourceText.gap token.stop next.start ≠ [])
  rowEnd : token.kind = .comment → next.isBreak = true

def Token.Fenced (token next : Token) : Prop :=
  token.isLayout = false → next.isLayout = false → token.Parts next

/-- What the text of a token looks like by its kind, if it matters for the marker. -/
structure Token.Edged (token : Token) : Prop where
  trivia : token.isTrivia = true → Blunt markerText token.text.toList
  lineBreak : token.kind = .nl → Sealed markerText token.text.toList ∧ token.text ≠ ""
  indent : token.kind = .indent → Bare markerText token.text.toList

private theorem Token.fenced_of_isLayout {token : Token} (isLayout : token.isLayout = true)
    (next : Token) :
    token.Fenced next := by
  intro noLayout
  rw [isLayout] at noLayout
  cases noLayout

private theorem isChain_blocks {blocks rest : List Token}
    (layout : ∀ block ∈ blocks, block.isLayout = true) (chain : rest.IsChain Token.Fenced) :
    (blocks ++ rest).IsChain Token.Fenced := by
  induction blocks with
  | nil => exact chain
  | cons block more ih =>
    rw [List.forall_mem_cons] at layout
    exact (ih layout.2).cons fun next _ => Token.fenced_of_isLayout layout.1 next

private theorem isChain_behind {previous : Option Token} {blocks rest : List Token}
    (layout : ∀ block ∈ blocks, block.isLayout = true) (chain : rest.IsChain Token.Fenced)
    (direct : blocks = [] → ∀ token ∈ previous, ∀ next ∈ rest.head?, token.Fenced next) :
    (previous.toList ++ (blocks ++ rest)).IsChain Token.Fenced := by
  cases previous with
  | none =>
    show (blocks ++ rest).IsChain Token.Fenced
    exact isChain_blocks layout chain
  | some token =>
    refine (isChain_blocks layout chain).cons fun next found => ?_
    cases blocks with
    | nil => exact direct rfl token rfl next found
    | cons block more =>
      have same : block = next := Option.some.inj found
      intro _ noLayout
      rw [← same, layout block List.mem_cons_self] at noLayout
      cases noLayout

namespace Lexeme

private theorem blunt_of_lineBreak {lexeme : Lexeme} {rest : List Lexeme}
    (reads : Reads (lexeme :: rest)) (lineBreak : lexeme.kind = .lineBreak) :
    Blunt markerText lexeme.text := by
  obtain ⟨nonempty, read, _⟩ := reads
  rw [lineBreak, first_lineBreak_iff nonempty] at read
  have isBreak := read.1
  simp only [breaks, List.mem_cons, List.not_mem_nil, or_false] at isBreak
  rcases isBreak with text | text | text <;> rw [text] <;> decide +kernel

private theorem blunt_of_comment {lexeme : Lexeme} {rest : List Lexeme}
    (reads : Reads (lexeme :: rest)) (comment : lexeme.kind = .comment) :
    Blunt markerText lexeme.text := by
  obtain ⟨nonempty, read, _⟩ := reads
  rw [comment, first_comment_iff nonempty] at read
  intro c found
  rw [read.1] at found
  cases found
  decide +kernel

private theorem blunt_of_name {lexeme next : Lexeme} {rest : List Lexeme}
    (reads : Reads (lexeme :: next :: rest)) (name : lexeme.kind = .name) :
    Blunt markerText next.text := by
  obtain ⟨nonempty, read, readsNext, _⟩ := reads
  rw [name] at read
  rcases rule_of_first read with ⟨rule, member, isName, length⟩ | ⟨stray, _⟩
  · simp only [rules, List.mem_cons, List.not_mem_nil, or_false] at member
    rcases member with rfl | rfl | rfl | rfl | rfl | rfl | rfl | rfl | rfl <;>
      simp only [reduceCtorEq] at isName
    obtain ⟨c, more, split⟩ := List.exists_cons_of_ne_nil nonempty
    obtain ⟨d, others, splitNext⟩ := List.exists_cons_of_ne_nil readsNext
    simp only [split, Lexeme.name, List.cons_append, List.length_cons] at length
    split at length
    · have run : ((more ++ textOf (next :: rest)).takeWhile Text.Identifier.isInner).length =
          more.length := by omega
      rw [length_takeWhile_append_iff, textOf_cons, splitNext] at run
      intro e found
      rw [splitNext] at found
      cases found
      exact not_mem_markerText (by simpa using run.2)
    · omega
  · cases stray

end Lexeme

namespace Layout

variable {layout : Layout} {lexeme next : Lexeme} {gap rest : List Lexeme}

private theorem comment_tokenFor (comment : (layout.tokenFor lexeme).kind = .comment) :
    lexeme.kind = .comment := by
  obtain ⟨kind, text⟩ := lexeme
  cases kind with
  | comment => rfl
  | lineBreak =>
    simp only [tokenFor, lineBreak] at comment
    split at comment <;> cases comment
  | space | continuation | openQuote => cases comment
  | string | number | name | operator | stray => cases comment

theorem name_tokenFor : (layout.tokenFor lexeme).kind = .name ↔ lexeme.kind = .name := by
  obtain ⟨kind, text⟩ := lexeme
  cases kind with
  | name => exact ⟨fun _ => rfl, fun _ => rfl⟩
  | lineBreak =>
    simp only [tokenFor, lineBreak]
    split <;> simp
  | space | continuation | openQuote | comment => exact ⟨by rintro ⟨⟩, by rintro ⟨⟩⟩
  | string | number | operator | stray => exact ⟨by rintro ⟨⟩, by rintro ⟨⟩⟩

private theorem parts_tokenFor (reads : Lexeme.Reads (lexeme :: gap ++ next :: rest))
    (isGap : ∀ lexeme ∈ gap, lexeme.IsGap) (hasToken : lexeme.kind.hasToken = true)
    {behind : Layout} (cursor : behind.cursor = (layout.tokenFor lexeme).behind) :
    (layout.tokenFor lexeme).Parts ((behind.cross gap).tokenFor next) := by
  have text : (layout.tokenFor lexeme).text.toList = lexeme.text := by
    rw [text_tokenFor, String.toList_ofList]
  have nextText : ((behind.cross gap).tokenFor next).text.toList = next.text := by
    rw [text_tokenFor, String.toList_ofList]
  have nonempty : (layout.tokenFor lexeme).text ≠ "" := by
    intro empty
    rw [empty] at text
    exact reads.1 text.symm
  have readsNext : Lexeme.Reads (next :: rest) := reads.2.2.drop
  obtain ⟨ahead, further⟩ := Layout.cursor_cross behind isGap
  cases kind : lexeme.kind with
  | space | continuation | openQuote =>
    rw [kind] at hasToken
    cases hasToken
  | lineBreak | string | number | operator | stray =>
    have isSealed := Lexeme.sealed_of_reads reads hasToken (by rw [kind]; rfl)
    refine ⟨.inl ⟨text ▸ isSealed, nonempty⟩, fun comment => ?_⟩
    rw [comment_tokenFor comment] at kind
    cases kind
  | comment =>
    have lineBreak := Sigil.lineBreak_of_comment reads kind
    cases gap with
    | cons space others =>
      rcases (isGap space List.mem_cons_self).shape with ⟨isSpace, _⟩ | ⟨isContinuation, _⟩
      · rw [lineBreak space rfl] at isSpace
        cases isSpace
      · rw [lineBreak space rfl] at isContinuation
        cases isContinuation
    | nil =>
      have isBreak := lineBreak next rfl
      refine ⟨.inr (.inl (nextText ▸ Lexeme.blunt_of_lineBreak readsNext isBreak)), fun _ => ?_⟩
      rw [isBreak_tokenFor, isBreak]
      rfl
  | name =>
    refine ⟨?_, fun comment => ?_⟩
    · cases gap with
      | nil => exact .inr (.inl (nextText ▸ Lexeme.blunt_of_name reads kind))
      | cons space others =>
        have noBreak : (layout.tokenFor lexeme).isBreak = false := by
          rw [isBreak_tokenFor, kind]
          rfl
        rw [Token.behind, noBreak] at cursor
        refine .inr (.inr ⟨noBreak, ?_⟩)
        rw [start_tokenFor, ← show behind.cursor = (layout.tokenFor lexeme).stop from cursor]
        exact SourceText.gap_ne_nil ahead fun same => List.cons_ne_nil _ _ (further.1 same)
    · rw [comment_tokenFor comment] at kind
      cases kind

private theorem edged_tokenFor (reads : Lexeme.Reads (lexeme :: rest))
    (hasToken : lexeme.kind.hasToken = true) :
    (layout.tokenFor lexeme).Edged := by
  have text : (layout.tokenFor lexeme).text.toList = lexeme.text := by
    rw [text_tokenFor, String.toList_ofList]
  have nonempty : (layout.tokenFor lexeme).text ≠ "" := by
    intro empty
    rw [empty] at text
    exact reads.1 text.symm
  have isBreak := isBreak_tokenFor layout lexeme
  refine ⟨fun trivia => ?_, fun lineBreak => ?_, fun indent => ?_⟩
  · rw [text]
    rw [Token.isTrivia, Bool.or_eq_true, beq_iff_eq, beq_iff_eq] at trivia
    rcases trivia with comment | lineBreak
    · exact Lexeme.blunt_of_comment reads (comment_tokenFor comment)
    · rw [Token.isBreak, lineBreak] at isBreak
      exact Lexeme.blunt_of_lineBreak reads (beq_iff_eq.1 isBreak.symm)
  · rw [Token.isBreak, lineBreak] at isBreak
    rw [text]
    refine ⟨Lexeme.sealed_of_reads reads hasToken ?_, nonempty⟩
    rw [beq_iff_eq.1 isBreak.symm]
    rfl
  · have noLayout := isLayout_tokenFor layout lexeme
    rw [Token.isLayout, indent] at noLayout
    cases noLayout

def Follows (layout : Layout) (lexemes : List Lexeme) (previous : Option Token) : Prop :=
  ∀ token ∈ previous, ∃ (lexeme : Lexeme) (before : Layout), Lexeme.Reads (lexeme :: lexemes) ∧
    lexeme.kind.hasToken = true ∧ token = before.tokenFor lexeme ∧ layout.cursor = token.behind

private theorem edged_of_isLayout {token : Token} (noIndent : token.kind ≠ .indent)
    (isLayout : token.isLayout = true) : token.Edged := by
  refine ⟨fun trivia => ?_, fun lineBreak => ?_, fun indent => absurd indent noIndent⟩
  · rw [Token.isTrivia, Bool.or_eq_true, beq_iff_eq, beq_iff_eq] at trivia
    rcases trivia with kind | kind <;> simp [Token.isLayout, kind] at isLayout
  · simp [Token.isLayout, lineBreak] at isLayout

private theorem bare_of_isSpace {text : List Char} (spaces : text.all Lexeme.isSpace = true) :
    Bare markerText text := by
  intro c member
  have space := List.all_eq_true.1 spaces c member
  simp only [Lexeme.isSpace, Bool.or_eq_true, beq_iff_eq] at space
  rcases space with (rfl | rfl) | rfl <;> decide +kernel

private theorem edged_settle (spaces : layout.margin.all Lexeme.isSpace = true)
    {blocks : List Token} {settled : Layout} (settles : layout.settle = .ok (blocks, settled)) :
    ∀ block ∈ blocks, block.Edged := by
  rcases settle_eq_ok settles with ⟨_, rfl, _⟩ | ⟨_, rfl, _⟩
  · rw [List.forall_mem_singleton]
    refine ⟨by rintro ⟨⟩, by rintro ⟨⟩, fun _ => ?_⟩
    rw [opening, String.toList_ofList]
    exact bare_of_isSpace spaces
  · rw [List.forall_mem_map]
    exact fun _ _ => edged_of_isLayout (by rintro ⟨⟩) rfl

private theorem fenced_finish {tokens : List Token} (finished : layout.finish = .ok tokens)
    (previous : Option Token) :
    (∀ token ∈ tokens, token.Edged) ∧ (previous.toList ++ tokens).IsChain Token.Fenced := by
  obtain ⟨place, finishes⟩ := finish_of_depth (depth_of_finish finished)
  rw [finishes] at finished
  cases finished
  have layoutEnd : ∀ token ∈ List.replicate layout.blocks.length (dedentAt place) ++
      [⟨.endMarker, "", place, place⟩], token.isLayout = true ∧ token.kind ≠ .indent := by
    rw [List.forall_mem_append, List.forall_mem_singleton]
    refine ⟨fun token member => ?_, rfl, nofun⟩
    rw [List.eq_of_mem_replicate member]
    exact ⟨rfl, nofun⟩
  have edgedEnd := fun token member =>
    edged_of_isLayout (layoutEnd token member).2 (layoutEnd token member).1
  generalize List.replicate layout.blocks.length (dedentAt place) ++
    [⟨.endMarker, "", place, place⟩] = ending at layoutEnd edgedEnd ⊢
  have isChain := isChain_blocks (fun token member => (layoutEnd token member).1) List.IsChain.nil
  rw [List.append_nil] at isChain
  have apart : ∀ (token : Token), ∀ next ∈ ending.head?, token.Fenced next := by
    intro token next found _ noLayout
    rw [(layoutEnd next (List.mem_of_mem_head? found)).1] at noLayout
    cases noLayout
  cases layout.lineHasCode with
  | false =>
    exact ⟨edgedEnd,
      isChain_behind (List.forall_mem_nil _) isChain fun _ token _ => apart token⟩
  | true =>
    refine ⟨List.forall_mem_cons.2 ⟨⟨nofun, nofun, nofun⟩, edgedEnd⟩, ?_⟩
    let newline : Token := ⟨.newline, "", layout.cursor, layout.cursor.right 1⟩
    show (previous.toList ++ ([] ++ newline :: ending)).IsChain Token.Fenced
    refine isChain_behind (List.forall_mem_nil _) (isChain.cons (apart _)) ?_
    rintro _ token _ next ⟨⟩ _ _
    exact ⟨.inr (.inl nofun), fun _ => rfl⟩

private theorem fenced_run {lexemes : List Lexeme} (reads : Lexeme.Reads lexemes) {layout : Layout}
    {tokens : List Token} (spaces : layout.margin.all Lexeme.isSpace = true)
    (ran : layout.run lexemes = .ok tokens) {previous : Option Token}
    (follows : layout.Follows lexemes previous) :
    (∀ token ∈ tokens, token.Edged) ∧ (previous.toList ++ tokens).IsChain Token.Fenced := by
  generalize size : lexemes.length = n
  induction n using Nat.strongRecOn generalizing lexemes layout tokens previous with
  | ind n ih =>
    obtain ⟨gap, rest, rfl, isGap, head⟩ := Lexeme.exists_gap reads
    have spacesCross := margin_cross layout isGap spaces
    rw [run_gap isGap] at ran
    cases rest with
    | nil => exact fenced_finish ran previous
    | cons lexeme more =>
      obtain ⟨noSpace, noContinuation⟩ := head lexeme rfl
      have readsLexeme : Lexeme.Reads (lexeme :: more) := reads.drop
      have smaller : more.length < n := by
        rw [List.length_append, List.length_cons] at size
        omega
      have direct : ∀ token ∈ previous, ∀ others, ∀ next ∈
          ((layout.cross gap).tokenFor lexeme :: others : List Token).head?, token.Fenced next := by
        rintro token found others _ ⟨⟩ _ _
        obtain ⟨lexeme', before, reads', hasToken', rfl, cursor⟩ := follows token found
        exact parts_tokenFor reads' isGap hasToken' cursor
      obtain ⟨hasToken, ⟨_, others, rfl, ranRest⟩ | ⟨_, _, blocks, settled, others, settles, rfl,
        ranRest⟩⟩ := run_cons_eq_ok noSpace noContinuation ran
      · have next : ((layout.cross gap).behind lexeme).Follows more
            (some ((layout.cross gap).tokenFor lexeme)) := by
          rintro _ ⟨⟩
          exact ⟨lexeme, layout.cross gap, readsLexeme, hasToken, rfl, cursor_behind _ _⟩
        obtain ⟨edged, chain⟩ := ih more.length smaller readsLexeme.2.2
          (Sigil.margin_behind _ lexeme spacesCross) ranRest next rfl
        exact ⟨List.forall_mem_cons.2 ⟨edged_tokenFor readsLexeme hasToken, edged⟩,
          isChain_behind (List.forall_mem_nil _) chain fun _ token found => direct token found others⟩
      · have next : (settled.behind lexeme).Follows more
            (some ((layout.cross gap).tokenFor lexeme)) := by
          rintro _ ⟨⟩
          refine ⟨lexeme, layout.cross gap, readsLexeme, hasToken, rfl, ?_⟩
          rw [cursor_behind, tokenFor_settle settles]
        have spacesSettled : settled.margin.all Lexeme.isSpace = true := by
          rw [settle_blocks settles]
          exact spacesCross
        obtain ⟨edged, chain⟩ := ih more.length smaller readsLexeme.2.2
          (Sigil.margin_behind _ lexeme spacesSettled) ranRest next rfl
        refine ⟨List.forall_mem_append.2 ⟨edged_settle spacesCross settles,
          List.forall_mem_cons.2 ⟨edged_tokenFor readsLexeme hasToken, edged⟩⟩, ?_⟩
        exact isChain_behind (isLayout_of_settle settles) chain
          fun _ token found => direct token found others

end Layout

theorem fenced_tokenize {source : String} {tokens : List Token}
    (tokenized : tokenize source = .ok tokens) :
    (∀ token ∈ tokens, token.Edged) ∧ tokens.IsChain Token.Fenced :=
  Layout.fenced_run (Lexeme.reads_split source.toList) rfl tokenized
    (fun _ none => nomatch none : Layout.Follows {} _ none)

end DeferredDefaults
