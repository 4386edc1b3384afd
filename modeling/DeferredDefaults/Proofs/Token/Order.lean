import DeferredDefaults.Proofs.Token.Nesting

/-!
The order of tokens. Between two logical lines stand the tokens that open and close blocks and the
trivia; every other token begins where the one before it has ended or later. Only a block that
closes behind a comment without a line break is placed in front of it, on the same row.
-/

set_option autoImplicit false
set_option relaxedAutoImplicit false

namespace DeferredDefaults

/-- The tokens follow one another, `last` being the place behind the one in front of them. On a
fresh line no code has appeared yet, and only there stand tokens of layout. -/
def Token.InOrder : (fresh : Bool) → (last : Position) → List Token → Prop
  | _, _, [] => True
  | fresh, last, token :: rest =>
    if token.isLayout then
      fresh = true ∧ last.row ≤ token.start.row ∧ InOrder fresh last rest
    else
      token.Fills ∧ last ≤ token.start ∧
        InOrder ((fresh && !token.isSignificant) || token.kind == .newline) token.behind rest

namespace Token

variable {fresh : Bool} {last : Position} {token : Token} {rest : List Token}

theorem inOrder_layout (isLayout : token.isLayout = true) :
    InOrder fresh last (token :: rest) ↔
      fresh = true ∧ last.row ≤ token.start.row ∧ InOrder fresh last rest := by
  rw [InOrder, if_pos isLayout]

theorem inOrder_token (noLayout : token.isLayout = false) :
    InOrder fresh last (token :: rest) ↔ token.Fills ∧ last ≤ token.start ∧
      InOrder ((fresh && !token.isSignificant) || token.kind == .newline) token.behind rest := by
  rw [InOrder, if_neg (by simp [noLayout])]

private theorem inOrder_blocks {blocks : List Token}
    (layout : ∀ block ∈ blocks, block.isLayout = true ∧ last.row ≤ block.start.row)
    (others : InOrder true last rest) : InOrder true last (blocks ++ rest) := by
  induction blocks with
  | nil => exact others
  | cons block blocks ih =>
    rw [List.forall_mem_cons] at layout
    exact (inOrder_layout layout.1.1).2 ⟨rfl, layout.1.2, ih layout.2⟩

end Token

namespace Layout

variable {layout next : Layout} {last : Position} {lexeme : Lexeme}

private theorem atLineStart_behind (line : layout.lineHasCode = !layout.atLineStart)
    (hasToken : lexeme.kind.hasToken = true) : (layout.behind lexeme).atLineStart =
      ((layout.atLineStart && !(layout.tokenFor lexeme).isSignificant) ||
        (layout.tokenFor lexeme).kind == .newline) := by
  have kindOf : (layout.tokenFor lexeme).kind =
      Phase.kindOf ⟨layout.depth, layout.atLineStart, true⟩ lexeme.kind := kind_tokenFor line lexeme
  rw [← (Phase.traits hasToken kindOf).2.2.2]
  obtain ⟨kind, text⟩ := lexeme
  cases kind with
  | space | continuation | openQuote => cases hasToken
  | lineBreak => simp [behind, lineBreak, Phase.after, Phase.kindOf, Layout.kindOf, line]
  | comment | string | number | name | operator | stray => rfl

private theorem inOrder_finish {tokens : List Token}
    (line : layout.lineHasCode = !layout.atLineStart) (ahead : last ≤ layout.cursor)
    (finished : layout.finish = .ok tokens) :
    Token.InOrder layout.atLineStart last tokens := by
  have closing : ∀ {last place : Position}, last.row ≤ place.row →
      Token.InOrder true last (layout.blocks.map (fun _ => dedentAt place) ++
        [⟨.endMarker, "", place, place⟩]) := by
    intro last place row
    refine Token.inOrder_blocks ?_ ((Token.inOrder_layout rfl).2 ⟨rfl, row, trivial⟩)
    rw [List.forall_mem_map]
    exact fun _ _ => ⟨rfl, row⟩
  rw [finish, if_neg (by have := depth_of_finish finished; omega), line] at finished
  cases fresh : layout.atLineStart with
  | true =>
    rw [fresh] at finished
    cases finished
    refine closing ?_
    rw [Position.le_iff] at ahead
    simp only [Bool.not_true, Bool.false_eq_true, if_false]
    omega
  | false =>
    rw [fresh] at finished
    cases finished
    exact (Token.inOrder_token rfl).2 ⟨rfl, ahead, closing (Nat.le_refl _)⟩

private theorem inOrder_run {lexemes : List Lexeme} {tokens : List Token} (stacked : layout.Stacked)
    (ahead : last ≤ layout.cursor) (reads : Lexeme.Reads lexemes)
    (ran : layout.run lexemes = .ok tokens) : Token.InOrder layout.atLineStart last tokens := by
  induction lexemes generalizing layout last tokens with
  | nil => exact inOrder_finish stacked.line ahead ran
  | cons lexeme rest ih =>
    rw [run, bind_eq_ok] at ran
    obtain ⟨⟨own, next⟩, stepped, ran⟩ := ran
    obtain ⟨others, ranRest, joined⟩ := bind_eq_ok.1 ran
    cases joined
    have later := stacked.step stepped
    have noLayout := isLayout_tokenFor layout lexeme
    have fills := fills_tokenFor layout reads.1
    -- The token of the lexeme, in front of those of the layout behind it.
    have token : ∀ {settled : Layout}, lexeme.kind.hasToken = true →
        settled = { layout with blocks := settled.blocks } → (settled.behind lexeme).Stacked →
        (settled.behind lexeme).run rest = .ok others →
        Token.InOrder layout.atLineStart last (layout.tokenFor lexeme :: others) := by
      intro settled hasToken same stackedBehind ranBehind
      have sameToken : settled.tokenFor lexeme = layout.tokenFor lexeme := by
        rw [same, tokenFor_blocks]
      have line : settled.lineHasCode = !settled.atLineStart := by
        rw [same]
        exact stacked.line
      have fresh : settled.atLineStart = layout.atLineStart := by rw [same]
      have inner := ih stackedBehind (Position.le_refl _) reads.2.2 ranBehind
      rw [atLineStart_behind line hasToken, cursor_behind, sameToken, fresh] at inner
      refine (Token.inOrder_token noLayout).2 ⟨fills, ?_, inner⟩
      rwa [start_tokenFor]
    rcases step_eq_ok stepped with ⟨gap, rfl, rfl⟩ | ⟨hasToken, -, rfl, rfl⟩ |
      ⟨fresh, isCode, blocks, settled, settles, rfl, rfl⟩
    · have isGap : ∀ other ∈ [lexeme], other.IsGap :=
        List.forall_mem_singleton.2 (Lexeme.isGap_of_reads reads gap)
      have further := (cursor_cross layout isGap).1
      have inner := ih later (Position.le_trans ahead further) reads.2.2 ranRest
      rcases gap with kind | kind <;> simpa [pass, kind] using inner
    · exact token hasToken rfl later ranRest
    · have hasToken : lexeme.kind.hasToken = true := by simp [Lexeme.Kind.hasToken, isCode]
      have inner := token hasToken (settle_blocks settles) later ranRest
      rw [fresh] at inner ⊢
      rw [List.append_assoc]
      refine Token.inOrder_blocks ?_ inner
      rw [Position.le_iff] at ahead
      rcases settle_eq_ok settles with ⟨-, rfl, -⟩ | ⟨-, rfl, -⟩
      · rw [List.forall_mem_singleton]
        exact ⟨rfl, by simp only [opening]; omega⟩
      · rw [List.forall_mem_map]
        exact fun _ _ => ⟨rfl, by simp only [dedentAt]; omega⟩

end Layout

theorem inOrder_tokenize {source : String} {tokens : List Token}
    (tokenized : tokenize source = .ok tokens) : Token.InOrder true .origin tokens :=
  Layout.inOrder_run Layout.stacked_initial (Position.le_refl _) (Lexeme.reads_split _) tokenized

end DeferredDefaults
