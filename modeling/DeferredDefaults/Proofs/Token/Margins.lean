import DeferredDefaults.Proofs.Token.Relaying

/-!
What has been written reads back as the same tokens only if every margin fits its block.
-/

set_option autoImplicit false
set_option relaxedAutoImplicit false

namespace DeferredDefaults

/-- The kind and the text of a token, its places aside. -/
def Token.shape (token : Token) : Kind × String := (token.kind, token.text)

private theorem shape_split {front front' rest rest' : List Token} {token token' : Token}
    (layout : ∀ block ∈ front, block.isLayout = true)
    (layout' : ∀ block ∈ front', block.isLayout = true)
    (noLayout : token.isLayout = false) (noLayout' : token'.isLayout = false)
    (same : (front ++ token :: rest).map Token.shape = (front' ++ token' :: rest').map Token.shape) :
    front.map Token.shape = front'.map Token.shape ∧
      rest.map Token.shape = rest'.map Token.shape := by
  have sameLayout : ∀ {one other : Token}, one.shape = other.shape →
      one.isLayout = other.isLayout := by
    intro one other same
    rw [Token.isLayout, Token.isLayout, (Prod.mk.inj same).1]
  induction front generalizing front' with
  | nil =>
    cases front' with
    | nil => exact ⟨rfl, (List.cons.inj same).2⟩
    | cons block' more' =>
      have isLayout := sameLayout (List.cons.inj same).1
      rw [noLayout, layout' block' List.mem_cons_self] at isLayout
      cases isLayout
  | cons block more ih =>
    cases front' with
    | nil =>
      have isLayout := sameLayout (List.cons.inj same).1
      rw [noLayout', layout block List.mem_cons_self] at isLayout
      cases isLayout
    | cons block' more' =>
      rw [List.forall_mem_cons] at layout layout'
      obtain ⟨first, others⟩ := List.cons.inj same
      obtain ⟨sameMore, sameRest⟩ := ih layout.2 layout'.2 others
      refine ⟨?_, sameRest⟩
      rw [List.map_cons, List.map_cons, first, sameMore]

namespace Layout

variable {layout : Layout} {lexeme : Lexeme} {gap rest : List Lexeme} {again : List Token}

private theorem layout_of_settle {blocks : List Token} {settled : Layout}
    (settles : layout.settle = .ok (blocks, settled)) :
    ∀ block ∈ blocks, block.isLayout = true ∧ (block.kind ≠ .indent → block.text = "") := by
  rcases settle_eq_ok settles with ⟨_, rfl, _⟩ | ⟨_, rfl, _⟩
  · rw [List.forall_mem_singleton]
    exact ⟨rfl, fun notIndent => absurd rfl notIndent⟩
  · rw [List.forall_mem_map]
    exact fun _ _ => ⟨rfl, fun _ => rfl⟩

theorem isLayout_of_settle {blocks : List Token} {settled : Layout}
    (settles : layout.settle = .ok (blocks, settled)) : ∀ block ∈ blocks, block.isLayout = true :=
  fun block member => (layout_of_settle settles block member).1

theorem settle_blocks {blocks : List Token} {settled : Layout}
    (settles : layout.settle = .ok (blocks, settled)) :
    settled = { layout with blocks := settled.blocks } := by
  rcases settle_eq_ok settles with ⟨_, _, rfl⟩ | ⟨_, _, rfl⟩ <;> rfl

theorem kept_eq (layout : Layout) : layout.kept = layout.blocks.drop layout.closed.length := by
  have whole : layout.closed ++ layout.kept = layout.blocks := List.takeWhile_append_dropWhile
  rw [← whole, List.drop_left]

private theorem settle_of_dedents {blocks blocks' : List Token} {settled : Layout}
    (dedents : ∀ block ∈ blocks, block.kind = .dedent)
    (settles : layout.settle = .ok (blocks', settled))
    (same : blocks'.map Token.shape = blocks.map Token.shape) :
    layout.closed.length = blocks.length ∧ layout.kept.headD 0 = width layout.margin ∧
      settled = { layout with blocks := layout.kept } := by
  rcases settle_eq_ok settles with ⟨_, rfl, _⟩ | ⟨returns, rfl, isSettled⟩
  · cases blocks with
    | nil => cases same
    | cons block rest =>
      have kind := (Prod.mk.inj (List.cons.inj same).1).1
      rw [dedents block List.mem_cons_self] at kind
      cases kind
  · have length := congrArg List.length same
    simp only [List.length_map] at length
    exact ⟨length, returns, isSettled⟩

private theorem settle_of_indent {block : Token} {blocks' : List Token} {settled : Layout}
    (indent : block.kind = .indent) (settles : layout.settle = .ok (blocks', settled))
    (same : blocks'.map Token.shape = [block].map Token.shape) :
    layout.margin = block.text.toList ∧
      settled = { layout with blocks := width layout.margin :: layout.blocks } := by
  rcases settle_eq_ok settles with ⟨_, rfl, isSettled⟩ | ⟨_, rfl, _⟩
  · have text := (Prod.mk.inj (List.cons.inj same).1).2
    refine ⟨?_, isSettled⟩
    rw [← text, opening, String.toList_ofList]
  · cases split : layout.closed with
    | nil =>
      rw [split] at same
      cases same
    | cons width others =>
      rw [split] at same
      have kind := (Prod.mk.inj (List.cons.inj same).1).1
      rw [indent] at kind
      cases kind

theorem ne_of_hasToken (hasToken : lexeme.kind.hasToken = true) :
    lexeme.kind ≠ .space ∧ lexeme.kind ≠ .continuation := by
  constructor
  · intro kind
    rw [kind] at hasToken
    cases hasToken
  · intro kind
    rw [kind] at hasToken
    cases hasToken

private theorem run_later (isGap : ∀ lexeme ∈ gap, lexeme.IsGap)
    (hasToken : lexeme.kind.hasToken = true)
    (notFirst : (layout.atLineStart && lexeme.kind.isCode) = false)
    (ran : layout.run (gap ++ lexeme :: rest) = .ok again) :
    ∃ others, again = (layout.cross gap).tokenFor lexeme :: others ∧
      ((layout.cross gap).behind lexeme).run rest = .ok others := by
  rw [run_gap isGap] at ran
  obtain ⟨_, ⟨_, later⟩ | ⟨fresh, isCode, _⟩⟩ :=
    run_cons_eq_ok (ne_of_hasToken hasToken).1 (ne_of_hasToken hasToken).2 ran
  · exact later
  · rw [atLineStart_cross] at fresh
    rw [fresh, isCode] at notFirst
    cases notFirst

private theorem run_first (isGap : ∀ lexeme ∈ gap, lexeme.IsGap)
    (isCode : lexeme.kind.isCode = true) (fresh : layout.atLineStart = true)
    (ran : layout.run (gap ++ lexeme :: rest) = .ok again) :
    ∃ blocks settled others, (layout.cross gap).settle = .ok (blocks, settled) ∧
      again = blocks ++ (layout.cross gap).tokenFor lexeme :: others ∧
      (settled.behind lexeme).run rest = .ok others := by
  have hasToken : lexeme.kind.hasToken = true := by simp [Lexeme.Kind.hasToken, isCode]
  rw [run_gap isGap] at ran
  obtain ⟨_, ⟨later, _⟩ | ⟨_, _, first⟩⟩ :=
    run_cons_eq_ok (ne_of_hasToken hasToken).1 (ne_of_hasToken hasToken).2 ran
  · rw [atLineStart_cross, fresh, isCode] at later
    cases later
  · exact first

/-- Where a token comes from: from one of the lexemes, or from the layout of lines and blocks. -/
def ComesFrom (lexemes : List Lexeme) (token : Token) : Prop :=
  (token.isLayout = true ∧ (token.kind ≠ .indent → token.text = "")) ∨
  (token.kind = .newline ∧ token.text = "") ∨
  ∃ (before : Layout) (lexeme : Lexeme) (rest : List Lexeme), lexeme ∈ lexemes ∧
    Lexeme.Reads (lexeme :: rest) ∧ lexeme.kind.hasToken = true ∧ token = before.tokenFor lexeme

private theorem ComesFrom.cons {lexemes : List Lexeme} {token : Token}
    (comes : ComesFrom lexemes token) (lexeme : Lexeme) : ComesFrom (lexeme :: lexemes) token := by
  obtain isLayout | newline | ⟨before, origin, rest, isOrigin, tokenFor⟩ := comes
  · exact .inl isLayout
  · exact .inr (.inl newline)
  · exact .inr (.inr ⟨before, origin, rest, List.mem_cons_of_mem _ isOrigin, tokenFor⟩)

theorem mem_run {lexemes : List Lexeme} (reads : Lexeme.Reads lexemes) {tokens : List Token}
    (ran : layout.run lexemes = .ok tokens) : ∀ token ∈ tokens, ComesFrom lexemes token := by
  induction lexemes generalizing layout tokens with
  | nil =>
    obtain ⟨place, finished⟩ := finish_of_depth (depth_of_finish ran)
    rw [run, finished] at ran
    cases ran
    intro token member
    rcases List.mem_append.1 member with newline | closing
    · split at newline
      · rw [List.mem_singleton] at newline
        exact .inr (.inl (by simp [newline]))
      · cases newline
    · left
      rcases List.mem_append.1 closing with dedent | stop
      · rw [List.eq_of_mem_replicate dedent]
        exact ⟨rfl, fun _ => rfl⟩
      · rw [List.mem_singleton.1 stop]
        exact ⟨rfl, fun _ => rfl⟩
  | cons lexeme rest ih =>
    have behind : ∀ {next : Layout} {others : List Token}, next.run rest = .ok others →
        ∀ token ∈ others, ComesFrom (lexeme :: rest) token :=
      fun ran token member => (ih reads.2.2 ran token member).cons lexeme
    by_cases kind : lexeme.kind = .space ∨ lexeme.kind = .continuation
    · have isGap := List.forall_mem_singleton.2 (Lexeme.isGap_of_reads reads kind)
      exact behind ((run_gap isGap layout rest).symm.trans ran)
    · rw [not_or] at kind
      obtain ⟨hasToken, either⟩ := run_cons_eq_ok kind.1 kind.2 ran
      have comes : ComesFrom (lexeme :: rest) (layout.tokenFor lexeme) :=
        .inr (.inr ⟨layout, lexeme, rest, List.mem_cons_self, reads, hasToken, rfl⟩)
      obtain ⟨-, others, rfl, ranRest⟩ | ⟨-, -, blocks, settled, others, settles, rfl, ranRest⟩ :=
        either
      · exact List.forall_mem_cons.2 ⟨comes, behind ranRest⟩
      · refine List.forall_mem_append.2 ⟨fun block member => .inl ?_,
          List.forall_mem_cons.2 ⟨comes, behind ranRest⟩⟩
        exact layout_of_settle settles block member

end Layout

private theorem Layout.InPhase.shape_tokenFor {phase : Phase} {layout : Layout}
    (inPhase : layout.InPhase phase) (gap : List Lexeme) {lexeme : Lexeme} {token : Token}
    (kind : token.kind = phase.kindOf lexeme.kind) (text : token.text = String.ofList lexeme.text) :
    ((layout.cross gap).tokenFor lexeme).shape = token.shape := by
  rw [Token.shape, inPhase.kind_tokenFor, Layout.text_tokenFor, ← kind, ← text]
  rfl

private theorem Layout.InPhase.reads_first {phase : Phase} {layout : Layout}
    (inPhase : layout.InPhase phase) (fresh : phase.fresh = true) {gap rest : List Lexeme}
    (isGap : ∀ lexeme ∈ gap, lexeme.IsGap) {lexeme : Lexeme} (isCode : lexeme.kind.isCode = true)
    {token : Token} (kind : token.kind = phase.kindOf lexeme.kind)
    (text : token.text = String.ofList lexeme.text) {again : List Token}
    (ran : layout.run (gap ++ lexeme :: rest) = .ok again) :
    ∃ blocks settled other others, (layout.cross gap).settle = .ok (blocks, settled) ∧
      again = blocks ++ other :: others ∧ (∀ block ∈ blocks, block.isLayout = true) ∧
      other.isLayout = false ∧ other.shape = token.shape ∧
      (settled.behind lexeme).InPhase (phase.after lexeme) ∧
      (settled.behind lexeme).run rest = .ok others := by
  obtain ⟨blocks, settled, others, settles, joined, ranRest⟩ :=
    run_first isGap isCode (inPhase.fresh.trans fresh) ran
  refine ⟨blocks, settled, _, others, settles, joined, isLayout_of_settle settles,
    phase.isLayout_kindOf (inPhase.kind_tokenFor gap lexeme), inPhase.shape_tokenFor gap kind text,
    ?_, ranRest⟩
  rw [settle_blocks settles]
  exact inPhase.behind gap settled.blocks lexeme

private theorem isLayout_dedents {blocks : List Token}
    (dedents : ∀ block ∈ blocks, block.kind = .dedent) :
    ∀ block ∈ blocks, block.isLayout = true := by
  intro block member
  simp [Token.isLayout, dedents block member]

/-- What has been written reads back as the same tokens only if every margin fits its block. -/
theorem Written.keepsMargins_of_run {phase : Phase} {writer : SourceText} {tokens : List Token}
    {lexemes : List Lexeme} (written : Written phase writer tokens lexemes) {layout : Layout}
    (relay : Relay phase writer layout) {again : List Token}
    (ran : layout.run lexemes = .ok again) (same : again.map Token.shape = tokens.map Token.shape) :
    SourceText.keepsMargins phase.fresh false writer tokens = true := by
  induction written generalizing layout again with
  | @token phase writer lexeme token rest lexemes hasToken notFirst kind text _ _ _ ih =>
    have isGap := (SourceText.isPad_pad relay.spaces token).isGap
    obtain ⟨noLayout, significant, isBreak, fresh⟩ := Phase.traits hasToken kind
    obtain ⟨others, rfl, ranRest⟩ := Layout.run_later isGap hasToken
      (by rw [relay.inPhase.fresh, notFirst]) ran
    have widths : writer.indents.map (fun indent => Layout.width indent.toList) =
        (layout.cross (writer.pad token)).blocks := by
      rw [Layout.blocks_cross]
      exact relay.widths
    have next := Relay.next relay.inPhase (writer.pad token) widths relay.spaces isBreak
    rw [SourceText.keepsMargins_token noLayout, ← fresh, significant, notFirst,
      ih next ranRest (List.cons.inj same).2]
    rfl
  | @first phase writer blocks lexeme token rest lexemes isCode fresh rowStart dedents within _ kind
      text _ ahead _ ih =>
    have hasToken : lexeme.kind.hasToken = true := by simp [Lexeme.Kind.hasToken, isCode]
    obtain ⟨noLayout, significant, isBreak, freshAfter⟩ := Phase.traits hasToken kind
    have kinds : ∀ block ∈ blocks, block.kind = .dedent := fun block member =>
      (dedents block member).1
    have stops : ∀ block ∈ blocks, block.kind = .dedent ∧ block.stop = token.start :=
      fun block member => ⟨(dedents block member).1, (dedents block member).2.2⟩
    have indents : (blocks.foldl SourceText.enter writer).indents =
        writer.indents.drop blocks.length := by rw [SourceText.foldl_enter_dedents stops]
    have inner : ∀ indent ∈ (blocks.foldl SourceText.enter writer).indents,
        indent.toList.all Lexeme.isSpace = true :=
      fun indent member => relay.spaces indent (List.mem_of_mem_drop (indents ▸ member))
    have isGap := (SourceText.isPad_pad inner token).isGap
    obtain ⟨blocks', settled, other, others, settles, rfl, layout', noLayout', _, _, ranRest⟩ :=
      relay.inPhase.reads_first fresh isGap isCode kind text ran
    obtain ⟨sameBlocks, sameRest⟩ := shape_split layout' (isLayout_dedents kinds) noLayout' noLayout
      same
    obtain ⟨count, returns, rfl⟩ := Layout.settle_of_dedents kinds settles sameBlocks
    have widths : (blocks.foldl SourceText.enter writer).indents.map
        (fun indent => Layout.width indent.toList) =
          (layout.cross ((blocks.foldl SourceText.enter writer).pad token)).kept := by
      rw [Layout.kept_eq, count, Layout.blocks_cross, ← relay.widths, indents, List.map_drop]
    have fits : (blocks.foldl SourceText.enter writer).fitsBlock false token = true := by
      rw [← widths, ← SourceText.width_headD, relay.margin_eq fresh rowStart
        (SourceText.last_foldl_enter_le stops ahead)] at returns
      simpa [SourceText.fitsBlock] using returns.symm
    have next := Relay.next relay.inPhase ((blocks.foldl SourceText.enter writer).pad token) widths
      inner isBreak
    rw [SourceText.keepsMargins_dedents kinds, SourceText.keepsMargins_token noLayout, ← freshAfter,
      fits, ih next ranRest sameRest]
    simp
  | @opened phase writer block lexeme token rest lexemes isCode fresh rowStart indent isSpace _ kind
      text _ ahead _ ih =>
    have hasToken : lexeme.kind.hasToken = true := by simp [Lexeme.Kind.hasToken, isCode]
    obtain ⟨noLayout, significant, isBreak, freshAfter⟩ := Phase.traits hasToken kind
    have inner : ∀ other ∈ (writer.enter block).indents,
        other.toList.all Lexeme.isSpace = true := by
      rw [SourceText.enter_indent indent, List.forall_mem_cons]
      exact ⟨isSpace, relay.spaces⟩
    have isGap := (SourceText.isPad_pad inner token).isGap
    have isLayout : ∀ other ∈ [block], other.isLayout = true := by
      simp [Token.isLayout, indent]
    obtain ⟨blocks', settled, other, others, settles, rfl, layout', noLayout', _, _, ranRest⟩ :=
      relay.inPhase.reads_first fresh isGap isCode kind text ran
    obtain ⟨sameBlocks, sameRest⟩ := shape_split layout' isLayout noLayout' noLayout same
    obtain ⟨margin, rfl⟩ := Layout.settle_of_indent indent settles sameBlocks
    have widths : (writer.enter block).indents.map (fun indent => Layout.width indent.toList) =
        Layout.width (layout.cross ((writer.enter block).pad token)).margin ::
          (layout.cross ((writer.enter block).pad token)).blocks := by
      rw [margin, Layout.blocks_cross, ← relay.widths, SourceText.enter_indent indent, List.map_cons]
    have fits : (writer.enter block).fitsBlock true token = true := by
      rw [relay.margin_eq fresh rowStart (by rwa [SourceText.enter_indent indent])] at margin
      simpa [SourceText.fitsBlock, SourceText.enter_indent indent] using margin
    have next := Relay.next relay.inPhase ((writer.enter block).pad token) widths inner isBreak
    rw [SourceText.keepsMargins, if_neg (by simp [indent]), if_pos (isLayout block (by simp)), indent,
      SourceText.keepsMargins_token noLayout, ← freshAfter, ih next ranRest sameRest]
    simp [fits]
  | @ended phase writer blocks stop closed fresh dedents _ isStop _ =>
    rw [SourceText.keepsMargins_dedents fun block member => (dedents block member).1]
    simp [SourceText.keepsMargins, isStop]
  | @cutOff phase writer token blocks stop closed fresh kind text _ dedents _ isStop _ =>
    have noLayout : token.isLayout = false := by simp [Token.isLayout, kind]
    rw [List.cons_append, SourceText.keepsMargins_token noLayout,
      SourceText.keepsMargins_dedents fun block member => (dedents block member).1]
    simp [SourceText.keepsMargins, isStop, fresh]

end DeferredDefaults
