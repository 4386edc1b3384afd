import DeferredDefaults.Proofs.Token.Edges
import DeferredDefaults.Proofs.Token.Revision

/-!
Tokens that spell a text. Every token stands behind a gap and is read from what follows it; within a
row the gap is the one between the places of the tokens. This holds of all tokens that have been
written, at every place between two of them.
-/

set_option autoImplicit false
set_option relaxedAutoImplicit false

namespace DeferredDefaults

open Lexeme (Spacing)

structure Spot where
  /-- The number of brackets that are open. -/
  depth : Nat := 0
  /-- No code has appeared since the last logical line ended. -/
  fresh : Bool := true
  /-- The place behind the last token of the row. -/
  last : Option Position := none

def Spot.after (spot : Spot) (token : Token) : Spot :=
  if token.isLayout then { spot with last := none }
  else
    { depth := token.depthAfter spot.depth
      fresh := (spot.fresh && !token.isSignificant) || token.kind == .newline
      last := if token.isBreak then none else some token.stop }

theorem Token.depthAfter_of_kind {token : Token} (noOp : token.kind ≠ .op) (depth : Nat) :
    token.depthAfter depth = depth := by
  simp [Token.depthAfter, Token.opensBracket, Token.closesBracket, Token.isOp, noOp]

/-- The token is read behind a gap and in front of `behind`: it is a lexeme, or the end of a line
that has no line break. -/
inductive Token.Spelled (spot : Spot) (gap : List Char) (token : Token) (behind : List Char) : Prop
  | lexeme (kind : Lexeme.Kind) : kind.hasToken = true → kind ≠ .stray →
      token.kind = Layout.kindOf spot.depth spot.fresh kind → token.text ≠ "" →
      Lexeme.first (token.text.toList ++ behind) = (kind, token.text.toList.length) →
      Token.Spelled spot gap token behind
  | cutOff : token.kind = .newline → token.text = "" → behind = [] → spot.depth = 0 →
      spot.fresh = false → gap.getLast? ≠ some '\n' → Token.Spelled spot gap token behind

/-- The tokens spell the text. Blocks open and close only in front of code or at the end. -/
def Spells : Spot → List Token → List Char → Prop
  | _, [], text => text = []
  | spot, token :: rest, text =>
    if token.isLayout then
      (∀ next ∈ rest.head?, next.isLayout = true ∨ next.isSignificant = true) ∧
        Spells (spot.after token) rest text
    else ∃ gap behind, text = gap ++ (token.text.toList ++ behind) ∧ Spacing gap ∧
      (∀ place ∈ spot.last, gap = SourceText.gap place token.start) ∧
      token.Spelled spot gap behind ∧ Spells (spot.after token) rest behind

section Spelling

variable {spot : Spot} {token : Token} {rest tokens : List Token} {text : List Char}

theorem spells_layout (isLayout : token.isLayout = true) : Spells spot (token :: rest) text ↔
    (∀ next ∈ rest.head?, next.isLayout = true ∨ next.isSignificant = true) ∧
      Spells { spot with last := none } rest text := by
  rw [Spells, if_pos isLayout, Spot.after, if_pos isLayout]

theorem spells_token (noLayout : token.isLayout = false) : Spells spot (token :: rest) text ↔
    ∃ gap behind, text = gap ++ (token.text.toList ++ behind) ∧ Spacing gap ∧
      (∀ place ∈ spot.last, gap = SourceText.gap place token.start) ∧
      token.Spelled spot gap behind ∧ Spells (spot.after token) rest behind := by
  rw [Spells, if_neg (by rw [noLayout]; simp)]

private theorem spells_blocks {blocks : List Token}
    (layout : ∀ block ∈ blocks, block.isLayout = true) (rowStart : spot.last = none)
    (next : ∀ token ∈ rest.head?, token.isSignificant = true) (spells : Spells spot rest text) :
    Spells spot (blocks ++ rest) text := by
  induction blocks with
  | nil => exact spells
  | cons block others ih =>
    rw [List.forall_mem_cons] at layout
    rw [List.cons_append, spells_layout layout.1]
    have same : { spot with last := none } = spot := by rw [← rowStart]
    rw [same]
    refine ⟨?_, ih layout.2⟩
    cases others with
    | nil => exact fun token member => .inr (next token member)
    | cons other others =>
      rintro token ⟨⟩
      exact .inl (layout.2 _ List.mem_cons_self)

private theorem spells_closing (layout : ∀ token ∈ tokens, token.isLayout = true) :
    Spells spot tokens [] := by
  induction tokens generalizing spot with
  | nil => rfl
  | cons token rest ih =>
    rw [List.forall_mem_cons] at layout
    rw [spells_layout layout.1]
    refine ⟨?_, ih layout.2⟩
    intro next member
    exact .inl (layout.2 next (List.mem_of_mem_head? member))

end Spelling

namespace Lexeme

variable {text rest : List Char} {kind : Kind}

private theorem head_of_first (nonempty : text ≠ [])
    (read : first (text ++ rest) = (kind, text.length)) (noBreak : kind ≠ .lineBreak) :
    text.head?.all isLineEnd = false := by
  obtain ⟨c, more, rfl⟩ := List.exists_cons_of_ne_nil nonempty
  rw [List.head?_cons, Option.all_some, ← Bool.not_eq_true]
  intro lineEnd
  obtain ⟨lineBreak, _, others, split, readBreak⟩ := exists_lineBreak lineEnd (more ++ rest)
  rw [List.cons_append, split, readBreak] at read
  exact noBreak (Prod.mk.inj read).1.symm

/-- Only a line break ends with the end of a row. -/
theorem getLast?_of_first (nonempty : text ≠ [])
    (read : first (text ++ rest) = (kind, text.length)) (hasToken : kind.hasToken = true)
    (noBreak : kind ≠ .lineBreak) : ∀ c ∈ text.getLast?, isLineEnd c = false := by
  intro c last
  rw [← Bool.not_eq_true]
  intro lineEnd
  have isEnd : c = '\r' ∨ c = '\n' := by simpa [isLineEnd] using lineEnd
  have whole : (text ++ rest).take text.length = text := List.take_left
  have member := List.mem_of_getLast? last
  cases kind with
  | lineBreak => exact noBreak rfl
  | space | continuation | openQuote => cases hasToken
  | stray =>
    have length : text.length = 1 := by
      have alone := rule_of_first read
      simp [rules] at alone
      exact alone.1
    have head := head_of_first nonempty read noBreak
    obtain ⟨d, rfl⟩ := List.length_eq_one_iff.1 length
    have same : d = c := Option.some.inj last
    simp [same, lineEnd] at head
  | comment =>
    have inRow := ((first_comment_iff nonempty).1 read).2.1
    simpa [lineEnd] using List.all_eq_true.1 inRow _ member
  | string =>
    rcases first_cases read with h | h | h | h | ⟨_, code⟩
    · cases h.1
    · cases h.1
    · cases h.1
    · cases h.1
    · obtain ⟨length, _⟩ := (first_string_iff code).1 read
      obtain ⟨quote, closing, isQuote⟩ := getLast?_string (by
        rw [length]
        simpa using nonempty)
      rw [length, whole, last] at closing
      cases closing
      rcases isEnd with rfl | rfl <;> cases isQuote
  | number =>
    have length : number (text ++ rest) = text.length := by
      simpa [rules] using rule_of_first read
    obtain ⟨front, rfl⟩ := List.getLast?_eq_some_iff.1 last
    -- A number ends in front of the end of a row.
    have short : (plain (front ++ c :: rest)).length ≤ front.length := by
      rw [plain, List.takeWhile_append]
      split
      · simp [isPlain, isEdge, isBlank, lineEnd]
      · exact (List.takeWhile_prefix isPlain).length_le
    have bound := number_le_length (plain (front ++ c :: rest))
    rw [number_plain] at bound
    simp only [List.append_assoc, List.cons_append, List.nil_append, List.length_append,
      List.length_cons, List.length_nil] at length
    omega
  | name =>
    have inner := Text.Identifier.isInner_of_isIdentifier (isIdentifier_of_first nonempty read)
    rcases isEnd with rfl | rfl
    · exact absurd (inner _ member) (by decide)
    · exact absurd (inner _ member) (by decide)
  | operator =>
    have ends : ∀ op ∈ operators, op.toList.getLast?.any isLineEnd = false := by decide
    obtain ⟨op, isOperator, rfl⟩ := mem_operators_of_first nonempty read
    have none := ends op isOperator
    rw [Option.mem_def.1 last, Option.any_some, lineEnd] at none
    cases none

theorem traits_of_kindOf {token : Token} {depth : Nat} {fresh : Bool}
    (hasToken : kind.hasToken = true) (sameKind : token.kind = Layout.kindOf depth fresh kind) :
    token.isLayout = false ∧ token.isSignificant = kind.isCode ∧
      token.isBreak = (kind == .lineBreak) := by
  obtain ⟨noLayout, significant, isBreak, _⟩ :=
    @Phase.traits ⟨depth, fresh, false⟩ ⟨kind, []⟩ token hasToken sameKind
  exact ⟨noLayout, significant, isBreak⟩

theorem kind_of_kindOf {depth : Nat} {fresh : Bool} {token : DeferredDefaults.Kind}
    (sameKind : token = Layout.kindOf depth fresh kind) :
    (token = .op → kind = .operator) ∧ (token = .name → kind = .name) ∧
      (token = .comment → kind = .comment) := by
  subst sameKind
  cases kind with
  | lineBreak =>
    simp only [Layout.kindOf]
    split <;> simp
  | _ => simp [Layout.kindOf, Layout.codeKind]

end Lexeme

theorem Spot.depth_after {token : Token} (noLayout : token.isLayout = false) (spot : Spot) :
    (spot.after token).depth = token.depthAfter spot.depth := by
  rw [Spot.after, noLayout]
  rfl

def Spot.behind (spot : Spot) (tokens : List Token) : Spot := tokens.foldl Spot.after spot

theorem Spot.depth_behind {tokens : List Token} (noLayout : ∀ token ∈ tokens, token.isLayout = false)
    (spot : Spot) : (spot.behind tokens).depth = tokens.foldl Token.depthAfter spot.depth := by
  induction tokens generalizing spot with
  | nil => rfl
  | cons token rest ih =>
    rw [List.forall_mem_cons] at noLayout
    rw [List.foldl_cons, ← spot.depth_after noLayout.1]
    exact ih noLayout.2 (spot.after token)

theorem Spells.drop {spot : Spot} {front back : List Token} {text : List Char}
    (spells : Spells spot (front ++ back) text) : ∃ rest, Spells (spot.behind front) back rest := by
  induction front generalizing spot text with
  | nil => exact ⟨text, spells⟩
  | cons token others ih =>
    rw [List.cons_append, Spells] at spells
    split at spells
    · exact ih spells.2
    · obtain ⟨_, _, _, _, _, _, spellsOthers⟩ := spells
      exact ih spellsOthers

/-- Neither a gap nor a token behind it ends a row, unless it is a line break. -/
theorem Token.Spelled.head {spot : Spot} {token : Token} {gap behind : List Char}
    (spelled : token.Spelled spot gap behind) (noBreak : token.isBreak = false)
    (spacing : Spacing gap) :
    (gap ++ (token.text.toList ++ behind)).head?.all Lexeme.isLineEnd = false := by
  cases spelled with
  | cutOff isNewline => simp [Token.isBreak, isNewline] at noBreak
  | lexeme kind hasToken _ sameKind nonempty read =>
    rw [(Lexeme.traits_of_kindOf hasToken sameKind).2.2, beq_eq_false_iff_ne] at noBreak
    have some : token.text.toList ≠ [] := fun none => nonempty (String.toList_eq_nil_iff.1 none)
    by_cases none : gap = []
    · rw [none, List.nil_append, List.head?_append_of_ne_nil _ some]
      exact Lexeme.head_of_first some read noBreak
    · obtain ⟨c, more, split, _, lineEnd⟩ := spacing.head none (token.text.toList ++ behind)
      rw [split, List.head?_cons, Option.all_some, lineEnd]

theorem Token.Spelled.mem_breaks {spot : Spot} {token : Token} {gap behind : List Char}
    (spelled : token.Spelled spot gap behind) (isBreak : token.isBreak = true)
    (nonempty : token.text ≠ "") : token.text.toList ∈ Lexeme.breaks := by
  cases spelled with
  | cutOff _ none => exact absurd none nonempty
  | lexeme kind hasToken _ sameKind _ read =>
    have some : token.text.toList ≠ [] := fun none => nonempty (String.toList_eq_nil_iff.1 none)
    rw [(Lexeme.traits_of_kindOf hasToken sameKind).2.2, beq_iff_eq] at isBreak
    rw [isBreak] at read
    exact ((Lexeme.first_lineBreak_iff some).1 read).1

theorem Token.Spelled.nonempty {spot : Spot} {token : Token} {gap behind : List Char}
    (spelled : token.Spelled spot gap behind) (noNewline : token.kind ≠ .newline) :
    token.text ≠ "" := by
  cases spelled with
  | cutOff isNewline => exact absurd isNewline noNewline
  | lexeme _ _ _ _ nonempty => exact nonempty

theorem Token.Spelled.ends {spot : Spot} {token : Token} {gap behind : List Char}
    (spelled : token.Spelled spot gap behind) (isComment : token.kind = .comment) :
    behind.head?.all Lexeme.isLineEnd = true := by
  cases spelled with
  | cutOff isNewline =>
    rw [isComment] at isNewline
    cases isNewline
  | lexeme kind _ _ sameKind nonempty read =>
    have some : token.text.toList ≠ [] := fun none => nonempty (String.toList_eq_nil_iff.1 none)
    rw [(Lexeme.kind_of_kindOf sameKind).2.2 isComment, Lexeme.first_comment_iff_ends some] at read
    exact read.2.2

theorem Spells.head {spot : Spot} {next : Token} {rest : List Token} {text : List Char}
    (spells : Spells spot (next :: rest) text) (noLayout : next.isLayout = false)
    (noBreak : next.isBreak = false) : text.head?.all Lexeme.isLineEnd = false := by
  obtain ⟨gap, behind, rfl, spacing, _, spelled, _⟩ := (spells_token noLayout).1 spells
  exact spelled.head noBreak spacing

theorem Token.traits_of_isSignificant {token : Token} (significant : token.isSignificant = true) :
    token.isLayout = false ∧ token.isBreak = false := by
  simp only [Token.isSignificant, Token.isTrivia, Bool.not_eq_true', Bool.or_eq_false_iff]
    at significant
  exact ⟨significant.2, by simp [Token.isBreak, significant.1.2, significant.1.1.2]⟩

theorem Spells.ends_of_isLayout {spot : Spot} {token : Token} {rest : List Token}
    {text : List Char} (spells : Spells spot (token :: rest) text)
    (isLayout : token.isLayout = true) (ends : text.head?.all Lexeme.isLineEnd = true) :
    text = [] := by
  induction rest generalizing token spot with
  | nil => exact ((spells_layout isLayout).1 spells).2
  | cons next rest ih =>
    obtain ⟨heads, spells⟩ := (spells_layout isLayout).1 spells
    rcases heads next rfl with layout | significant
    · exact ih spells layout
    · obtain ⟨noLayout, noBreak⟩ := Token.traits_of_isSignificant significant
      rw [spells.head noLayout noBreak] at ends
      cases ends

theorem Spells.isBreak_of_comment {spot : Spot} {comment next : Token} {rest : List Token}
    {text : List Char} (spells : Spells spot (comment :: next :: rest) text)
    (isComment : comment.kind = .comment) (noLayout : next.isLayout = false) :
    next.isBreak = true := by
  rw [spells_token (by simp [Token.isLayout, isComment])] at spells
  obtain ⟨_, behind, _, _, _, spelled, spells⟩ := spells
  by_contra noBreak
  have goesOn := spells.head noLayout (Bool.not_eq_true _ ▸ noBreak)
  rw [spelled.ends isComment] at goesOn
  cases goesOn

namespace Spells

variable {first : Token} {rest : List Token} {text : List Char} {last : Option Position}

private theorem ne_nl (spells : Spells ⟨0, false, last⟩ (first :: rest) text) :
    first.kind ≠ .nl := by
  intro isNl
  rw [spells_token (by simp [Token.isLayout, isNl])] at spells
  obtain ⟨_, _, _, _, _, spelled, _⟩ := spells
  cases spelled with
  | cutOff isNewline =>
    rw [isNl] at isNewline
    cases isNewline
  | lexeme kind hasToken _ sameKind =>
    have isBreak : first.isBreak = true := by simp [Token.isBreak, isNl]
    rw [(Lexeme.traits_of_kindOf hasToken sameKind).2.2, beq_iff_eq] at isBreak
    rw [isNl, isBreak] at sameKind
    cases sameKind

/-- Outside brackets code comes first on the rest of a line that has any. -/
theorem isSignificant_head {line later : List Token}
    (inLine : ∀ token ∈ line, token.isLayout = false ∧ token.kind ≠ .newline)
    (hasCode : ∃ token ∈ line, token.isTrivia = false)
    (spells : Spells ⟨0, false, last⟩ (line ++ later) text) :
    ∃ first more, line = first :: more ∧ first.isSignificant = true := by
  obtain ⟨code, member, noTrivia⟩ := hasCode
  cases line with
  | nil => cases member
  | cons first more =>
    refine ⟨first, more, rfl, ?_⟩
    rw [List.forall_mem_cons] at inLine
    by_cases isComment : first.kind = .comment
    · -- A comment would be the last token of the line.
      exfalso
      cases more with
      | nil =>
        rw [List.mem_singleton.1 member, Token.isTrivia, isComment] at noTrivia
        cases noTrivia
      | cons next others =>
        have inLineNext := inLine.2 next List.mem_cons_self
        have isBreak := spells.isBreak_of_comment isComment inLineNext.1
        rw [Token.isBreak, Bool.or_eq_true, beq_iff_eq, beq_iff_eq] at isBreak
        have spot : Spot.after ⟨0, false, last⟩ first = ⟨0, false, some first.stop⟩ := by
          simp [Spot.after, inLine.1.1, Token.depthAfter_of_kind, isComment, Token.isBreak]
        obtain ⟨_, _, _, _, _, _, spellsNext⟩ := (spells_token inLine.1.1).1 spells
        rw [spot] at spellsNext
        exact spellsNext.ne_nl (isBreak.resolve_left inLineNext.2)
    · have noNl := spells.ne_nl
      simp [Token.isSignificant, Token.isTrivia, isComment, noNl, inLine.1.1, inLine.1.2]

theorem refresh {depth : Nat} (significant : first.isSignificant = true)
    (spells : Spells ⟨depth, false, last⟩ (first :: rest) text) :
    Spells ⟨depth, true, none⟩ (first :: rest) text := by
  obtain ⟨noLayout, noBreak⟩ := Token.traits_of_isSignificant significant
  rw [spells_token noLayout] at spells ⊢
  obtain ⟨gap, behind, split, spacing, _, spelled, spellsRest⟩ := spells
  refine ⟨gap, behind, split, spacing, nofun, ?_, ?_⟩
  · cases spelled with
    | cutOff isNewline => simp [Token.isBreak, isNewline] at noBreak
    | lexeme kind hasToken noStray sameKind nonempty read =>
      refine .lexeme kind hasToken noStray ?_ nonempty read
      rw [(Lexeme.traits_of_kindOf hasToken sameKind).2.1] at significant
      cases kind <;> first | exact sameKind | cases significant
  · have spot : Spot.after ⟨depth, true, none⟩ first = Spot.after ⟨depth, false, last⟩ first := by
      simp [Spot.after, noLayout, significant]
    rwa [spot]

end Spells

def Phase.spot (phase : Phase) (last : Position) : Spot :=
  ⟨phase.depth, phase.fresh, if phase.rowStart then none else some last⟩

private theorem Phase.spot_of_rowStart {phase : Phase} (rowStart : phase.rowStart = true)
    (last last' : Position) : phase.spot last = phase.spot last' := by
  rw [Phase.spot, Phase.spot, rowStart]
  rfl

private theorem Phase.spot_after {phase : Phase} {lexeme : Lexeme} {token : Token} {last : Position}
    (hasToken : lexeme.kind.hasToken = true) (kind : token.kind = phase.kindOf lexeme.kind)
    (text : token.text = String.ofList lexeme.text) :
    (phase.spot last).after token = (phase.after lexeme).spot token.behind := by
  obtain ⟨noLayout, _, isBreak, fresh⟩ := Phase.traits hasToken kind
  have depth : (phase.after lexeme).depth = token.depthAfter phase.depth := by
    obtain ⟨lexemeKind, lexemeText⟩ := lexeme
    by_cases isCode : lexemeKind.isCode = true
    · rw [phase.kindOf_of_isCode isCode] at kind
      rw [Phase.after_of_isCode phase isCode lexemeText kind text]
      rfl
    · have noOp : token.kind ≠ .op := by
        intro op
        rw [op] at kind
        cases lexemeKind with
        | lineBreak =>
          simp only [Phase.kindOf, Layout.kindOf] at kind
          split at kind <;> cases kind
        | comment => cases kind
        | space | continuation | openQuote => cases hasToken
        | string | number | name | operator | stray => exact isCode rfl
      rw [Token.depthAfter_of_kind noOp]
      cases lexemeKind <;> first | rfl | exact absurd rfl isCode
  have rowStart : (phase.after lexeme).rowStart = token.isBreak := by
    rw [Bool.eq_iff_iff, Phase.rowStart_after, isBreak, beq_iff_eq]
  have place : (if token.isBreak = true then none else some token.stop) =
      if token.isBreak = true then none else some token.behind := by
    cases isBreak' : token.isBreak with
    | true => rfl
    | false =>
      rw [Token.behind, isBreak']
      rfl
  rw [Spot.after, noLayout, if_neg (by simp), Phase.spot, Phase.spot, rowStart, place, fresh, depth]

private theorem Lexeme.getLast?_of_finished {pad : List Lexeme} (isPad : Lexeme.Pad pad)
    (finished : Lexeme.Finished pad) : (Lexeme.textOf pad).getLast? ≠ some '\n' := by
  rcases List.eq_nil_or_concat pad with rfl | ⟨front, last, rfl⟩
  · simp
  · rw [List.concat_eq_append] at isPad finished ⊢
    rcases (isPad.isGap last (by simp)).shape with ⟨_, nonempty, spaces⟩ | ⟨kind, _⟩
    · rw [Lexeme.textOf_append, Lexeme.textOf_cons, Lexeme.textOf_nil, List.append_nil,
        List.getLast?_append_of_ne_nil _ nonempty]
      intro lineFeed
      have space := List.all_eq_true.1 spaces _ (List.mem_of_getLast? lineFeed)
      cases space
    · exact absurd kind (finished last (by simp))

/-- What has been written is spelled by its tokens. -/
theorem Written.spells {phase : Phase} {writer : SourceText} {tokens : List Token}
    {lexemes : List Lexeme} (written : Written phase writer tokens lexemes)
    (reads : Lexeme.Reads lexemes) (noStray : ∀ token ∈ tokens, token.kind ≠ .stray)
    (finished : Lexeme.Finished lexemes)
    (spaces : ∀ indent ∈ writer.indents, indent.toList.all Lexeme.isSpace = true)
    (quiet : phase.rowStart = false → writer.lineStart = false ∨ writer.indents = []) :
    Spells (phase.spot writer.last) tokens (Lexeme.textOf lexemes) := by
  -- One token with its gap, in front of what is spelled behind it.
  have step : ∀ {phase : Phase} {writer : SourceText} {lexeme : Lexeme} {token : Token}
      {rest : List Token} {lexemes : List Lexeme},
      lexeme.kind.hasToken = true → token.kind = phase.kindOf lexeme.kind →
      token.text = String.ofList lexeme.text →
      Lexeme.Reads (writer.pad token ++ lexeme :: lexemes) → token.kind ≠ .stray →
      (∀ indent ∈ writer.indents, indent.toList.all Lexeme.isSpace = true) →
      (phase.rowStart = false → writer.lineStart = false ∨ writer.indents = []) →
      (((phase.after lexeme).rowStart = false →
          (writer.after token).lineStart = false ∨ (writer.after token).indents = []) →
        Spells ((phase.after lexeme).spot (writer.after token).last) rest
          (Lexeme.textOf lexemes)) →
      Spells (phase.spot writer.last) (token :: rest)
        (Lexeme.textOf (writer.pad token ++ lexeme :: lexemes)) := by
    intro phase writer lexeme token rest lexemes hasToken kind text reads noStray spaces quiet others
    obtain ⟨noLayout, _, isBreak, _⟩ := Phase.traits hasToken kind
    obtain ⟨nonempty, read, _⟩ := reads.drop
    have sameText : token.text.toList = lexeme.text := by rw [text, String.toList_ofList]
    have next := others (by
      intro within
      apply SourceText.quiet_after
      rw [isBreak, beq_eq_false_iff_ne, ne_eq, ← Phase.rowStart_after phase, within]
      simp)
    rw [SourceText.last_after, ← Phase.spot_after hasToken kind text] at next
    rw [spells_token noLayout]
    refine ⟨_, _, by rw [Lexeme.textOf_append, Lexeme.textOf_cons, sameText],
      Lexeme.spacing_textOf (SourceText.isPad_pad spaces token), ?_,
      .lexeme lexeme.kind hasToken ?_ kind ?_ (by rw [sameText]; exact read), next⟩
    · intro place member
      cases rowStart : phase.rowStart with
      | true =>
        rw [Phase.spot, rowStart] at member
        cases member
      | false =>
        rw [Phase.spot, rowStart] at member
        cases member
        rw [SourceText.pad_of_quiet (.inr (quiet rowStart)), Lexeme.textOf_padBetween]
        rfl
    · intro stray
      rw [stray] at kind
      exact noStray kind
    · intro none
      rw [none] at sameText
      exact nonempty sameText.symm
  induction written with
  | @token phase writer lexeme token rest lexemes hasToken notFirst kind text spans ahead _ ih =>
    rw [List.forall_mem_cons] at noStray
    refine step hasToken kind text reads noStray.1 spaces quiet fun quietNext => ?_
    exact ih reads.drop.2.2 noStray.2 (Lexeme.finished_append_cons.1 finished).2
      (by rwa [SourceText.indents_after]) quietNext
  | @first phase writer blocks lexeme token rest lexemes isCode fresh rowStart dedents within
      narrower kind text spans ahead _ ih =>
    have entered := SourceText.foldl_enter_dedents (fun block member =>
      ⟨(dedents block member).1, (dedents block member).2.2⟩) writer
    have spaces' : ∀ indent ∈ (blocks.foldl SourceText.enter writer).indents,
        indent.toList.all Lexeme.isSpace = true := by
      intro indent member
      rw [entered] at member
      exact spaces indent (List.mem_of_mem_drop member)
    have hasToken : lexeme.kind.hasToken = true := by simp [Lexeme.Kind.hasToken, isCode]
    have significant := (Phase.traits hasToken kind).2.1
    rw [List.forall_mem_append, List.forall_mem_cons] at noStray
    have spells := step hasToken kind text reads noStray.2.1 spaces' (by simp [rowStart])
      fun quietNext => ih reads.drop.2.2 noStray.2.2 (Lexeme.finished_append_cons.1 finished).2
        (by rwa [SourceText.indents_after]) quietNext
    rw [Phase.spot_of_rowStart rowStart _ writer.last] at spells
    refine spells_blocks ?_ (by simp [Phase.spot, rowStart]) ?_ spells
    · intro block member
      simp [Token.isLayout, (dedents block member).1]
    · rintro token ⟨⟩
      rw [significant, isCode]
  | @opened phase writer block lexeme token rest lexemes isCode fresh rowStart indent isSpace deeper
      kind text spans ahead _ ih =>
    have spaces' : ∀ indent ∈ (writer.enter block).indents,
        indent.toList.all Lexeme.isSpace = true := by
      rw [SourceText.enter_indent indent, List.forall_mem_cons]
      exact ⟨isSpace, spaces⟩
    have hasToken : lexeme.kind.hasToken = true := by simp [Lexeme.Kind.hasToken, isCode]
    have significant := (Phase.traits hasToken kind).2.1
    rw [List.forall_mem_cons, List.forall_mem_cons] at noStray
    have spells := step hasToken kind text reads noStray.2.1 spaces' (by simp [rowStart])
      fun quietNext => ih reads.drop.2.2 noStray.2.2 (Lexeme.finished_append_cons.1 finished).2
        (by rwa [SourceText.indents_after]) quietNext
    rw [Phase.spot_of_rowStart rowStart _ writer.last] at spells
    refine @spells_blocks _ _ _ [block] ?_ (by simp [Phase.spot, rowStart]) ?_ spells
    · rw [List.forall_mem_singleton]
      simp [Token.isLayout, indent]
    · rintro token ⟨⟩
      rw [significant, isCode]
  | @ended phase writer blocks stop closed fresh dedents size isStop noText =>
    apply spells_closing
    rw [List.forall_mem_append, List.forall_mem_singleton]
    exact ⟨fun block member => by simp [Token.isLayout, (dedents block member).1],
      by simp [Token.isLayout, isStop]⟩
  | @cutOff phase writer token blocks stop closed fresh isNewline noText ahead dedents size isStop
      stopText =>
    have isBreak : token.isBreak = true := by simp [Token.isBreak, isNewline]
    have isPad := SourceText.isPad_pad spaces token
    rw [List.cons_append, spells_token (by simp [Token.isLayout, isNewline])]
    refine ⟨_, [], by rw [noText, String.toList_empty, List.append_nil, List.append_nil],
      Lexeme.spacing_textOf isPad, ?_,
      .cutOff isNewline noText rfl closed fresh (Lexeme.getLast?_of_finished isPad finished), ?_⟩
    · intro place member
      have isLast : writer.last = place := by
        unfold Phase.spot at member
        simp only at member
        split at member
        · cases member
        · exact Option.some.inj member
      rw [SourceText.pad_of_quiet (.inl isBreak), Lexeme.textOf_padBetween, isLast]
      rfl
    · apply spells_closing
      rw [List.forall_mem_append, List.forall_mem_singleton]
      exact ⟨fun block member => by simp [Token.isLayout, (dedents block member).1],
        by simp [Token.isLayout, isStop]⟩

end DeferredDefaults
