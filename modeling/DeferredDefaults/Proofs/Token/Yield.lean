import DeferredDefaults.Proofs.Token.Exactness
import DeferredDefaults.Proofs.Token.Identifier
import DeferredDefaults.Proofs.Token.Margins

/-!
What layout finds in a text, piece by piece from its end. A piece in front of a text adds its token
to what the text yields; only the phase in front of it and the open blocks matter, not its place.
Between two lines a text yields its lines at the level of a block: how many blocks are still open
from the lines before shows only when the next line begins.
-/

set_option autoImplicit false
set_option relaxedAutoImplicit false

namespace DeferredDefaults

/-- What a token says apart from its place. Comments and line breaks within a line say nothing, and
the text of a line end or an indentation does not matter. -/
def Kind.gist (kind : Kind) (text : String) : List (Kind × String) :=
  match kind with
  | .comment | .nl => []
  | .newline => [(.newline, "")]
  | .indent => [(.indent, "")]
  | kind => [(kind, text)]

def gist (tokens : List Token) : List (Kind × String) :=
  tokens.flatMap fun token => token.kind.gist token.text

@[simp] theorem gist_nil : gist [] = [] := rfl

@[simp] theorem gist_cons (token : Token) (rest : List Token) :
    gist (token :: rest) = token.kind.gist token.text ++ gist rest := List.flatMap_cons

@[simp] theorem gist_append (front back : List Token) :
    gist (front ++ back) = gist front ++ gist back := List.flatMap_append

theorem gist_of_isTrivia {tokens : List Token} (trivia : ∀ token ∈ tokens, token.isTrivia = true) :
    gist tokens = [] := by
  refine List.flatMap_eq_nil_iff.2 ?_
  intro token member
  have isTrivia := trivia token member
  rw [Token.isTrivia, Bool.or_eq_true, beq_iff_eq, beq_iff_eq] at isTrivia
  rcases isTrivia with kind | kind <;> rw [kind] <;> rfl

private theorem gist_dedents (count : Nat) (place : Position) :
    gist (List.replicate count (Layout.dedentAt place)) = List.replicate count (.dedent, "") := by
  induction count with
  | zero => rfl
  | succ count ih =>
    rw [List.replicate_succ, gist_cons, ih]
    rfl

namespace Lexeme

inductive Spacing : List Char → Prop
  | nil : Spacing []
  | space {c : Char} {rest : List Char} : isSpace c = true → Spacing rest → Spacing (c :: rest)
  | continuation {rest : List Char} : Spacing rest → Spacing ('\\' :: '\n' :: rest)

namespace Spacing

theorem append {front back : List Char} (first : Spacing front) (second : Spacing back) :
    Spacing (front ++ back) := by
  induction first with
  | nil => exact second
  | space isSpace _ ih => exact .space isSpace ih
  | continuation _ ih => exact .continuation ih

theorem of_isSpace {text : List Char} (spaces : text.all isSpace = true) : Spacing text := by
  induction text with
  | nil => exact .nil
  | cons c rest ih =>
    rw [List.all_cons, Bool.and_eq_true] at spaces
    exact .space spaces.1 (ih spaces.2)

theorem replicate (count : Nat) : Spacing (List.replicate count ' ') :=
  of_isSpace (List.all_eq_true.2 fun c member => by rw [List.eq_of_mem_replicate member]; rfl)

theorem continuations (rows : Nat) : Spacing (List.replicate rows ['\\', '\n']).flatten := by
  induction rows with
  | zero => exact .nil
  | succ rows ih => exact .continuation ih

/-- Space and continuations fall into lexemes of a gap. -/
theorem pad {text : List Char} (spacing : Spacing text) : ∃ pad, Pad pad ∧ textOf pad = text := by
  induction spacing with
  | nil => exact ⟨[], trivial, rfl⟩
  | @space c rest isSpace _ ih =>
    obtain ⟨pad, isPad, rfl⟩ := ih
    have alone : IsGap ⟨.space, [c]⟩ := ⟨.inl ⟨rfl, by simp, by simp [isSpace]⟩⟩
    cases pad with
    | nil => exact ⟨[⟨.space, [c]⟩], ⟨alone, by simp, nofun, trivial⟩, rfl⟩
    | cons lexeme others =>
      obtain ⟨gap, apart, lineFeed, isPadOthers⟩ := isPad
      by_cases kind : lexeme.kind = .space
      · -- The space joins the run behind it.
        refine ⟨⟨.space, c :: lexeme.text⟩ :: others, ⟨⟨.inl ⟨rfl, by simp, ?_⟩⟩, ?_, nofun,
          isPadOthers⟩, rfl⟩
        · rcases gap.shape with ⟨_, _, spaces⟩ | ⟨continuation, _⟩
          · rw [List.all_cons, isSpace, spaces]
            rfl
          · rw [kind] at continuation
            cases continuation
        · exact fun _ => apart kind
      · exact ⟨⟨.space, [c]⟩ :: lexeme :: others,
          ⟨alone, fun _ => by simpa using kind, nofun, gap, apart, lineFeed, isPadOthers⟩, rfl⟩
  | @continuation rest _ ih =>
    obtain ⟨pad, isPad, rfl⟩ := ih
    exact ⟨⟨.continuation, ['\\', '\n']⟩ :: pad,
      ⟨⟨.inr ⟨rfl, ['\n'], by simp [breaks], rfl⟩⟩, nofun, fun _ => rfl, isPad⟩, rfl⟩

end Spacing

theorem spacing_textOf {pad : List Lexeme} (isPad : Pad pad) : Spacing (textOf pad) := by
  induction pad with
  | nil => exact .nil
  | cons lexeme rest ih =>
    obtain ⟨gap, _, lineFeed, isPadRest⟩ := isPad
    rw [textOf_cons]
    refine Spacing.append ?_ (ih isPadRest)
    rcases gap.shape with ⟨_, _, spaces⟩ | ⟨kind, _⟩
    · exact .of_isSpace spaces
    · rw [lineFeed kind]
      exact .continuation .nil

theorem Spacing.head {gap : List Char} (spacing : Spacing gap) (nonempty : gap ≠ [])
    (rest : List Char) :
    ∃ c more, gap ++ rest = c :: more ∧ isBlank c = true ∧ isLineEnd c = false := by
  cases spacing with
  | nil => exact absurd rfl nonempty
  | @space c others isSpace _ =>
    refine ⟨c, others ++ rest, rfl, by simp [isBlank, isSpace], ?_⟩
    simp only [Lexeme.isSpace, Bool.or_eq_true, beq_iff_eq] at isSpace
    rcases isSpace with (rfl | rfl) | rfl <;> rfl
  | @continuation others _ => exact ⟨'\\', '\n' :: (others ++ rest), rfl, rfl, rfl⟩

theorem split_of_first {text rest : List Char} {kind : Kind} (nonempty : text ≠ [])
    (read : first (text ++ rest) = (kind, text.length)) :
    split (text ++ rest) = ⟨kind, text⟩ :: split rest := by
  have whole : textOf (split rest) = rest := flatMap_text_split rest
  have reads : Reads (⟨kind, text⟩ :: split rest) :=
    ⟨nonempty, by rw [whole]; exact read, reads_split rest⟩
  have split := split_textOf reads
  rwa [textOf_cons, whole] at split

private theorem split_of_spacing {gap rest : List Char} (spacing : Spacing gap)
    (noSpace : rest.head?.any isSpace = false) : ∃ pad : List Lexeme,
      (∀ lexeme ∈ pad, lexeme.IsGap) ∧ textOf pad = gap ∧ split (gap ++ rest) = pad ++ split rest := by
  have whole : textOf (split rest) = rest := flatMap_text_split rest
  obtain ⟨pad, isPad, rfl⟩ := spacing.pad
  have reads : Reads (pad ++ split rest) :=
    reads_pad isPad (reads_split rest) (by rwa [whole])
  have split := split_textOf reads
  rw [textOf_append, whole] at split
  exact ⟨pad, isPad.isGap, rfl, split⟩

private theorem noSpace_of_first {text rest : List Char} {kind : Kind} (nonempty : text ≠ [])
    (read : first (text ++ rest) = (kind, text.length)) (hasToken : kind.hasToken = true) :
    (text ++ rest).head?.any isSpace = false := by
  have whole : textOf (split rest) = rest := flatMap_text_split rest
  have reads : Reads (⟨kind, text⟩ :: split rest) :=
    ⟨nonempty, by rw [whole]; exact read, reads_split rest⟩
  obtain ⟨space, continuation⟩ := @Layout.ne_of_hasToken ⟨kind, text⟩ hasToken
  have head := (head_of_reads reads space continuation).1
  rwa [textOf_cons, whole] at head

end Lexeme

open Lexeme (Spacing)

def Layout.Finds (layout : Layout) (text : List Char) (found : List (Kind × String)) : Prop :=
  ∃ tokens, layout.run (Lexeme.split text) = .ok tokens ∧ gist tokens = found

/-- Layout in the given phase, with the given blocks open, finds this in the text. -/
def Yields (phase : Phase) (blocks : List Nat) (text : List Char)
    (found : List (Kind × String)) : Prop :=
  ∀ layout : Layout, layout.InPhase phase → layout.blocks = blocks → layout.Finds text found

def Phase.inside (depth : Nat) : Phase := ⟨depth, false, false⟩

theorem Phase.kindOf_of_isCode (phase : Phase) {kind : Lexeme.Kind} (isCode : kind.isCode = true) :
    phase.kindOf kind = Layout.codeKind kind := by
  cases kind <;> first | rfl | cases isCode

theorem Phase.after_of_isCode (phase : Phase) {kind : Lexeme.Kind} (isCode : kind.isCode = true)
    (text : List Char) {token : Token} (sameKind : token.kind = Layout.codeKind kind)
    (sameText : token.text = String.ofList text) :
    phase.after ⟨kind, text⟩ = .inside (token.depthAfter phase.depth) := by
  have depth : Token.depthAfter phase.depth ⟨Layout.codeKind kind, String.ofList text, .origin,
      .origin⟩ = token.depthAfter phase.depth :=
    Layout.InPhase.depthAfter_congr sameKind.symm sameText.symm _
  cases kind <;> first | (simp only [Phase.after, depth, Phase.inside]; done) | cases isCode

section Pieces

variable {phase : Phase} {blocks : List Nat} {gap text rest : List Char} {kind : Lexeme.Kind}
  {found : List (Kind × String)}

theorem Yields.rowStart {depth : Nat} (yields : Yields (.inside depth) blocks rest found) :
    Yields ⟨depth, false, true⟩ blocks rest found := by
  intro layout inPhase isBlocks
  exact yields layout ⟨inPhase.depth, inPhase.fresh, inPhase.line, nofun, nofun⟩ isBlocks

private theorem Layout.InPhase.finds_token {layout : Layout} (inPhase : layout.InPhase phase)
    (spacing : Spacing gap) (nonempty : text ≠ []) (hasToken : kind.hasToken = true)
    (notFirst : (phase.fresh && kind.isCode) = false)
    (read : Lexeme.first (text ++ rest) = (kind, text.length))
    (finds : ∀ pad, ((layout.cross pad).behind ⟨kind, text⟩).Finds rest found) :
    layout.Finds (gap ++ (text ++ rest))
      ((phase.kindOf kind).gist (String.ofList text) ++ found) := by
  obtain ⟨pad, isGap, _, split⟩ :=
    Lexeme.split_of_spacing spacing (Lexeme.noSpace_of_first nonempty read hasToken)
  have step : (layout.cross pad).step ⟨kind, text⟩ =
      .ok ([(layout.cross pad).tokenFor ⟨kind, text⟩], (layout.cross pad).behind ⟨kind, text⟩) := by
    apply Layout.step_of_not_first hasToken
    rw [Layout.atLineStart_cross, inPhase.fresh]
    exact notFirst
  obtain ⟨others, ran, rfl⟩ := finds pad
  refine ⟨(layout.cross pad).tokenFor ⟨kind, text⟩ :: others, ?_, ?_⟩
  · rw [split, Layout.run_gap isGap, Lexeme.split_of_first nonempty read, Layout.run, step]
    simp only [bind, Except.bind, ran]
    rfl
  · rw [gist_cons, inPhase.kind_tokenFor, Layout.text_tokenFor]

private theorem Layout.InPhase.behind_cross {layout : Layout} (inPhase : layout.InPhase phase)
    (pad : List Lexeme) (lexeme : Lexeme) :
    ((layout.cross pad).behind lexeme).InPhase (phase.after lexeme) := by
  have behind := inPhase.behind pad (layout.cross pad).blocks lexeme
  exact behind

theorem Yields.token (spacing : Spacing gap) (nonempty : text ≠ [])
    (hasToken : kind.hasToken = true) (notFirst : (phase.fresh && kind.isCode) = false)
    (read : Lexeme.first (text ++ rest) = (kind, text.length))
    (yields : Yields (phase.after ⟨kind, text⟩) blocks rest found) :
    Yields phase blocks (gap ++ (text ++ rest))
      ((phase.kindOf kind).gist (String.ofList text) ++ found) := by
  intro layout inPhase isBlocks
  refine inPhase.finds_token spacing nonempty hasToken notFirst read fun pad => ?_
  exact yields _ (inPhase.behind_cross pad ⟨kind, text⟩) (by
    rw [Layout.blocks_behind, Layout.blocks_cross, isBlocks])

theorem Yields.code {depth : Nat} {token : Token} (spacing : Spacing gap)
    (nonempty : token.text ≠ "") (isCode : kind.isCode = true)
    (sameKind : token.kind = Layout.codeKind kind)
    (read : Lexeme.first (token.text.toList ++ rest) = (kind, token.text.toList.length))
    (yields : Yields (.inside (token.depthAfter depth)) blocks rest found) :
    Yields (.inside depth) blocks (gap ++ (token.text.toList ++ rest))
      (token.kind.gist token.text ++ found) := by
  have some : token.text.toList ≠ [] := fun none => nonempty (String.toList_eq_nil_iff.1 none)
  have hasToken : kind.hasToken = true := by simp [Lexeme.Kind.hasToken, isCode]
  have after := Phase.after_of_isCode (.inside depth) isCode token.text.toList sameKind
    String.ofList_toList.symm
  have yields' := Yields.token spacing some hasToken rfl read (after ▸ yields)
  rwa [Phase.kindOf_of_isCode _ isCode, String.ofList_toList, ← sameKind] at yields'

theorem Yields.ended (spacing : Spacing gap) (closed : phase.depth = 0) :
    Yields phase blocks gap ((if phase.fresh then [] else [(Kind.newline, "")]) ++
      (List.replicate blocks.length (Kind.dedent, "") ++ [(Kind.endMarker, "")])) := by
  intro layout inPhase isBlocks
  obtain ⟨pad, isGap, _, split⟩ := @Lexeme.split_of_spacing gap [] spacing rfl
  obtain ⟨place, finished⟩ := @Layout.finish_of_depth (layout.cross pad) (by
    rw [Layout.depth_cross, inPhase.depth, closed])
  rw [List.append_nil, Lexeme.split_nil] at split
  refine ⟨_, (by rw [split, Layout.run_gap isGap, Layout.run, finished]), ?_⟩
  · rw [Layout.lineHasCode_cross, Layout.blocks_cross, inPhase.line, isBlocks]
    cases phase.fresh with
    | true => simp [gist_dedents, Kind.gist]
    | false => simp [gist_dedents, Kind.gist]

private theorem Phase.kindOf_lineBreak_after (phase : Phase) (text : List Char) :
    (phase.after ⟨.lineBreak, text⟩).kindOf .lineBreak = .nl := by
  by_cases within : 0 < phase.depth ∨ phase.fresh = true
  · simp [Phase.after, Phase.kindOf, Layout.kindOf, within]
  · have fresh : phase.fresh = false := by
      simpa using fun isFresh => within (.inr isFresh)
    have depth : ¬ 0 < phase.depth := fun deep => within (.inl deep)
    simp [Phase.after, Phase.kindOf, Layout.kindOf, fresh, depth]

private theorem Layout.InPhase.finds_behind {layout : Layout} (inPhase : layout.InPhase phase)
    (nonempty : text ≠ []) (read : Lexeme.first (text ++ rest) = (.lineBreak, text.length))
    (noEnd : phase.kindOf .lineBreak = .nl) (finds : layout.Finds (text ++ rest) found) :
    (layout.behind ⟨.lineBreak, text⟩).Finds rest found := by
  obtain ⟨tokens, ran, rfl⟩ := finds
  rw [Lexeme.split_of_first nonempty read] at ran
  obtain ⟨_, ⟨_, others, rfl, ranOthers⟩ | ⟨_, isCode, _⟩⟩ :=
    Layout.run_cons_eq_ok (by simp) (by simp) ran
  · refine ⟨others, ranOthers, ?_⟩
    have kind := inPhase.kind_tokenFor [] ⟨.lineBreak, text⟩
    rw [Layout.cross_nil, noEnd] at kind
    rw [gist_cons, kind]
    rfl
  · cases isCode

private theorem Layout.behind_lineFeed (layout : Layout) :
    { layout.behind ⟨.lineBreak, ['\r']⟩ with cursor := ⟨layout.cursor.row, 0⟩ }.behind
      ⟨.lineBreak, ['\n']⟩ = layout.behind ⟨.lineBreak, ['\r', '\n']⟩ := by
  by_cases within : 0 < layout.depth ∨ layout.lineHasCode = false
  · simp [Layout.behind, Layout.lineBreak, within, Position.nextRow]
    intro start noStart
    rw [start] at noStart
    cases noStart
  · simp [Layout.behind, Layout.lineBreak, within, Position.nextRow]

/-- A line break, whatever follows it: a carriage return takes a line feed along, which then ends no
row of its own. -/
theorem Yields.lineBreak (spacing : Spacing gap) (member : text ∈ Lexeme.breaks)
    (yields : Yields (phase.after ⟨.lineBreak, text⟩) blocks rest found) :
    Yields phase blocks (gap ++ (text ++ rest))
      ((phase.kindOf .lineBreak).gist (String.ofList text) ++ found) := by
  have nonempty : ∀ lineEnd ∈ Lexeme.breaks, lineEnd ≠ [] := by decide
  have notFirst : (phase.fresh && Lexeme.Kind.lineBreak.isCode) = false := Bool.and_false _
  by_cases joins : text = ['\r'] ∧ rest.head? = some '\n'
  · obtain ⟨rfl, head⟩ := joins
    obtain ⟨others, rfl⟩ := List.head?_eq_some_iff.1 head
    have read : Lexeme.first (['\r', '\n'] ++ others) = (.lineBreak, 2) :=
      (Lexeme.first_lineBreak_iff (by simp)).2 ⟨by simp [Lexeme.breaks], by simp⟩
    have sameGist : (phase.kindOf .lineBreak).gist (String.ofList ['\r']) =
        (phase.kindOf .lineBreak).gist (String.ofList ['\r', '\n']) := by
      simp only [Phase.kindOf, Layout.kindOf]
      split <;> rfl
    rw [sameGist]
    intro layout inPhase isBlocks
    refine inPhase.finds_token spacing (by simp) rfl notFirst read fun pad => ?_
    -- From the row of the carriage return the line feed alone leads where both lead together.
    have apart := inPhase.behind_cross pad ⟨.lineBreak, ['\r']⟩
    have before : { (layout.cross pad).behind ⟨.lineBreak, ['\r']⟩ with
        cursor := ⟨(layout.cross pad).cursor.row, 0⟩ }.InPhase
          (phase.after ⟨.lineBreak, ['\r']⟩) :=
      ⟨apart.depth, apart.fresh, apart.line, fun _ => rfl, apart.margin⟩
    have finds := yields _ before (by rw [← isBlocks, ← @Layout.blocks_cross pad layout]; rfl)
    have feeds : Lexeme.first (['\n'] ++ others) = (.lineBreak, 1) :=
      (Lexeme.first_lineBreak_iff (by simp)).2 ⟨by simp [Lexeme.breaks], by simp⟩
    rw [← Layout.behind_lineFeed]
    exact before.finds_behind (by simp) feeds (Phase.kindOf_lineBreak_after phase _) finds
  · have read : Lexeme.first (text ++ rest) = (.lineBreak, text.length) :=
      (Lexeme.first_lineBreak_iff (nonempty text member)).2
        ⟨member, fun alone feed => joins ⟨alone, feed⟩⟩
    exact Yields.token spacing (nonempty text member) rfl notFirst read yields

private theorem Layout.Finds.unique {layout : Layout} {other : List (Kind × String)}
    (finds : layout.Finds text found) (again : layout.Finds text other) : found = other := by
  obtain ⟨tokens, ran, rfl⟩ := finds
  obtain ⟨tokens', ran', rfl⟩ := again
  rw [ran] at ran'
  cases ran'
  rfl

def Layout.rowStart (layout : Layout) : Layout :=
  { layout with
    cursor := ⟨layout.cursor.row, 0⟩
    atLineStart := true
    lineHasCode := false
    margin := [] }

private theorem Layout.inPhase_rowStart {layout : Layout} (closed : layout.depth = 0) :
    layout.rowStart.InPhase {} := ⟨closed, rfl, rfl, fun _ => rfl, fun _ _ => rfl⟩

private theorem Layout.behind_rowStart {layout : Layout} (closed : layout.depth = 0)
    (line : layout.lineHasCode = !layout.atLineStart) (text : List Char) :
    layout.rowStart.behind ⟨.lineBreak, text⟩ = layout.behind ⟨.lineBreak, text⟩ := by
  cases start : layout.atLineStart with
  | true =>
    rw [start] at line
    simp [Layout.behind, Layout.lineBreak, Layout.rowStart, closed, line, start, Position.nextRow]
  | false =>
    rw [start] at line
    simp [Layout.behind, Layout.lineBreak, Layout.rowStart, closed, line, start, Position.nextRow]

theorem Lexeme.exists_lineBreak {c : Char} (lineEnd : Lexeme.isLineEnd c = true)
    (rest : List Char) : ∃ text ∈ Lexeme.breaks, ∃ others, c :: rest = text ++ others ∧
      Lexeme.first (text ++ others) = (.lineBreak, text.length) := by
  rw [Lexeme.isLineEnd, Bool.or_eq_true, beq_iff_eq, beq_iff_eq] at lineEnd
  rcases lineEnd with rfl | rfl
  · by_cases feed : rest.head? = some '\n'
    · obtain ⟨others, rfl⟩ := List.head?_eq_some_iff.1 feed
      exact ⟨['\r', '\n'], by simp [Lexeme.breaks], others, rfl,
        (Lexeme.first_lineBreak_iff (by simp)).2 ⟨by simp [Lexeme.breaks], by simp⟩⟩
    · exact ⟨['\r'], by simp [Lexeme.breaks], rest, rfl,
        (Lexeme.first_lineBreak_iff (by simp)).2 ⟨by simp [Lexeme.breaks], fun _ => feed⟩⟩
  · exact ⟨['\n'], by simp [Lexeme.breaks], rest, rfl,
      (Lexeme.first_lineBreak_iff (by simp)).2 ⟨by simp [Lexeme.breaks], by simp⟩⟩

/-- In front of the end of a row it does not matter whether the row holds only a comment, or code
that no line break has ended. -/
theorem Yields.rowEnd {fresh : Bool} (ends : rest.head?.all Lexeme.isLineEnd = true)
    (yields : Yields {} blocks rest found) (spacing : Spacing gap) :
    Yields ⟨0, fresh, false⟩ blocks (gap ++ rest)
      ((if fresh then [] else [(Kind.newline, "")]) ++ found) := by
  intro layout inPhase isBlocks
  cases rest with
  | nil =>
    have finds := yields layout.rowStart (Layout.inPhase_rowStart inPhase.depth) isBlocks
    have ending := @Yields.ended {} blocks [] .nil rfl _
      (Layout.inPhase_rowStart inPhase.depth) isBlocks
    rw [finds.unique ending, List.append_nil]
    exact Yields.ended spacing rfl layout inPhase isBlocks
  | cons c others =>
    obtain ⟨text, member, behind, split, read⟩ := Lexeme.exists_lineBreak ends others
    have nonempty : ∀ lineEnd ∈ Lexeme.breaks, lineEnd ≠ [] := by decide
    have some := nonempty text member
    rw [split] at yields ⊢
    have kind : (Phase.kindOf ⟨0, fresh, false⟩ .lineBreak).gist (String.ofList text) =
        if fresh then [] else [(.newline, "")] := by
      cases fresh <;> rfl
    rw [← kind]
    refine inPhase.finds_token spacing some rfl (Bool.and_false _) read fun pad => ?_
    have closed : (layout.cross pad).depth = 0 := by rw [Layout.depth_cross, inPhase.depth]
    rw [← Layout.behind_rowStart closed (by
      rw [Layout.lineHasCode_cross, Layout.atLineStart_cross, inPhase.line, inPhase.fresh])]
    have start := Layout.inPhase_rowStart closed
    exact start.finds_behind some read rfl (yields _ start (by
      rw [← isBlocks, ← @Layout.blocks_cross pad layout]; rfl))

end Pieces

/-- What settling the open blocks `actual` says when a line begins at the level of `blocks`. -/
inductive Settles : (begins : Bool) → (blocks actual : List Nat) → List (Kind × String) → Prop
  /-- The line closes the blocks within its own. -/
  | closes {begins : Bool} {blocks inner : List Nat} :
      (∀ width ∈ inner, blocks.headD 0 < width) →
      Settles begins blocks (inner ++ blocks) (List.replicate inner.length (.dedent, ""))
  /-- The line begins its block. -/
  | opens {width : Nat} {outer : List Nat} : outer.headD 0 < width →
      Settles true (width :: outer) outer [(.indent, "")]

/-- The text is made of lines, of which the next is at the level of `blocks` or further out. If it
`begins`, there is one at this level, and it may be the first of its block. -/
def Lines (begins : Bool) (blocks : List Nat) (text : List Char)
    (found : List (Kind × String)) : Prop :=
  ∀ actual entered, Settles begins blocks actual entered → Yields {} actual text (entered ++ found)

namespace Lines

variable {begins : Bool} {blocks : List Nat} {gap text rest : List Char} {kind : Lexeme.Kind}
  {found : List (Kind × String)}

theorem yields (lines : Lines begins blocks rest found) : Yields {} blocks rest found :=
  lines blocks [] (@Settles.closes begins blocks [] nofun)

theorem opens {width : Nat} (lines : Lines true (width :: blocks) rest found)
    (deeper : blocks.headD 0 < width) : Yields {} blocks rest ((.indent, "") :: found) :=
  lines blocks [(.indent, "")] (.opens deeper)

theorem closes {width : Nat} (lines : Lines begins blocks rest found)
    (deeper : blocks.headD 0 < width) :
    Lines false (width :: blocks) rest ((.dedent, "") :: found) := by
  intro actual entered settles
  cases settles with
  | @closes _ _ inner narrower =>
    have narrower' : ∀ other ∈ inner ++ [width], blocks.headD 0 < other := by
      intro other member
      rcases List.mem_append.1 member with member | member
      · exact Nat.lt_trans deeper (narrower other member)
      · rw [List.mem_singleton.1 member]
        exact deeper
    have settles : Settles begins blocks (inner ++ [width] ++ blocks) _ := .closes narrower'
    have yields := lines _ _ settles
    rw [List.length_append, ← List.replicate_append_replicate, List.append_assoc,
      List.append_assoc] at yields
    exact yields

theorem ended : Lines false [] [] [(.endMarker, "")] := by
  intro actual entered settles
  cases settles with
  | @closes _ _ inner narrower =>
    rw [List.append_nil]
    exact @Yields.ended {} inner [] .nil rfl

theorem blank (spacing : Spacing gap) (member : text ∈ Lexeme.breaks)
    (lines : Lines begins blocks rest found) : Lines begins blocks (gap ++ (text ++ rest)) found :=
  fun actual entered settles => Yields.lineBreak spacing member (lines actual entered settles)

theorem comment (spacing : Spacing gap) (nonempty : text ≠ [])
    (read : Lexeme.first (text ++ rest) = (.comment, text.length))
    (ends : rest.head?.all Lexeme.isLineEnd = true) (lines : Lines begins blocks rest found) :
    Lines begins blocks (gap ++ (text ++ rest)) found := by
  intro actual entered settles
  have behind := @Yields.rowEnd _ [] _ _ true ends (lines actual entered settles) .nil
  exact Yields.token spacing nonempty rfl rfl read behind

private theorem settle {layout : Layout} {entered : List (Kind × String)}
    (settles : Settles begins blocks layout.blocks entered)
    (level : Layout.width layout.margin = blocks.headD 0) : ∃ tokens,
      layout.settle = .ok (tokens, { layout with blocks := blocks }) ∧ gist tokens = entered := by
  generalize isActual : layout.blocks = actual at settles
  cases settles with
  | @closes _ _ inner narrower =>
    refine ⟨inner.map fun _ => Layout.dedentAt layout.cursor, ?_, ?_⟩
    · have notDeeper : ¬ (inner ++ blocks).headD 0 < Layout.width layout.margin := by
        cases inner with
        | nil => simp [level]
        | cons width others =>
          have deeper := narrower width List.mem_cons_self
          rw [level]
          simp only [List.cons_append, List.headD_cons]
          omega
      have wider : ∀ width ∈ inner, decide (Layout.width layout.margin < width) = true := by
        intro width member
        rw [level, decide_eq_true_eq]
        exact narrower width member
      have closed : blocks.takeWhile (Layout.width layout.margin < ·) = [] ∧
          blocks.dropWhile (Layout.width layout.margin < ·) = blocks := by
        cases blocks with
        | nil => exact ⟨rfl, rfl⟩
        | cons width others => simp [level]
      rw [Layout.settle, Layout.top, isActual]
      simp only
      rw [if_neg notDeeper, List.takeWhile_append_of_pos wider, List.dropWhile_append_of_pos wider,
        closed.1, closed.2, if_pos level.symm, List.append_nil]
    · rw [List.map_const']
      exact gist_dedents _ _
  | opens deeper =>
    rw [List.headD_cons] at level
    refine ⟨[layout.opening], ?_, rfl⟩
    rw [Layout.settle_of_deeper (by rwa [Layout.top, isActual, level]), level, isActual]

/-- The first token of a line at the indentation of its block. -/
theorem first {token : Token} (spaces : gap.all Lexeme.isSpace = true)
    (level : Layout.width gap = blocks.headD 0)
    (nonempty : token.text ≠ "") (isCode : kind.isCode = true)
    (sameKind : token.kind = Layout.codeKind kind)
    (read : Lexeme.first (token.text.toList ++ rest) = (kind, token.text.toList.length))
    (yields : Yields (.inside (token.depthAfter 0)) blocks rest found) :
    Lines true blocks (gap ++ (token.text.toList ++ rest))
      (token.kind.gist token.text ++ found) := by
  intro actual entered settles layout inPhase isBlocks
  have some : token.text.toList ≠ [] := fun none => nonempty (String.toList_eq_nil_iff.1 none)
  have hasToken : kind.hasToken = true := by simp [Lexeme.Kind.hasToken, isCode]
  have split := Lexeme.split_of_first some read
  -- The indentation is one run of space.
  have splitGap : Lexeme.split (gap ++ (token.text.toList ++ rest)) =
      Lexeme.spaceOf gap ++ ⟨kind, token.text.toList⟩ :: Lexeme.split rest := by
    have whole : Lexeme.textOf (Lexeme.split (token.text.toList ++ rest)) =
        token.text.toList ++ rest := Lexeme.flatMap_text_split _
    have reads := Lexeme.reads_pad (Lexeme.isPad_spaceOf spaces)
      (Lexeme.reads_split (token.text.toList ++ rest))
      (by rw [whole]; exact Lexeme.noSpace_of_first some read hasToken)
    have splitAll := Lexeme.split_textOf reads
    rwa [Lexeme.textOf_append, Lexeme.textOf_spaceOf, whole, split] at splitAll
  have margin : (layout.cross (Lexeme.spaceOf gap)).margin = gap := by
    rw [Layout.cross_spaceOf]
    simp only [inPhase.fresh, inPhase.col rfl, inPhase.margin rfl rfl]
    cases gap <;> rfl
  obtain ⟨tokens, settled, rfl⟩ := @settle _ _ (layout.cross (Lexeme.spaceOf gap)) _
    (by rwa [Layout.blocks_cross, isBlocks]) (by rw [margin, level])
  have step := @Layout.step_of_first (layout.cross (Lexeme.spaceOf gap))
    ⟨kind, token.text.toList⟩ isCode (by rw [Layout.atLineStart_cross, inPhase.fresh])
  rw [settled] at step
  have behind := inPhase.behind (Lexeme.spaceOf gap) blocks ⟨kind, token.text.toList⟩
  rw [Phase.after_of_isCode _ isCode _ sameKind String.ofList_toList.symm] at behind
  obtain ⟨others, ran, rfl⟩ := yields _ behind (Layout.blocks_behind _ _)
  have isGap := (Lexeme.isPad_spaceOf spaces).isGap
  refine ⟨_, by
    rw [splitGap, Layout.run_gap isGap, Layout.run, step]
    simp only [bind, Except.bind, ran]
    rfl, ?_⟩
  rw [Layout.tokenFor_blocks]
  have kindFor := inPhase.kind_tokenFor (Lexeme.spaceOf gap) ⟨kind, token.text.toList⟩
  rw [Phase.kindOf_of_isCode _ isCode, ← sameKind] at kindFor
  simp only [gist_append, gist_cons, gist_nil, kindFor, Layout.text_tokenFor, String.ofList_toList,
    List.append_nil, List.append_assoc]

end Lines

end DeferredDefaults
