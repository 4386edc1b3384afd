import DeferredDefaults.Proofs.Coding.Preface
import DeferredDefaults.Proofs.Token.Order

/-!
The tokens of a preface. A text has a preface, and layout turns its lines into trivia on one row
after another, with the first token of code behind them.
-/

set_option autoImplicit false
set_option relaxedAutoImplicit false

namespace DeferredDefaults

open Coding (IsNote IsReturn Prefaced)

namespace Lexeme

def commentOf (note : List Char) : List Lexeme := if note = [] then [] else [⟨.comment, note⟩]

private theorem split_spaceOf {space rest : List Char} (spaces : space.all isSpace = true)
    (noSpace : rest.head?.any isSpace = false) :
    split (space ++ rest) = spaceOf space ++ split rest := by
  unfold spaceOf
  split
  · next empty => rw [empty]; rfl
  · next some => exact split_of_first some ((first_space_iff some).2 ⟨spaces, noSpace⟩)

private theorem split_note {note rest : List Char} (isNote : IsNote note)
    (ends : rest.head?.any (fun c => !isLineEnd c) = false) :
    split (note ++ rest) = commentOf note ++ split rest := by
  unfold commentOf
  split
  · next empty => rw [empty]; rfl
  · next some =>
    refine split_of_first some ((first_comment_iff some).2 ⟨?_, ?_, ends⟩)
    · obtain ⟨c, more, rfl⟩ := List.exists_cons_of_ne_nil some
      exact congrArg Option.some (isNote.hash c rfl)
    · exact List.all_eq_true.2 fun c member => by rw [isNote.row c member]; rfl

private theorem split_return {ending : List Char} (isReturn : IsReturn ending) (rest : List Char) :
    split (ending ++ '\n' :: rest) = ⟨.lineBreak, ending ++ ['\n']⟩ :: split rest := by
  have whole : ending ++ '\n' :: rest = (ending ++ ['\n']) ++ rest := by simp
  rw [whole]
  refine split_of_first (by simp) ((first_lineBreak_iff (by simp)).2 ?_)
  rcases isReturn with rfl | rfl
  · exact ⟨by simp [breaks], by simp⟩
  · exact ⟨by simp [breaks], by simp⟩

private theorem split_line {space note ending : List Char} (spaces : space.all isSpace = true)
    (isNote : IsNote note) (isReturn : IsReturn ending) (rest : List Char) :
    split (space ++ (note ++ ending) ++ '\n' :: rest) =
      spaceOf space ++ (commentOf note ++ ⟨.lineBreak, ending ++ ['\n']⟩ :: split rest) := by
  have ends : (ending ++ '\n' :: rest).head?.any (fun c => !isLineEnd c) = false := by
    rcases isReturn with rfl | rfl <;> rfl
  have noSpace : (note ++ (ending ++ '\n' :: rest)).head?.any isSpace = false := by
    cases note with
    | nil => rcases isReturn with rfl | rfl <;> rfl
    | cons c more =>
      rw [isNote.hash c rfl]
      rfl
  rw [List.append_assoc, List.append_assoc, split_spaceOf spaces noSpace, split_note isNote ends,
    split_return isReturn]

private theorem isCode_of_append {text rest : List Char} (nonempty : text ≠ [])
    (isCode : IsCode (text ++ rest)) : IsCode text := by
  obtain ⟨c, more, rfl⟩ := List.exists_cons_of_ne_nil nonempty
  rw [List.cons_append, isCode_cons_iff] at isCode
  refine (isCode_cons_iff c more).2 ⟨isCode.1, isCode.2.1, isCode.2.2.1, fun backslash => ?_⟩
  have behind := isCode.2.2.2 backslash
  cases more with
  | nil => rfl
  | cons d others => exact behind

private theorem isLayout_of_isCode {text : List Char} {lexeme : Lexeme} (isCode : IsCode text)
    (nonempty : lexeme.text ≠ []) (read : first text = (lexeme.kind, lexeme.text.length)) :
    lexeme.kind.isLayout = false := by
  have some : lexeme.text.length ≠ 0 := fun none => nonempty (List.eq_nil_of_length_eq_zero none)
  rcases first_cases read with h | h | h | h | ⟨noLayout, -⟩
  · exact absurd (h.2.symm.trans isCode.continuation) some
  · exact absurd (h.2.symm.trans isCode.lineBreak) some
  · exact absurd (h.2.symm.trans isCode.space) some
  · exact absurd (h.2.symm.trans isCode.comment) some
  · exact noLayout

private theorem exists_return {c : Char} {rest : List Char}
    (paired : Text.ReturnsPaired (c :: rest)) (isEnd : isLineEnd c = true) :
    ∃ ending others, c :: rest = ending ++ '\n' :: others ∧ IsReturn ending := by
  rw [isLineEnd, Bool.or_eq_true, beq_iff_eq, beq_iff_eq] at isEnd
  rcases isEnd with rfl | rfl
  · obtain ⟨others, rfl⟩ := List.head?_eq_some_iff.1 (paired rest List.suffix_rfl)
    exact ⟨['\r'], others, rfl, .inr rfl⟩
  · exact ⟨[], rest, rfl, .inl rfl⟩

private theorem exists_note (text : List Char) :
    ∃ note rest, '#' :: text = note ++ rest ∧ IsNote note ∧
    note ≠ [] ∧ ∀ c ∈ rest.head?, isLineEnd c = true := by
  refine ⟨'#' :: text.takeWhile (fun c => !isLineEnd c), text.dropWhile (fun c => !isLineEnd c), ?_,
    ⟨?_, List.forall_mem_cons.2 ⟨rfl, fun c member => ?_⟩⟩, List.cons_ne_nil _ _, ?_⟩
  · rw [List.cons_append, List.takeWhile_append_dropWhile]
  · rintro c ⟨⟩
    rfl
  · simpa using List.mem_takeWhile_imp member
  · intro c first
    have stops := List.head?_dropWhile_not (fun c => !isLineEnd c) text
    rw [first] at stops
    simpa using stops

/-- A text without lone carriage returns and without continuations has a preface. -/
theorem exists_preface (text : List Char) (paired : Text.ReturnsPaired text)
    (noContinuation : ∀ lexeme ∈ split text, lexeme.kind ≠ .continuation) :
    ∃ lines code, Prefaced lines text code ∧ IsCode code := by
  generalize size : text.length = n
  induction n using Nat.strongRecOn generalizing text with
  | ind n ih =>
    have spaces : (text.takeWhile isSpace).all isSpace = true :=
      List.all_eq_true.2 fun c => List.mem_takeWhile_imp
    have whole := List.takeWhile_append_dropWhile (p := isSpace) (l := text)
    have head := List.head?_dropWhile_not isSpace text
    generalize text.takeWhile isSpace = margin at spaces whole
    generalize text.dropWhile isSpace = behind at whole head
    subst whole
    -- A row that ends leads on to the rows behind it.
    have next : ∀ {note rest : List Char}, behind = note ++ rest → IsNote note →
        ∀ c others, rest = c :: others → isLineEnd c = true →
        ∃ lines code, Prefaced lines (margin ++ behind) code ∧ IsCode code := by
      rintro note _ rfl isNote c others rfl isEnd
      have pairedRest : Text.ReturnsPaired (c :: others) :=
        paired.suffix ⟨margin ++ note, by simp⟩
      obtain ⟨ending, more, split, isReturn⟩ := exists_return pairedRest isEnd
      rw [split] at pairedRest noContinuation size ⊢
      rw [← List.append_assoc, ← List.append_assoc, List.append_assoc margin] at noContinuation ⊢
      rw [split_line spaces isNote isReturn] at noContinuation
      obtain ⟨lines, code, prefaced, isCode⟩ := ih more.length (by simp at size; omega) more
        (pairedRest.suffix ⟨ending ++ ['\n'], by simp⟩)
        (fun lexeme member => noContinuation lexeme (by simp [member])) rfl
      exact ⟨_, code, .line spaces isNote isReturn prefaced, isCode⟩
    cases behind with
    | nil => exact ⟨[], [], .code spaces .nil, rfl, rfl, rfl, rfl⟩
    | cons c rest =>
      have noSpace : isSpace c = false := by simpa using head
      by_cases hash : c = '#'
      · subst hash
        obtain ⟨note, others, split, isNote, some, ends⟩ := exists_note rest
        cases others with
        | nil =>
          rw [List.append_nil] at split
          rw [split]
          exact ⟨[note], [], .last spaces isNote some, rfl, rfl, rfl, rfl⟩
        | cons d more => exact next split isNote d more rfl (ends d rfl)
      · cases isEnd : isLineEnd c with
        | true => exact @next [] (c :: rest) rfl .nil c rest rfl isEnd
        | false =>
          have noContinues : continuation (c :: rest) = 0 := by
            by_contra continues
            have read : (first (c :: rest)).1 = .continuation := by
              rw [first_layout, if_pos continues]
            rw [split_spaceOf spaces (by simp [noSpace]), split_cons] at noContinuation
            exact noContinuation _ (List.mem_append_right _ List.mem_cons_self) read
          have isCode : IsCode (c :: rest) :=
            ⟨noContinues, (lineBreak_eq_zero_iff _).2 (by simp [isEnd]), by simp [space, noSpace],
              comment_of_ne hash rest⟩
          exact ⟨[], c :: rest, .code spaces (Coding.begins_of_isCode isCode), isCode⟩

end Lexeme

namespace Token

structure IsCommentOn (token : Token) (row : Nat) (note : List Char) : Prop where
  kind : token.kind = .comment
  text : token.text.toList = note
  isNote : IsNote note
  nonempty : note ≠ []
  start : token.start.row = row
  stop : token.stop.row = row

structure IsFeedOn (token : Token) (row : Nat) (ending : List Char) : Prop where
  kind : token.kind = .nl
  text : token.text.toList = ending ++ ['\n']
  isReturn : IsReturn ending
  start : token.start.row = row
  stop : token.stop.row = row

theorem IsCommentOn.noLayout {token : Token} {row : Nat} {note : List Char}
    (isComment : token.IsCommentOn row note) : token.isLayout = false := by
  simp [isLayout, isComment.kind]

theorem IsCommentOn.behind {token : Token} {row : Nat} {note : List Char}
    (isComment : token.IsCommentOn row note) : token.behind = token.stop := by
  simp [Token.behind, isBreak, isComment.kind]

theorem IsFeedOn.noLayout {token : Token} {row : Nat} {ending : List Char}
    (isFeed : token.IsFeedOn row ending) : token.isLayout = false := by
  simp [isLayout, isFeed.kind]

theorem IsFeedOn.behind {token : Token} {row : Nat} {ending : List Char}
    (isFeed : token.IsFeedOn row ending) : token.behind = ⟨row + 1, 0⟩ := by
  simp [Token.behind, isBreak, isFeed.kind, Position.nextRow, isFeed.stop]

def GoesOn (place : Position) (tokens : List Token) : Prop :=
  ∃ next more, tokens = next :: more ∧ next.isLayout = false ∧
    (next.start = place → next.text.toList.head?.any Lexeme.isLineEnd = false) ∧
    (next.text = "" → ∀ token ∈ more, token.isLayout = true)

/-- The tokens are those of the end of a text, or they begin with code on the given row. -/
def Opens (row : Nat) (tokens : List Token) : Prop :=
  (∃ stop, tokens = [stop] ∧ stop.kind = .endMarker) ∨
  ∃ blocks token rest, tokens = blocks ++ token :: rest ∧
    (∀ block ∈ blocks, block.kind = .indent ∧ block.text.toList.all Lexeme.isSpace = true) ∧
    token.isSignificant = true ∧ token.start.row = row ∧ token.text ≠ "" ∧
    Lexeme.IsCode token.text.toList ∧ (token.text = "\\" → GoesOn token.stop rest)

/-- The tokens of the lines of a preface, the first of them on the given row, and the tokens behind
them. -/
inductive Preface : (row : Nat) → (lines : List (List Char)) → (trivia rest : List Token) → Prop
  | code {row : Nat} {rest : List Token} : Opens row rest → Preface row [] [] rest
  | blank {row : Nat} {feed : Token} {ending : List Char} {lines : List (List Char)}
      {trivia rest : List Token} : feed.IsFeedOn row ending →
      Preface (row + 1) lines trivia rest → Preface row (ending :: lines) (feed :: trivia) rest
  | comment {row : Nat} {comment feed : Token} {note ending : List Char}
      {lines : List (List Char)} {trivia rest : List Token} : comment.IsCommentOn row note →
      feed.IsFeedOn row ending → feed.start = comment.stop →
      Preface (row + 1) lines trivia rest →
      Preface row ((note ++ ending) :: lines) (comment :: feed :: trivia) rest
  | last {row : Nat} {comment stop : Token} {note : List Char} : comment.IsCommentOn row note →
      stop.kind = .endMarker → Preface row [note] [comment] [stop]

end Token

open Token (Preface Opens GoesOn)

namespace Layout

/-- Layout has found nothing but a preface, and is on the given row. -/
structure Idle (layout : Layout) (row : Nat) : Prop where
  depth : layout.depth = 0
  blocks : layout.blocks = []
  fresh : layout.atLineStart = true
  line : layout.lineHasCode = false
  margin : layout.margin.all Lexeme.isSpace = true
  row : layout.cursor.row = row

variable {layout : Layout} {row : Nat} {space note ending : List Char} {lexemes : List Lexeme}
  {tokens : List Token}

private theorem run_spaceOf (layout : Layout) (spaces : space.all Lexeme.isSpace = true)
    (rest : List Lexeme) :
    layout.run (Lexeme.spaceOf space ++ rest) = (layout.cross (Lexeme.spaceOf space)).run rest :=
  run_gap (Lexeme.isPad_spaceOf spaces).isGap layout rest

private theorem Idle.cross (idle : layout.Idle row) (spaces : space.all Lexeme.isSpace = true) :
    (layout.cross (Lexeme.spaceOf space)).Idle row where
  depth := (depth_cross layout).trans idle.depth
  blocks := (blocks_cross layout).trans idle.blocks
  fresh := (atLineStart_cross layout).trans idle.fresh
  line := (lineHasCode_cross layout).trans idle.line
  margin := margin_cross layout (Lexeme.isPad_spaceOf spaces).isGap idle.margin
  row := by
    rw [cross_spaceOf]
    exact idle.row

private theorem Idle.comment (idle : layout.Idle row) (isNote : IsNote note) (some : note ≠ []) :
    (layout.tokenFor ⟨.comment, note⟩).IsCommentOn row note ∧
      (layout.behind ⟨.comment, note⟩).Idle row ∧
      (layout.behind ⟨.comment, note⟩).cursor = (layout.tokenFor ⟨.comment, note⟩).stop := by
  have along := Position.advance_of_row isNote.row layout.cursor
  have stays : (layout.cursor.advance note).row = row := by
    rw [along]
    exact idle.row
  exact ⟨⟨rfl, String.toList_ofList, isNote, some, idle.row, stays⟩,
    ⟨idle.depth, idle.blocks, idle.fresh, idle.line, idle.margin, stays⟩, rfl⟩

private theorem Idle.lineBreak (idle : layout.Idle row) (isReturn : IsReturn ending) :
    (layout.tokenFor ⟨.lineBreak, ending ++ ['\n']⟩).IsFeedOn row ending ∧
      (layout.behind ⟨.lineBreak, ending ++ ['\n']⟩).Idle (row + 1) := by
  have kind : (layout.tokenFor ⟨.lineBreak, ending ++ ['\n']⟩).kind = .nl := by
    simp [tokenFor, Layout.lineBreak, idle.line]
  refine ⟨⟨kind, ?_, isReturn, idle.row, idle.row⟩, ?_⟩
  · rw [text_tokenFor, String.toList_ofList]
  · constructor <;> simp [behind, Layout.lineBreak, idle.depth, idle.blocks, idle.fresh, idle.line,
      Position.nextRow, idle.row]

private theorem behind_code {lexeme : Lexeme} (isCode : lexeme.kind.isCode = true)
    (layout : Layout) :
    (layout.behind lexeme).atLineStart = false ∧ (layout.behind lexeme).lineHasCode = true ∧
      (layout.behind lexeme).cursor = (layout.tokenFor lexeme).stop := by
  obtain ⟨kind, text⟩ := lexeme
  cases kind with
  | string | number | name | operator | stray => exact ⟨rfl, rfl, rfl⟩
  | openQuote | continuation | lineBreak | space | comment => cases isCode

private theorem goesOn_run (reads : Lexeme.Reads lexemes) (ran : layout.run lexemes = .ok tokens)
    (begun : layout.atLineStart = false) (line : layout.lineHasCode = true)
    (noEnd : (Lexeme.textOf lexemes).head?.any Lexeme.isLineEnd = false) :
    GoesOn layout.cursor tokens := by
  obtain ⟨gap, rest, rfl, isGap, head⟩ := Lexeme.exists_gap reads
  rw [run_gap isGap] at ran
  cases rest with
  | nil =>
    rw [run] at ran
    obtain ⟨place, finished⟩ := finish_of_depth (depth_of_finish ran)
    rw [finished, lineHasCode_cross, line, if_pos rfl, List.singleton_append] at ran
    cases ran
    refine ⟨_, _, rfl, rfl, fun _ => rfl, fun _ => ?_⟩
    rw [List.forall_mem_append, List.forall_mem_singleton]
    exact ⟨fun token member => by rw [List.eq_of_mem_replicate member]; rfl, rfl⟩
  | cons lexeme others =>
    obtain ⟨noSpace, noContinuation⟩ := head lexeme rfl
    obtain ⟨-, ⟨-, more, rfl, -⟩ | ⟨isFresh, -⟩⟩ := run_cons_eq_ok noSpace noContinuation ran
    · have nonempty := reads.drop.1
      refine ⟨_, _, rfl, isLayout_tokenFor _ _, fun start => ?_, fun empty => ?_⟩
      · rw [start_tokenFor, (cursor_cross layout isGap).2] at start
        subst start
        obtain ⟨c, tail, text⟩ := List.exists_cons_of_ne_nil nonempty
        rw [List.nil_append, Lexeme.textOf_cons, text] at noEnd
        rw [text_tokenFor, String.toList_ofList, text]
        exact noEnd
      · rw [text_tokenFor] at empty
        have none := congrArg String.toList empty
        rw [String.toList_ofList] at none
        exact absurd none nonempty
    · rw [atLineStart_cross, begun] at isFresh
      cases isFresh

private theorem Idle.opens (idle : layout.Idle row) {code : List Char} (isCode : Lexeme.IsCode code)
    (nonempty : code ≠ []) (ran : layout.run (Lexeme.split code) = .ok tokens) :
    Opens row tokens := by
  obtain ⟨lexeme, lexemes, split⟩ : ∃ lexeme lexemes, Lexeme.split code = lexeme :: lexemes := by
    obtain ⟨c, text, rfl⟩ := List.exists_cons_of_ne_nil nonempty
    exact ⟨_, _, Lexeme.split_cons c text⟩
  have reads := Lexeme.reads_split code
  have whole : Lexeme.textOf (Lexeme.split code) = code := Lexeme.flatMap_text_split code
  rw [split] at ran reads whole
  obtain ⟨filled, read, readsRest⟩ := reads
  rw [Lexeme.textOf_cons] at whole
  rw [whole] at read
  have noLayout := Lexeme.isLayout_of_isCode isCode filled read
  have noSpace : lexeme.kind ≠ .space := fun kind => by
    rw [kind] at noLayout
    cases noLayout
  have noContinuation : lexeme.kind ≠ .continuation := fun kind => by
    rw [kind] at noLayout
    cases noLayout
  obtain ⟨hasToken, begins⟩ := run_cons_eq_ok noSpace noContinuation ran
  have codeKind : lexeme.kind.isCode = true := by
    obtain ⟨kind, text⟩ := lexeme
    cases kind with
    | string | number | name | operator | stray => rfl
    | openQuote => cases hasToken
    | continuation | lineBreak | space | comment => cases noLayout
  obtain ⟨notFirst, -⟩ | ⟨-, -, blocks, settled, others, settles, rfl, ranRest⟩ := begins
  · rw [idle.fresh, codeKind] at notFirst
    cases notFirst
  · have sameLine : layout.lineHasCode = !layout.atLineStart := by
      rw [idle.line, idle.fresh]
      rfl
    obtain ⟨-, significant, -⟩ :=
      Lexeme.traits_of_kindOf hasToken (kind_tokenFor sameLine lexeme)
    refine .inr ⟨blocks, _, others, rfl, ?_, ?_, ?_, ?_, ?_, ?_⟩
    · rcases settle_eq_ok settles with ⟨-, rfl, -⟩ | ⟨-, rfl, -⟩
      · rw [List.forall_mem_singleton, opening, String.toList_ofList]
        exact ⟨rfl, idle.margin⟩
      · rw [closed, idle.blocks]
        exact List.forall_mem_nil _
    · rw [significant, codeKind]
    · rw [start_tokenFor, idle.row]
    · rw [text_tokenFor]
      exact fun empty => filled (String.ofList_eq_empty_iff.1 empty)
    · rw [text_tokenFor, String.toList_ofList]
      exact Lexeme.isCode_of_append filled (whole ▸ isCode)
    · intro backslash
      have text : lexeme.text = ['\\'] := by
        rw [text_tokenFor] at backslash
        rw [← String.toList_ofList (l := lexeme.text), backslash]
        rfl
      obtain ⟨begun, line, cursor⟩ := behind_code codeKind settled
      rw [← whole, text, List.singleton_append, Lexeme.isCode_cons_iff] at isCode
      rw [← tokenFor_settle settles lexeme, ← cursor]
      exact goesOn_run readsRest ranRest begun line (isCode.2.2.2 rfl)

private theorem Idle.ended (idle : layout.Idle row) (ran : layout.run [] = .ok tokens) :
    ∃ stop, tokens = [stop] ∧ stop.kind = .endMarker := by
  obtain ⟨place, finished⟩ := finish_of_depth idle.depth
  rw [run, finished, idle.line, idle.blocks] at ran
  cases ran
  exact ⟨_, rfl, rfl⟩

private theorem run_trivia {lexeme : Lexeme}
    (trivia : lexeme.kind = .comment ∨ lexeme.kind = .lineBreak)
    (ran : layout.run (lexeme :: lexemes) = .ok tokens) :
    ∃ others, tokens = layout.tokenFor lexeme :: others ∧
      (layout.behind lexeme).run lexemes = .ok others := by
  have noGap : lexeme.kind ≠ .space ∧ lexeme.kind ≠ .continuation ∧ lexeme.kind.isCode = false := by
    rcases trivia with kind | kind <;> simp [kind, Lexeme.Kind.isCode]
  obtain ⟨-, ⟨-, others, split, ranRest⟩ | ⟨-, isCode, -⟩⟩ := run_cons_eq_ok noGap.1 noGap.2.1 ran
  · exact ⟨others, split, ranRest⟩
  · rw [noGap.2.2] at isCode
    cases isCode

private theorem Idle.preface {lines : List (List Char)} {text code : List Char}
    (prefaced : Prefaced lines text code) (isCode : Lexeme.IsCode code)
    (idle : layout.Idle row) (ran : layout.run (Lexeme.split text) = .ok tokens) :
    ∃ trivia rest, tokens = trivia ++ rest ∧ Preface row lines trivia rest := by
  induction prefaced generalizing layout row tokens with
  | @code space code spaces begins =>
    have noSpace : code.head?.any Lexeme.isSpace = false := by
      cases code with
      | nil => rfl
      | cons c rest => exact (begins c rfl).1
    rw [Lexeme.split_spaceOf spaces noSpace, run_spaceOf layout spaces] at ran
    refine ⟨[], tokens, rfl, .code ?_⟩
    cases code with
    | nil => exact .inl ((idle.cross spaces).ended ran)
    | cons c rest => exact (idle.cross spaces).opens isCode (List.cons_ne_nil c rest) ran
  | @line space note ending lines text code spaces isNote isReturn _ ih =>
    rw [Lexeme.split_line spaces isNote isReturn, run_spaceOf layout spaces] at ran
    have led := idle.cross spaces
    unfold Lexeme.commentOf at ran
    split at ran
    · next empty =>
      obtain ⟨others, rfl, ranRest⟩ := run_trivia (.inr rfl) ran
      obtain ⟨isFeed, next⟩ := led.lineBreak isReturn
      obtain ⟨trivia, rest, rfl, preface⟩ := ih isCode next ranRest
      rw [empty]
      exact ⟨_, rest, rfl, .blank isFeed preface⟩
    · next some =>
      obtain ⟨others, rfl, ranFeed⟩ := run_trivia (.inl rfl) ran
      obtain ⟨isComment, noted, cursor⟩ := led.comment isNote some
      obtain ⟨others, rfl, ranRest⟩ := run_trivia (.inr rfl) ranFeed
      obtain ⟨isFeed, next⟩ := noted.lineBreak isReturn
      obtain ⟨trivia, rest, rfl, preface⟩ := ih isCode next ranRest
      refine ⟨_, rest, rfl, .comment isComment isFeed ?_ preface⟩
      rw [start_tokenFor, cursor]
  | @last space note spaces isNote some =>
    have noSpace : note.head?.any Lexeme.isSpace = false := by
      obtain ⟨c, rest, rfl⟩ := List.exists_cons_of_ne_nil some
      rw [isNote.hash c rfl]
      rfl
    have whole := Lexeme.split_note isNote (rfl : ([] : List Char).head?.any _ = false)
    rw [List.append_nil, Lexeme.commentOf, if_neg some] at whole
    rw [Lexeme.split_spaceOf spaces noSpace, run_spaceOf layout spaces, whole] at ran
    obtain ⟨others, rfl, ranRest⟩ := run_trivia (.inl rfl) ran
    obtain ⟨isComment, noted, -⟩ := (idle.cross spaces).comment isNote some
    obtain ⟨stop, rfl, isStop⟩ := noted.ended ranRest
    exact ⟨_, [stop], rfl, .last isComment isStop⟩

private theorem idle_initial : ({} : Layout).Idle 1 := ⟨rfl, rfl, rfl, rfl, rfl, rfl⟩

end Layout

theorem preface_of_tokenize {lines : List (List Char)} {code : List Char} {text : String}
    {tokens : List Token} (prefaced : Prefaced lines text.toList code)
    (isCode : Lexeme.IsCode code) (tokenized : tokenize text = .ok tokens) :
    ∃ trivia rest, tokens = trivia ++ rest ∧ Preface 1 lines trivia rest :=
  Layout.idle_initial.preface prefaced isCode tokenized

end DeferredDefaults
