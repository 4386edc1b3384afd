import DeferredDefaults.Proofs.Token.Spelling

/-!
Tokens tile their text. Between two of them there is only a gap, and the place of each is the place
of its characters, counted in the whole text: rows by the row ends in front of it, columns by the
characters since the last one.
-/

set_option autoImplicit false
set_option relaxedAutoImplicit false

namespace DeferredDefaults

/-- The character at `index` ends a row. A carriage return in front of a line feed does not: the
line feed ends the row of both. -/
def Text.endsRow (text : List Char) (index : Nat) : Bool :=
  text[index]? == some '\n' || (text[index]? == some '\r' && text[index + 1]? != some '\n')

/-- The place of the character at `offset`: its row is one more than the rows ended before it, its
column the number of characters behind the last of these ends. -/
def Position.inText (text : List Char) (offset : Nat) : Position :=
  ⟨1 + (List.range offset).countP (Text.endsRow text),
    ((List.range offset).reverse.takeWhile fun index => !Text.endsRow text index).length⟩

namespace Position

variable {text : List Char} {offset : Nat}

private theorem inText_succ (text : List Char) (offset : Nat) : inText text (offset + 1) =
    if Text.endsRow text offset then (inText text offset).nextRow
    else (inText text offset).right 1 := by
  simp only [inText, nextRow, right, List.range_succ, List.countP_append, List.countP_singleton,
    List.reverse_append, List.reverse_singleton, List.singleton_append, List.takeWhile_cons]
  cases Text.endsRow text offset with
  | true => simp [Nat.add_assoc]
  | false => simp

theorem inText_lt (text : List Char) {offset later : Nat} (before : offset < later) :
    inText text offset < inText text later := by
  induction later with
  | zero => omega
  | succ later ih =>
    have step : inText text later < inText text (later + 1) := by
      rw [inText_succ, lt_iff]
      split
      · exact .inl (Nat.lt_succ_self _)
      · exact .inr ⟨rfl, Nat.lt_succ_self _⟩
    rcases Nat.lt_succ_iff_lt_or_eq.1 before with earlier | rfl
    · have reached := ih earlier
      rw [lt_iff] at reached step ⊢
      omega
    · exact step

theorem inText_inj {offset other : Nat} (same : inText text offset = inText text other) :
    offset = other := by
  have apart : ∀ {a b : Nat}, a < b → inText text a ≠ inText text b := by
    intro a b before equal
    have further := inText_lt text before
    rw [equal, lt_iff] at further
    omega
  rcases Nat.lt_trichotomy offset other with before | equal | behind
  · exact absurd same (apart before)
  · exact equal
  · exact absurd same.symm (apart behind)

/-- Going on from a place of a text leads to its later places. A piece that ends with a carriage
return must not leave the line feed behind. -/
theorem advance_inText {piece behind : List Char} (split : text.drop offset = piece ++ behind)
    (whole : piece.getLast? = some '\r' → behind.head? ≠ some '\n') :
    (inText text offset).advance piece = inText text (offset + piece.length) := by
  generalize begins : inText text offset = place
  fun_induction Position.advance place piece generalizing offset with
  | case1 p => simp [begins]
  | case2 p rest ih =>
    -- Both characters are one row end, that of the line feed.
    have first : text[offset]? = some '\r' := by rw [← List.head?_drop, split]; rfl
    have others : text.drop (offset + 1) = '\n' :: rest ++ behind := by
      rw [← List.tail_drop, split]; rfl
    have second : text[offset + 1]? = some '\n' := by rw [← List.head?_drop, others]; rfl
    have more : text.drop (offset + 2) = rest ++ behind := by
      rw [← List.tail_drop, others]; rfl
    have next : inText text (offset + 2) = p.nextRow := by
      rw [inText_succ, inText_succ, begins]
      simp [Text.endsRow, first, second, nextRow, right]
    rw [ih more (fun last => whole (by simp [List.getLast?_cons, last])) next]
    simp only [List.length_cons]
    congr 1
    omega
  | case3 p c rest alone lineEnd ih =>
    have first : text[offset]? = some c := by rw [← List.head?_drop, split]; rfl
    have more : text.drop (offset + 1) = rest ++ behind := by rw [← List.tail_drop, split]; rfl
    have second : text[offset + 1]? = (rest ++ behind).head? := by rw [← List.head?_drop, more]
    have ends : Text.endsRow text offset = true := by
      rcases lineEnd with rfl | rfl
      · have noLineFeed : (rest ++ behind).head? ≠ some '\n' := by
          cases rest with
          | nil => exact whole rfl
          | cons d rest =>
            intro found
            cases found
            exact alone rest rfl rfl
        simpa [Text.endsRow, first, second] using noLineFeed
      · simp [Text.endsRow, first]
    have next : inText text (offset + 1) = p.nextRow := by rw [inText_succ, ends, begins, if_pos rfl]
    rw [ih more (fun last => whole (by simp [List.getLast?_cons, last])) next, List.length_cons]
    congr 1
    omega
  | case4 p c rest alone inRow ih =>
    have first : text[offset]? = some c := by rw [← List.head?_drop, split]; rfl
    have more : text.drop (offset + 1) = rest ++ behind := by rw [← List.tail_drop, split]; rfl
    have goesOn : Text.endsRow text offset = false := by
      rw [not_or] at inRow
      simp [Text.endsRow, first, inRow.1, inRow.2]
    have next : inText text (offset + 1) = p.right 1 := by
      rw [inText_succ, goesOn, begins, if_neg Bool.false_ne_true]
    rw [ih more (fun last => whole (by simp [List.getLast?_cons, last])) next, List.length_cons]
    congr 1
    omega

end Position

namespace Lexeme

inductive Gap : List Char → Prop
  | nil : Gap []
  | space {c : Char} {rest : List Char} : isSpace c = true → Gap rest → Gap (c :: rest)
  | continuation {lineEnd rest : List Char} : lineEnd ∈ breaks → Gap rest →
      Gap ('\\' :: (lineEnd ++ rest))

private theorem gap_append {front back : List Char} (spaces : front.all isSpace = true)
    (gap : Gap back) :
    Gap (front ++ back) := by
  induction front with
  | nil => exact gap
  | cons c rest ih =>
    rw [List.all_cons, Bool.and_eq_true] at spaces
    exact .space spaces.1 (ih spaces.2)

private theorem gap_textOf {gap : List Lexeme} (isGap : ∀ lexeme ∈ gap, lexeme.IsGap) :
    Gap (textOf gap) := by
  induction gap with
  | nil => exact .nil
  | cons lexeme rest ih =>
    rw [List.forall_mem_cons] at isGap
    rw [textOf_cons]
    rcases isGap.1.shape with ⟨-, -, spaces⟩ | ⟨-, lineEnd, isBreak, text⟩
    · exact gap_append spaces (ih isGap.2)
    · rw [text]
      exact .continuation isBreak (ih isGap.2)

/-- No lexeme ends between a carriage return and its line feed. -/
theorem Reads.whole {lexeme : Lexeme} {rest : List Lexeme} (reads : Reads (lexeme :: rest))
    (noQuote : lexeme.kind ≠ .openQuote) (last : lexeme.text.getLast? = some '\r') :
    (textOf rest).head? ≠ some '\n' := by
  obtain ⟨nonempty, read, readsRest⟩ := reads
  obtain ⟨kind, text⟩ := lexeme
  cases kind with
  | openQuote => exact absurd rfl noQuote
  | lineBreak =>
    obtain ⟨isBreak, alone⟩ := (first_lineBreak_iff nonempty).1 read
    simp only [breaks, List.mem_cons, List.not_mem_nil, or_false] at isBreak
    rcases isBreak with rfl | rfl | rfl
    · cases last
    · exact alone rfl
    · cases last
  | continuation =>
    obtain ⟨lineEnd, isBreak, rfl⟩ : ∃ lineEnd ∈ breaks, text = '\\' :: lineEnd := by
      rcases (isGap_of_reads ⟨nonempty, read, readsRest⟩ (.inr rfl)).shape with ⟨space, -⟩ | ⟨-, shape⟩
      · cases space
      · exact shape
    have alone := (first_continuation_iff.1 read).2
    simp only [breaks, List.mem_cons, List.not_mem_nil, or_false] at isBreak
    rcases isBreak with rfl | rfl | rfl
    · cases last
    · exact alone rfl
    · cases last
  | space =>
    have spaces := ((first_space_iff nonempty).1 read).1
    exact absurd (List.all_eq_true.1 spaces _ (List.mem_of_getLast? last)) (by decide)
  | comment | string | number | name | operator | stray =>
    exact absurd (getLast?_of_first nonempty read rfl (by rintro ⟨⟩) _ last) (by decide)

end Lexeme

open Lexeme (Gap)

/-- The token stands at `offset` of the text. A line break stays on its own row, where the missing
break behind the last line takes one column. -/
structure Token.Stands (text : List Char) (offset : Nat) (token : Token) : Prop where
  start : token.start = .inText text offset
  stop : token.stop =
    if token.isBreak then
      token.start.right (token.text.toList.length + if token.text = "" then 1 else 0)
    else .inText text (offset + token.text.toList.length)

/-- From `offset` onwards the text is a gap, a token, a gap, a token and so on, with a gap at its
end. Only the break that ends the last line may have no characters. -/
def Tiles (text : List Char) : (offset : Nat) → List Token → Prop
  | offset, [] => Gap (text.drop offset)
  | offset, token :: rest => ∃ gap behind,
      text.drop offset = gap ++ (token.text.toList ++ behind) ∧ Gap gap ∧
      token.Stands text (offset + gap.length) ∧
      (token.text = "" → token.kind = .newline ∧ behind = [] ∧ rest = []) ∧
      Tiles text (offset + gap.length + token.text.toList.length) rest

namespace Layout

variable {text : List Char} {offset : Nat} {layout : Layout} {lexeme : Lexeme}
  {gap rest : List Lexeme}

/-- The layout is about to read the text from `offset` onwards as `lexemes`. -/
structure Reaches (text : List Char) (offset : Nat) (layout : Layout) (lexemes : List Lexeme) :
    Prop where
  reads : Lexeme.Reads lexemes
  behind : text.drop offset = Lexeme.textOf lexemes
  cursor : layout.cursor = .inText text offset

private theorem cursor_pass (isGap : lexeme.IsGap) (layout : Layout) :
    (layout.pass lexeme).cursor = layout.cursor.advance lexeme.text := by
  obtain ⟨kind, text⟩ := lexeme
  rcases isGap.shape with ⟨rfl, -, spaces⟩ | ⟨rfl, lineEnd, isBreak, rfl⟩
  · have row : ∀ c ∈ text, Lexeme.isLineEnd c = false := by
      intro c member
      have space := List.all_eq_true.1 spaces c member
      simp only [Lexeme.isSpace, Bool.or_eq_true, beq_iff_eq] at space
      rcases space with (rfl | rfl) | rfl <;> rfl
    exact (Position.advance_of_row row _).symm
  · simp only [Lexeme.breaks, List.mem_cons, List.not_mem_nil, or_false] at isBreak
    rcases isBreak with rfl | rfl | rfl <;> rfl

private theorem cursor_behind_eq (reads : Lexeme.Reads (lexeme :: rest))
    (hasToken : lexeme.kind.hasToken = true) (layout : Layout) :
    (layout.behind lexeme).cursor = layout.cursor.advance lexeme.text := by
  obtain ⟨kind, text⟩ := lexeme
  cases kind with
  | lineBreak =>
    have isBreak := ((Lexeme.first_lineBreak_iff reads.1).1 reads.2.1).1
    simp only [Lexeme.breaks, List.mem_cons, List.not_mem_nil, or_false] at isBreak
    rcases isBreak with rfl | rfl | rfl <;> rfl
  | space | continuation | openQuote => cases hasToken
  | comment | string | number | name | operator | stray => rfl

namespace Reaches

private theorem next (reaches : Reaches text offset layout (lexeme :: rest))
    (noQuote : lexeme.kind ≠ .openQuote) {layout' : Layout}
    (cursor : layout'.cursor = layout.cursor.advance lexeme.text) :
    Reaches text (offset + lexeme.text.length) layout' rest where
  reads := reaches.reads.2.2
  behind := by rw [← List.drop_drop, reaches.behind, Lexeme.textOf_cons, List.drop_left]
  cursor := by
    rw [cursor, reaches.cursor]
    exact Position.advance_inText reaches.behind (reaches.reads.whole noQuote)

private theorem cross (reaches : Reaches text offset layout (gap ++ rest))
    (isGap : ∀ lexeme ∈ gap, lexeme.IsGap) :
    Reaches text (offset + (Lexeme.textOf gap).length) (layout.cross gap) rest := by
  induction gap generalizing layout offset with
  | nil => exact reaches
  | cons lexeme gap ih =>
    rw [List.forall_mem_cons] at isGap
    have noQuote : lexeme.kind ≠ .openQuote := by
      rcases isGap.1.shape with ⟨kind, -⟩ | ⟨kind, -⟩ <;> simp [kind]
    have next := ih (reaches.next noQuote (cursor_pass isGap.1 layout)) isGap.2
    rwa [Nat.add_assoc, ← List.length_append, ← Lexeme.textOf_cons] at next

theorem step (reaches : Reaches text offset layout (lexeme :: rest)) {own : List Token}
    {layout' : Layout} (stepped : layout.step lexeme = .ok (own, layout')) :
    Reaches text (offset + lexeme.text.length) layout' rest := by
  have noQuote : lexeme.kind ≠ .openQuote := by
    intro kind
    simp only [Layout.step, kind] at stepped
    cases stepped
  apply reaches.next noQuote
  rcases step_eq_ok stepped with ⟨gap, -, rfl⟩ | ⟨hasToken, -, -, rfl⟩ |
    ⟨-, isCode, blocks, settled, settles, -, rfl⟩
  · exact cursor_pass (Lexeme.isGap_of_reads reaches.reads gap) layout
  · exact cursor_behind_eq reaches.reads hasToken layout
  · have hasToken : lexeme.kind.hasToken = true := by simp [Lexeme.Kind.hasToken, isCode]
    rw [cursor_behind_eq reaches.reads hasToken, settle_blocks settles]

private theorem stands (reaches : Reaches text offset layout (lexeme :: rest))
    (hasToken : lexeme.kind.hasToken = true) :
    (layout.tokenFor lexeme).Stands text offset where
  start := by rw [start_tokenFor, reaches.cursor]
  stop := by
    have filled : (layout.tokenFor lexeme).text ≠ "" := by
      rw [text_tokenFor]
      exact fun none => reaches.reads.1 (by simpa using congrArg String.toList none)
    have cursor := (reaches.next (fun quote => by rw [quote] at hasToken; cases hasToken)
      (cursor_behind_eq reaches.reads hasToken layout)).cursor
    rw [fills_tokenFor layout reaches.reads.1]
    split
    · have long : 0 < (layout.tokenFor lexeme).text.toList.length := by
        rw [text_tokenFor, String.toList_ofList]
        exact List.length_pos_of_ne_nil reaches.reads.1
      rw [Nat.max_eq_right long, Nat.add_zero]
    · rw [start_tokenFor, text_tokenFor, String.toList_ofList, ← cursor,
        cursor_behind_eq reaches.reads hasToken]

end Reaches

private theorem filter_blocks {blocks : List Token}
    (blocksOnly : ∀ block ∈ blocks, block.isLayout = true) :
    blocks.filter (fun token => !token.isLayout) = [] := by
  simpa [List.filter_eq_nil_iff] using blocksOnly

private theorem tiles_finish {tokens : List Token} (reaches : Reaches text offset layout gap)
    (isGap : ∀ lexeme ∈ gap, lexeme.IsGap) (finished : (layout.cross gap).finish = .ok tokens) :
    Tiles text offset (tokens.filter fun token => !token.isLayout) := by
  have crossed : Reaches text (offset + (Lexeme.textOf gap).length) (layout.cross gap) [] :=
    Reaches.cross (by rwa [List.append_nil]) isGap
  have spaces : Gap (text.drop offset) := by
    rw [reaches.behind]
    exact Lexeme.gap_textOf isGap
  obtain ⟨place, finish⟩ := finish_of_depth (depth_of_finish finished)
  rw [finish] at finished
  cases finished
  have closing : (List.replicate (layout.cross gap).blocks.length (dedentAt place) ++
      [(⟨.endMarker, "", place, place⟩ : Token)]).filter (fun token => !token.isLayout) = [] := by
    refine filter_blocks fun token member => ?_
    simp only [List.mem_append, List.mem_replicate, List.mem_singleton] at member
    rcases member with ⟨-, rfl⟩ | rfl <;> rfl
  rw [List.filter_append, closing, List.append_nil]
  split
  · refine ⟨Lexeme.textOf gap, [], ?_, Lexeme.gap_textOf isGap, ⟨crossed.cursor, rfl⟩,
      fun _ => ⟨rfl, rfl, rfl⟩, ?_⟩
    · simpa using reaches.behind
    · show Gap _
      have done : text.drop (offset + (Lexeme.textOf gap).length) = [] := crossed.behind
      simp [done, Gap.nil]
  · exact spaces

private theorem tiles_run {lexemes : List Lexeme} {tokens : List Token}
    (reaches : Reaches text offset layout lexemes) (ran : layout.run lexemes = .ok tokens) :
    Tiles text offset (tokens.filter fun token => !token.isLayout) := by
  generalize size : lexemes.length = n
  induction n using Nat.strongRecOn generalizing lexemes layout offset tokens with
  | ind n ih =>
    obtain ⟨gap, rest, rfl, isGap, head⟩ := Lexeme.exists_gap reaches.reads
    rw [run_gap isGap] at ran
    cases rest with
    | nil =>
      rw [List.append_nil] at reaches
      exact tiles_finish reaches isGap ran
    | cons lexeme more =>
      obtain ⟨noSpace, noContinuation⟩ := head lexeme rfl
      have crossed := reaches.cross isGap
      have smaller : more.length < n := by
        rw [List.length_append, List.length_cons] at size
        omega
      obtain ⟨hasToken, cases⟩ := run_cons_eq_ok noSpace noContinuation ran
      have noQuote : lexeme.kind ≠ .openQuote := fun quote => by rw [quote] at hasToken; cases hasToken
      -- Blocks that open or close in front of the token change neither it nor its place.
      have tiles : ∀ (settled : Layout) (others : List Token),
          settled.cursor = (layout.cross gap).cursor → (settled.behind lexeme).run more = .ok others →
          Tiles text offset ((layout.cross gap).tokenFor lexeme ::
            others.filter fun token => !token.isLayout) := by
        intro settled others cursor ranRest
        have reached : Reaches text (offset + (Lexeme.textOf gap).length + lexeme.text.length)
            (settled.behind lexeme) more := by
          refine crossed.next noQuote ?_
          rw [cursor_behind_eq crossed.reads hasToken, cursor]
        refine ⟨Lexeme.textOf gap, Lexeme.textOf more, ?_, Lexeme.gap_textOf isGap,
          crossed.stands hasToken, ?_, ?_⟩
        · rw [reaches.behind, Lexeme.textOf_append, Lexeme.textOf_cons, text_tokenFor,
            String.toList_ofList]
        · rw [text_tokenFor]
          exact fun none => absurd (by simpa using congrArg String.toList none) crossed.reads.1
        · rw [text_tokenFor, String.toList_ofList]
          exact ih more.length smaller reached ranRest rfl
      have inked := isLayout_tokenFor (layout.cross gap) lexeme
      rcases cases with ⟨-, others, rfl, ranRest⟩ |
        ⟨-, -, blocks, settled, others, settles, rfl, ranRest⟩
      · rw [List.filter_cons_of_pos (by simp [inked])]
        exact tiles _ others rfl ranRest
      · rw [List.filter_append, filter_blocks (isLayout_of_settle settles), List.nil_append,
          List.filter_cons_of_pos (by simp [inked])]
        refine tiles settled others ?_ ranRest
        rw [settle_blocks settles]

end Layout

/-- The tokens of a text tile it, and their places are exact. -/
theorem tokenize_tiles {source : String} {tokens : List Token}
    (tokenized : tokenize source = .ok tokens) :
    Tiles source.toList 0 (tokens.filter fun token => !token.isLayout) :=
  Layout.tiles_run
    { reads := Lexeme.reads_split _
      behind := (Lexeme.flatMap_text_split source.toList).symm
      cursor := rfl } tokenized

def wovenSource : String := "if a :\r\n\tb = '''c\r\nd''' + \\\r  e # f\n(g)"

def wovenPlaces : List (Position × Position) :=
  [(⟨1, 0⟩, ⟨1, 2⟩), (⟨1, 3⟩, ⟨1, 4⟩), (⟨1, 5⟩, ⟨1, 6⟩), (⟨1, 6⟩, ⟨1, 8⟩),
    (⟨2, 1⟩, ⟨2, 2⟩), (⟨2, 3⟩, ⟨2, 4⟩), (⟨2, 5⟩, ⟨3, 4⟩), (⟨3, 5⟩, ⟨3, 6⟩),
    (⟨4, 2⟩, ⟨4, 3⟩), (⟨4, 4⟩, ⟨4, 7⟩), (⟨4, 7⟩, ⟨4, 8⟩),
    (⟨5, 0⟩, ⟨5, 1⟩), (⟨5, 1⟩, ⟨5, 2⟩), (⟨5, 2⟩, ⟨5, 3⟩), (⟨5, 3⟩, ⟨5, 4⟩)]

theorem tokenize_tiles_woven : ∃ tokens, tokenize wovenSource = .ok tokens ∧
    ((tokens.filter fun token => !token.isLayout).map fun token => (token.start, token.stop)) =
      wovenPlaces ∧
    Tiles wovenSource.toList 0 (tokens.filter fun token => !token.isLayout) := by
  have places : ((tokenize wovenSource).map fun tokens => (tokens.filter fun token =>
      !token.isLayout).map fun token => (token.start, token.stop)).toOption =
      some wovenPlaces := by
    decide +kernel
  cases tokenized : tokenize wovenSource with
  | error fault =>
    rw [tokenized] at places
    cases places
  | ok tokens =>
    rw [tokenized] at places
    exact ⟨tokens, rfl, Option.some.inj places, tokenize_tiles tokenized⟩

end DeferredDefaults
