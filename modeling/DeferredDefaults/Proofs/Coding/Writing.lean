import DeferredDefaults.Proofs.Coding.Tokens
import DeferredDefaults.Proofs.Sigil.Stability

/-!
The writer gives the lines of a preface back. Marking leaves the trivia of the preface and the first
token of code as they are, and nothing but space is written in front of a token before the code.
-/

set_option autoImplicit false
set_option relaxedAutoImplicit false

namespace DeferredDefaults

open Coding (IsNote Prefaced)
open Token (Preface Opens GoesOn)

namespace Sigil

variable {marker : String} {token : Token} {rest : List Token}

private theorem exists_mark_cons (marker : String) (token : Token) (rest : List Token) :
    ∃ others, mark marker (token :: rest) = token :: others := by
  cases rest with
  | nil => exact ⟨[], rfl⟩
  | cons next rest =>
    rw [mark, markCounting, markFrom]
    split
    · exact ⟨_, rfl⟩
    · exact ⟨_, rfl⟩

private theorem mark_cons_of_noEquals (marker : String) (noEquals : token.isOp "=" = false)
    (rest : List Token) : mark marker (token :: rest) = token :: mark marker rest := by
  cases rest with
  | nil => rfl
  | cons next rest =>
    have noSigil : ¬ isSigil token next = true := by simp [isSigil, noEquals]
    rw [mark, markCounting, markFrom, if_neg noSigil]
    rfl

private theorem mark_append_of_noEquals (marker : String) {front : List Token}
    (noEquals : ∀ token ∈ front, token.isOp "=" = false) (rest : List Token) :
    mark marker (front ++ rest) = front ++ mark marker rest := by
  induction front with
  | nil => rfl
  | cons token front ih =>
    rw [List.forall_mem_cons] at noEquals
    rw [List.cons_append, mark_cons_of_noEquals marker noEquals.1, ih noEquals.2, List.cons_append]

private theorem goesOn_mark {place : Position} (goesOn : GoesOn place rest) :
    GoesOn place (mark marker rest) := by
  obtain ⟨next, more, rfl, noLayout, noEnd, ended⟩ := goesOn
  obtain ⟨others, marked⟩ := exists_mark_cons marker next more
  refine ⟨next, others, marked, noLayout, noEnd, fun empty => ?_⟩
  have noEquals : next.isOp "=" = false := by simp [Token.isOp, empty]
  have layout := mark_append_of_noEquals marker
    (fun token member => isOp_of_isLayout (ended empty token member) "=") []
  rw [mark_cons_of_noEquals marker noEquals, ← List.append_nil more, layout] at marked
  rw [← (List.cons.inj marked).2]
  simpa [mark, markCounting, markFrom] using ended empty

private theorem opens_mark {row : Nat} (opens : Opens row rest) : Opens row (mark marker rest) := by
  rcases opens with ⟨stop, rfl, isStop⟩ |
    ⟨blocks, token, rest, rfl, indents, significant, start, filled, isCode, goesOn⟩
  · exact .inl ⟨stop, rfl, isStop⟩
  · have noEquals : ∀ block ∈ blocks, block.isOp "=" = false := fun block member => by
      simp [Token.isOp, (indents block member).1]
    obtain ⟨others, marked⟩ := exists_mark_cons marker token rest
    rw [mark_append_of_noEquals marker noEquals, marked]
    refine .inr ⟨blocks, token, others, rfl, indents, significant, start, filled, isCode,
      fun backslash => ?_⟩
    have noEqual : token.isOp "=" = false := by simp [Token.isOp, backslash]
    rw [mark_cons_of_noEquals marker noEqual] at marked
    rw [← (List.cons.inj marked).2]
    exact goesOn_mark (goesOn backslash)

theorem preface_mark {row : Nat} {lines : List (List Char)} {trivia : List Token}
    (preface : Preface row lines trivia rest) :
    mark marker (trivia ++ rest) = trivia ++ mark marker rest ∧
      Preface row lines trivia (mark marker rest) := by
  induction preface with
  | code opens => exact ⟨rfl, .code (opens_mark opens)⟩
  | @blank row feed ending lines trivia rest isFeed _ ih =>
    have noEquals : feed.isOp "=" = false := by simp [Token.isOp, isFeed.kind]
    refine ⟨?_, .blank isFeed ih.2⟩
    rw [List.cons_append, mark_cons_of_noEquals marker noEquals, ih.1]
    rfl
  | @comment row comment feed note ending lines trivia rest isComment isFeed start _ ih =>
    have noEquals : ∀ token ∈ [comment, feed], token.isOp "=" = false := by
      simp [Token.isOp, isComment.kind, isFeed.kind]
    have marked := mark_append_of_noEquals marker noEquals (trivia ++ rest)
    rw [ih.1] at marked
    exact ⟨marked, .comment isComment isFeed start ih.2⟩
  | last isComment isStop =>
    refine ⟨mark_append_of_noEquals marker ?_ _, .last isComment isStop⟩
    simp [Token.isOp, isComment.kind]

end Sigil

namespace SourceText

variable {writer : SourceText} {token : Token} {tokens rest : List Token} {text : List Char}

private theorem run_layout (layout : ∀ token ∈ tokens, token.isLayout = true)
    (writer : SourceText) :
    writer.run tokens = .ok [] := by
  induction tokens generalizing writer with
  | nil => rfl
  | cons token rest ih =>
    rw [List.forall_mem_cons] at layout
    by_cases isStop : token.kind = .endMarker
    · rw [run, if_pos isStop]
    · have block : token.kind = .indent ∨ token.kind = .dedent := by
        simpa [Token.isLayout, isStop] using layout.1
      have single := @run_blocks [token] (List.forall_mem_singleton.2 block) writer rest
      rw [List.singleton_append] at single
      rw [single]
      exact ih layout.2 _

private theorem spaces_gap {last start : Position} (row : start.row = last.row) :
    (gap last start).all Lexeme.isSpace = true := by
  rw [gap, row, Nat.sub_self]
  refine List.all_eq_true.2 fun c member => ?_
  rw [List.eq_of_mem_replicate (by simpa using member : c ∈ List.replicate _ ' ')]
  rfl

private theorem head_gap {last start : Position} (some : gap last start ≠ []) (rest : List Char) :
    (gap last start ++ rest).head?.any Lexeme.isLineEnd = false := by
  have spacing : Lexeme.Spacing (gap last start) :=
    (Lexeme.Spacing.continuations _).append (.replicate _)
  obtain ⟨c, more, split, -, noEnd⟩ := spacing.head some rest
  rw [split]
  exact noEnd

private theorem reached_of_quiet (quiet : writer.lineStart = false ∨ writer.indents = []) :
    writer.reached token = writer.last := by
  unfold reached
  split
  · rfl
  · rcases writer.lead_cases token with ⟨indent, rest, start, split, -⟩ | ⟨-, -, last, -⟩
    · simp [start, split] at quiet
    · exact last

private theorem head_of_goesOn (goesOn : GoesOn writer.last tokens)
    (quiet : writer.lineStart = false ∨ writer.indents = []) (ran : writer.run tokens = .ok text) :
    text.head?.any Lexeme.isLineEnd = false := by
  obtain ⟨next, more, rfl, noLayout, noEnd, ended⟩ := goesOn
  obtain ⟨ahead, others, rfl, ranMore⟩ := run_cons_eq_ok noLayout ran
  rw [pad_of_quiet (.inr quiet), Lexeme.textOf_padBetween, List.nil_append]
  rw [reached_of_quiet quiet] at ahead
  by_cases none : gap writer.last next.start = []
  · rw [none, List.nil_append]
    have start : next.start = writer.last := by
      by_contra further
      exact gap_ne_nil ahead further none
    cases text : next.text.toList with
    | nil =>
      rw [run_layout (ended (String.toList_eq_nil_iff.1 text))] at ranMore
      cases ranMore
      rfl
    | cons c tail =>
      have head := noEnd start
      rw [text] at head
      exact head
  · exact head_gap none _

private theorem spaces_pad
    (spaces : ∀ indent ∈ writer.indents, indent.toList.all Lexeme.isSpace = true)
    (row : token.start.row = writer.last.row) :
    (Lexeme.textOf (writer.pad token)).all Lexeme.isSpace = true := by
  rw [pad, Lexeme.textOf_padBetween, List.all_append, Bool.and_eq_true]
  unfold indentFor reached
  split
  · exact ⟨rfl, spaces_gap row⟩
  · rcases writer.lead_cases token with ⟨indent, rest, -, split, -, led, next⟩ | ⟨-, led, last, -⟩
    · rw [led, next]
      exact ⟨spaces indent (by simp [split]), spaces_gap row⟩
    · rw [led, last]
      exact ⟨rfl, spaces_gap row⟩

private theorem foldl_enter_indents {blocks : List Token}
    (areIndents : ∀ block ∈ blocks, block.kind = .indent ∧
      block.text.toList.all Lexeme.isSpace = true)
    (spaces : ∀ indent ∈ writer.indents, indent.toList.all Lexeme.isSpace = true) :
    (blocks.foldl enter writer).last = writer.last ∧
      ∀ indent ∈ (blocks.foldl enter writer).indents, indent.toList.all Lexeme.isSpace = true := by
  induction blocks generalizing writer with
  | nil => exact ⟨rfl, spaces⟩
  | cons block rest ih =>
    rw [List.forall_mem_cons] at areIndents
    rw [List.foldl_cons, enter_indent areIndents.1.1]
    exact ih areIndents.2 (List.forall_mem_cons.2 ⟨areIndents.1.2, spaces⟩)

private theorem exists_code {row : Nat} (opens : Opens row rest)
    (ran : writer.run rest = .ok text) (indents : writer.indents = [])
    (onRow : writer.last.row = row) : ∃ code, Prefaced [] text code ∧ Lexeme.IsCode code := by
  rcases opens with ⟨stop, rfl, isStop⟩ |
    ⟨blocks, token, rest, rfl, areIndents, significant, start, filled, isCode, goesOn⟩
  · rw [run, if_pos isStop] at ran
    cases ran
    exact ⟨[], @Prefaced.code [] [] rfl .nil, rfl, rfl, rfl, rfl⟩
  · have areLayout : ∀ block ∈ blocks, block.kind = .indent ∨ block.kind = .dedent :=
      fun block member => .inl (areIndents block member).1
    obtain ⟨noLayout, noBreak⟩ := Token.traits_of_isSignificant significant
    have noIndent : ∀ indent ∈ writer.indents, indent.toList.all Lexeme.isSpace = true := by
      rw [indents]
      exact List.forall_mem_nil _
    obtain ⟨last, spaces⟩ := foldl_enter_indents areIndents noIndent
    rw [run_blocks areLayout] at ran
    obtain ⟨-, others, rfl, ranRest⟩ := run_cons_eq_ok noLayout ran
    obtain ⟨c, more, tokenText⟩ := List.exists_cons_of_ne_nil
      (fun empty => filled (String.toList_eq_nil_iff.1 empty))
    have whole : Lexeme.IsCode (token.text.toList ++ others) := by
      rw [tokenText] at isCode ⊢
      rw [Lexeme.isCode_cons_iff] at isCode
      refine (Lexeme.isCode_cons_iff c _).2
        ⟨isCode.1, isCode.2.1, isCode.2.2.1, fun backslash => ?_⟩
      cases more with
      | nil =>
        have text : token.text = "\\" := by
          rw [← String.ofList_toList (s := token.text), tokenText, backslash]
        have place : ((blocks.foldl enter writer).after token).last = token.stop := by
          rw [last_after, Token.behind, noBreak, if_neg Bool.false_ne_true]
        exact head_of_goesOn (place ▸ goesOn text) (quiet_after noBreak _) ranRest
      | cons d tail => exact isCode.2.2.2 backslash
    exact ⟨_, .code (spaces_pad spaces (start.trans (onRow.symm.trans (congrArg _ last.symm))))
      (Coding.begins_of_isCode whole), whole⟩

/-- The writer gives the lines of a preface back. -/
theorem exists_prefaced {row : Nat} {lines : List (List Char)} {trivia : List Token}
    (preface : Preface row lines trivia rest) (ran : writer.run (trivia ++ rest) = .ok text)
    (indents : writer.indents = []) (onRow : writer.last.row = row) :
    ∃ code, Prefaced lines text code ∧ Lexeme.IsCode code := by
  -- Before the code nothing but space is written in front of a token.
  have written : ∀ {writer : SourceText} {token : Token} {rest : List Token} {text : List Char},
      writer.indents = [] → token.isLayout = false → writer.run (token :: rest) = .ok text →
      ∃ others, text = gap writer.last token.start ++ (token.text.toList ++ others) ∧
        (writer.after token).run rest = .ok others := by
    intro writer token rest text indents noLayout ran
    obtain ⟨-, others, split, ranRest⟩ := run_cons_eq_ok noLayout ran
    rw [pad_of_quiet (.inr (.inr indents)), Lexeme.textOf_padBetween, List.nil_append] at split
    exact ⟨others, split, ranRest⟩
  induction preface generalizing writer text with
  | @code row rest opens => exact exists_code opens ran indents onRow
  | @blank row feed ending lines trivia rest isFeed _ ih =>
    obtain ⟨others, rfl, ranRest⟩ := written indents isFeed.noLayout ran
    obtain ⟨code, prefaced, isCode⟩ := ih ranRest ((indents_after writer feed).trans indents) (by
      rw [last_after, isFeed.behind])
    refine ⟨code, ?_, isCode⟩
    have line := Prefaced.line (spaces_gap (isFeed.start.trans onRow.symm))
      IsNote.nil isFeed.isReturn prefaced
    rw [isFeed.text]
    simpa using line
  | @comment row comment feed note ending lines trivia rest isComment isFeed start _ ih =>
    obtain ⟨behind, rfl, ranFeed⟩ := written indents isComment.noLayout ran
    have later := (indents_after writer comment).trans indents
    obtain ⟨others, rfl, ranRest⟩ := written later isFeed.noLayout ranFeed
    obtain ⟨code, prefaced, isCode⟩ := ih ranRest ((indents_after _ feed).trans later) (by
      rw [last_after, isFeed.behind])
    refine ⟨code, ?_, isCode⟩
    have line := Prefaced.line (spaces_gap (isComment.start.trans onRow.symm)) isComment.isNote
      isFeed.isReturn prefaced
    have none : gap (writer.after comment).last feed.start = [] := by
      rw [last_after, isComment.behind, start, gap_self]
    rw [isComment.text, isFeed.text, none]
    simpa using line
  | @last row comment stop note isComment isStop =>
    obtain ⟨behind, rfl, ranStop⟩ := written indents isComment.noLayout ran
    replace ranStop : (writer.after comment).run [stop] = .ok behind := ranStop
    rw [run, if_pos isStop] at ranStop
    cases ranStop
    rw [isComment.text, List.append_nil]
    exact ⟨[], .last (spaces_gap (isComment.start.trans onRow.symm)) isComment.isNote
      isComment.nonempty, rfl, rfl, rfl, rfl⟩

end SourceText

end DeferredDefaults
