import DeferredDefaults.Proofs.Sigil.MarkedText
import DeferredDefaults.Proofs.Token.Exactness
import DeferredDefaults.Proofs.Token.Margins

/-!
Texts that are indented by blanks and begin no line behind a continuation. The margin of a line is
then as wide as the column of its first token, and the tokens of the text are placed by it.
-/

set_option autoImplicit false
set_option relaxedAutoImplicit false

namespace DeferredDefaults

namespace Lexeme

def usesBlanks (lexeme : Lexeme) : Bool :=
  lexeme.kind != .space || lexeme.text.all (· == ' ')

/-- No continuation stands where no code has appeared since the last logical line ended. -/
def continuesLines : Phase → List Lexeme → Bool
  | _, [] => true
  | phase, lexeme :: rest => match lexeme.kind with
    | .continuation => !phase.fresh && continuesLines phase rest
    | .space => continuesLines phase rest
    | _ => continuesLines (phase.after lexeme) rest

private theorem continuesLines_gap {phase : Phase} {gap rest : List Lexeme}
    (isGap : ∀ lexeme ∈ gap, lexeme.IsGap)
    (continues : continuesLines phase (gap ++ rest) = true) :
    (phase.fresh = true → ∀ lexeme ∈ gap, lexeme.kind = .space) ∧
      continuesLines phase rest = true := by
  induction gap with
  | nil => exact ⟨fun _ => nofun, continues⟩
  | cons lexeme gap ih =>
    rw [List.forall_mem_cons] at isGap
    rw [List.cons_append, continuesLines] at continues
    rcases isGap.1.shape with ⟨kind, -⟩ | ⟨kind, -⟩
    · rw [kind] at continues
      obtain ⟨spaces, others⟩ := ih isGap.2 continues
      exact ⟨fun fresh => List.forall_mem_cons.2 ⟨kind, spaces fresh⟩, others⟩
    · simp only [kind, Bool.and_eq_true, Bool.not_eq_true'] at continues
      obtain ⟨-, others⟩ := ih isGap.2 continues.2
      refine ⟨fun fresh => ?_, others⟩
      rw [continues.1] at fresh
      cases fresh

private theorem not_space_of_reads {lexeme : Lexeme} {rest : List Lexeme}
    (reads : Reads (lexeme :: rest)) (space : lexeme.kind = .space) :
    ∀ next ∈ rest.head?, next.kind ≠ .space := by
  rintro next member isSpace
  cases rest with
  | nil => cases member
  | cons other rest =>
    cases member
    obtain ⟨filled, read, readsRest⟩ := reads
    rw [space, first_space_iff filled] at read
    obtain ⟨otherFilled, otherRead, -⟩ := readsRest
    rw [isSpace, first_space_iff otherFilled] at otherRead
    cases text : next.text with
    | nil => exact otherFilled text
    | cons c more =>
      rw [text, List.all_cons, Bool.and_eq_true] at otherRead
      simp [text, otherRead.1.1] at read

theorem gap_eq_blanks {gap rest : List Lexeme} (reads : Reads (gap ++ rest))
    (spaces : ∀ lexeme ∈ gap, lexeme.kind = .space)
    (blank : ∀ lexeme ∈ gap, lexeme.usesBlanks = true) :
    ∃ count, gap = spaceOf (List.replicate count ' ') := by
  cases gap with
  | nil => exact ⟨0, rfl⟩
  | cons lexeme others =>
    have alone : others = [] := by
      cases others with
      | nil => rfl
      | cons second others =>
        have kind := spaces second (by simp)
        exact absurd kind (not_space_of_reads reads (spaces lexeme (by simp)) second rfl)
    have isBlank := blank lexeme (by simp)
    have kind := spaces lexeme (by simp)
    simp only [usesBlanks, kind, bne_self_eq_false, Bool.false_or, List.all_eq_true,
      beq_iff_eq] at isBlank
    have text : lexeme.text = List.replicate lexeme.text.length ' ' :=
      List.eq_replicate_iff.2 ⟨rfl, isBlank⟩
    refine ⟨lexeme.text.length, ?_⟩
    rw [alone, ← text, spaceOf, if_neg reads.1, ← kind]

end Lexeme

namespace Layout

variable {phase : Phase} {layout : Layout} {last : Position} {lexemes : List Lexeme}

/-- What layout knows of a text that is indented by blanks, `last` being the place behind the last
token. -/
structure Indented (phase : Phase) (layout : Layout) (last : Position) (lexemes : List Lexeme) :
    Prop where
  inPhase : layout.InPhase phase
  blank : ∀ lexeme ∈ lexemes, lexeme.usesBlanks = true
  continues : Lexeme.continuesLines phase lexemes = true
  ahead : last ≤ layout.cursor
  row : phase.fresh = true → last.row = layout.cursor.row
  rowStart : phase.fresh = true →
    phase.rowStart = true ∨ ∀ next ∈ lexemes.head?, next.kind = .lineBreak

/-- In front of a lexeme on a fresh line: the row has not ended, and at its start the margin is as
wide as the column. -/
theorem Indented.cross {gap rest : List Lexeme}
    (indented : Indented phase layout last (gap ++ rest)) (reads : Lexeme.Reads (gap ++ rest))
    (isGap : ∀ lexeme ∈ gap, lexeme.IsGap) (fresh : phase.fresh = true) :
    (layout.cross gap).cursor.row = last.row ∧
      ((layout.cross gap).margin = List.replicate (layout.cross gap).cursor.col ' ' ∨
        ∀ next ∈ rest.head?, next.kind = .lineBreak) := by
  rcases indented.rowStart fresh with rowStart | ends
  · have spaces := (Lexeme.continuesLines_gap isGap indented.continues).1 fresh
    have blank := fun lexeme member => indented.blank lexeme (List.mem_append_left _ member)
    obtain ⟨count, rfl⟩ := Lexeme.gap_eq_blanks reads spaces blank
    have start := indented.inPhase.col rowStart
    rw [cross_blanks (indented.inPhase.fresh.trans fresh) start
      (indented.inPhase.margin rowStart fresh)]
    refine ⟨(indented.row fresh).symm, .inl ?_⟩
    simp only [Position.right, start, Nat.zero_add]
  · have none : gap = [] := by
      cases gap with
      | nil => rfl
      | cons lexeme others =>
        have isBreak := ends lexeme rfl
        rcases (isGap lexeme (by simp)).shape with ⟨kind, -⟩ | ⟨kind, -⟩ <;>
          rw [kind] at isBreak <;> cases isBreak
    subst none
    exact ⟨(indented.row fresh).symm, .inr ends⟩

theorem Indented.behind {gap rest : List Lexeme} {lexeme : Lexeme} {settled : Layout}
    (indented : Indented phase layout last (gap ++ lexeme :: rest))
    (same : settled = { layout.cross gap with blocks := settled.blocks })
    (reads : Lexeme.Reads (lexeme :: rest)) (isGap : ∀ lexeme ∈ gap, lexeme.IsGap)
    (hasToken : lexeme.kind.hasToken = true) :
    Indented (phase.after lexeme) (settled.behind lexeme)
      ((layout.cross gap).tokenFor lexeme).behind rest where
  inPhase := same ▸ indented.inPhase.behind gap settled.blocks lexeme
  blank := fun other member =>
    indented.blank other (List.mem_append_right _ (List.mem_cons_of_mem _ member))
  continues := by
    have continues := (Lexeme.continuesLines_gap isGap indented.continues).2
    rw [Lexeme.continuesLines] at continues
    cases kind : lexeme.kind <;> simp_all [Lexeme.Kind.hasToken, Lexeme.Kind.isCode]
  ahead := by
    rw [cursor_behind, same, tokenFor_blocks]
    exact Position.le_refl _
  row := by
    intro _
    have token : settled.tokenFor lexeme = (layout.cross gap).tokenFor lexeme := by
      rw [same, tokenFor_blocks]
    rw [cursor_behind, token]
  rowStart := by
    intro fresh
    by_cases isBreak : lexeme.kind = .lineBreak
    · exact .inl ((phase.rowStart_after lexeme).2 isBreak)
    · right
      refine Sigil.lineBreak_of_comment reads ?_
      cases kind : lexeme.kind <;> simp_all [Lexeme.Kind.hasToken, Lexeme.Kind.isCode, Phase.after]

private theorem placed_finish {gap : List Lexeme} {tokens : List Token}
    (indented : Indented phase layout last gap) (reads : Lexeme.Reads gap)
    (isGap : ∀ lexeme ∈ gap, lexeme.IsGap) (finished : (layout.cross gap).finish = .ok tokens) :
    Placed phase.fresh layout.blocks last tokens := by
  have closed := depth_of_finish finished
  have line : (layout.cross gap).lineHasCode = !phase.fresh := by
    rw [lineHasCode_cross, indented.inPhase.line]
  have ending : ∀ {place last : Position}, place = ⟨last.row, 0⟩ → Placed true layout.blocks last
      (layout.blocks.map (fun _ => dedentAt place) ++ [⟨.endMarker, "", place, place⟩]) := by
    intro place last isPlace
    rw [List.map_const']
    refine placed_dedents (by rw [isPlace]) ?_ ?_
    · rintro token ⟨⟩
      rfl
    · exact ⟨rfl, isPlace, rfl, rfl⟩
  rw [finish, if_neg (by omega), line, blocks_cross] at finished
  cases fresh : phase.fresh with
  | true =>
    rw [fresh] at finished
    cases finished
    refine ending ?_
    have reads' : Lexeme.Reads (gap ++ []) := by rwa [List.append_nil]
    have indented' : Indented phase layout last (gap ++ []) := by rwa [List.append_nil]
    simp [(indented'.cross reads' isGap fresh).1]
  | false =>
    rw [fresh] at finished
    cases finished
    simp only [Bool.not_false, if_true, List.singleton_append]
    refine (placed_token rfl).2 ⟨rfl, ?_, by rintro ⟨⟩, by rintro ⟨⟩, ending rfl⟩
    exact Position.le_trans indented.ahead (cursor_cross layout isGap).1

private theorem placed_first {lexeme : Lexeme} {blocks others : List Token} {settled : Layout}
    (filled : lexeme.text ≠ []) (isCode : lexeme.kind.isCode = true)
    (kind : (layout.tokenFor lexeme).kind = phase.kindOf lexeme.kind) (ahead : last ≤ layout.cursor)
    (row : layout.cursor.row = last.row)
    (margin : layout.margin = List.replicate layout.cursor.col ' ')
    (settles : layout.settle = .ok (blocks, settled))
    (placed : Placed (phase.after lexeme).fresh settled.blocks (layout.tokenFor lexeme).behind
      others) (fresh : phase.fresh = true) :
    Placed true layout.blocks last (blocks ++ layout.tokenFor lexeme :: others) := by
  have hasToken : lexeme.kind.hasToken = true := by simp [Lexeme.Kind.hasToken, isCode]
  obtain ⟨noLayout, -, -, freshAfter⟩ := Phase.traits hasToken kind
  have width : width layout.margin = layout.cursor.col := by rw [margin, width_blanks]
  have token : ∀ {columns : List Nat}, layout.cursor.col = columns.headD 0 →
      settled.blocks = columns →
        Placed true columns last (layout.tokenFor lexeme :: others) := by
    rintro columns col rfl
    rw [placed_token noLayout, start_tokenFor, ← fresh, ← freshAfter]
    exact ⟨fills_tokenFor layout filled, ahead, fun _ => row, fun _ _ => col, placed⟩
  rcases settle_eq_ok settles with ⟨-, rfl, rfl⟩ | ⟨returns, rfl, rfl⟩
  · refine ⟨rfl, ?_, by rw [← row]; rfl, row, ?_, token rfl (by rw [width]; rfl)⟩
    · rw [opening, margin]
      rfl
    · rintro next ⟨⟩
      exact start_tokenFor layout lexeme
  · rw [List.map_const']
    refine placed_dedents row ?_ (token ?_ (kept_eq layout))
    · rintro next ⟨⟩
      exact start_tokenFor layout lexeme
    · rw [← kept_eq, returns, width]

/-- The tokens of a text that is indented by blanks are placed. -/
theorem placed_run {tokens : List Token} (indented : Indented phase layout last lexemes)
    (reads : Lexeme.Reads lexemes) (ran : layout.run lexemes = .ok tokens) :
    Placed phase.fresh layout.blocks last tokens := by
  generalize size : lexemes.length = n
  induction n using Nat.strongRecOn generalizing lexemes layout phase last tokens with
  | ind n ih =>
    obtain ⟨gap, rest, rfl, isGap, head⟩ := Lexeme.exists_gap reads
    rw [run_gap isGap] at ran
    cases rest with
    | nil =>
      rw [List.append_nil] at indented reads
      exact placed_finish indented reads isGap ran
    | cons lexeme more =>
      obtain ⟨noSpace, noContinuation⟩ := head lexeme rfl
      have readsLexeme : Lexeme.Reads (lexeme :: more) := reads.drop
      have smaller : more.length < n := by
        rw [List.length_append, List.length_cons] at size
        omega
      have ahead : last ≤ (layout.cross gap).cursor :=
        Position.le_trans indented.ahead (cursor_cross layout isGap).1
      have fresh : (layout.cross gap).atLineStart = phase.fresh := by
        rw [atLineStart_cross, indented.inPhase.fresh]
      have crossed := indented.cross reads isGap
      obtain ⟨hasToken, cases⟩ := run_cons_eq_ok noSpace noContinuation ran
      have kind := indented.inPhase.kind_tokenFor gap lexeme
      obtain ⟨noLayout, significant, -, freshAfter⟩ := Phase.traits hasToken kind
      rcases cases with ⟨notFirst, others, rfl, ranRest⟩ |
        ⟨isFresh, isCode, blocks, settled, others, settles, rfl, ranRest⟩
      · rw [placed_token noLayout, ← freshAfter, start_tokenFor]
        refine ⟨fills_tokenFor _ readsLexeme.1, ahead, fun isFresh => (crossed isFresh).1, ?_, ?_⟩
        · intro isFresh isSignificant
          rw [fresh, isFresh, ← significant, isSignificant] at notFirst
          cases notFirst
        · have next := ih more.length smaller
            (indented.behind rfl readsLexeme isGap hasToken) readsLexeme.2.2 ranRest rfl
          rwa [blocks_behind, blocks_cross] at next
      · rw [fresh] at isFresh
        have next := ih more.length smaller
          (indented.behind (settle_blocks settles) readsLexeme isGap hasToken) readsLexeme.2.2
          ranRest rfl
        rw [blocks_behind] at next
        have margin := (crossed isFresh).2.resolve_right fun ends => by
          rw [ends lexeme rfl] at isCode
          cases isCode
        have placed := placed_first readsLexeme.1 isCode kind ahead (crossed isFresh).1 margin
          settles next isFresh
        rwa [isFresh, ← blocks_cross layout]

end Layout

end DeferredDefaults
