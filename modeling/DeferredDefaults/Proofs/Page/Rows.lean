import Mathlib.Data.List.Induction
import DeferredDefaults.Proofs.Page.Statements

/-!
The tree of tokens that lie at the same distances can be printed at both places. Rows are gathered
along the seam between two tokens, and the tree that is read from them stays printable row by row.
-/

set_option autoImplicit false
set_option relaxedAutoImplicit false

namespace DeferredDefaults

section Gathering

variable (here there : Token → Token)

def Row.Prints : Row → Prop
  | .trivia first more =>
    Seam.start.Prints ((first :: more).map (Page.both here there)) ∧
      ∀ token ∈ first :: more, token.isTrivia = true
  | .line first more =>
    Seam.PrintsLine ((first :: more).map (Page.both here there)) ∧ EndsRow (first :: more)
  | .indent _ | .dedent _ | .stop _ | .broken _ _ => True

def Row.Closed : Row → Prop
  | .trivia first more => EndsRow (first :: more)
  | .line _ _ | .indent _ | .dedent _ | .stop _ | .broken _ _ => True

def Row.isClosing : Row → Bool
  | .dedent _ | .stop _ => true
  | _ => false

/-- Rows that can be printed. Behind trivia that do not end their row only blocks are closed. -/
def RowsPrint : List Row → Prop
  | [] => True
  | row :: rest =>
    row.Prints here there ∧ (row.Closed ∨ ∀ later ∈ rest, later.isClosing = true) ∧ RowsPrint rest

def Row.Begun.Leads (seam : Seam) : Row.Begun → Prop
  | .nothing => seam = Seam.start
  | .trivia first reversed =>
    seam = Seam.start.behind ((first :: reversed.reverse).map (Page.both here there)) ∧
      (Row.trivia first reversed.reverse).Prints here there
  | .line first reversed =>
    seam = Seam.behindLine ((first :: reversed.reverse).map (Page.both here there)) ∧
      seam.line = true ∧
      Seam.PrintsLine ((first :: reversed.reverse).map (Page.both here there))

end Gathering

private theorem Relocates.isClosing {move : Token → Token} (relocates : Relocates move)
    (token : Token) :
    (move token).isClosing = token.isClosing := by
  rw [Token.isClosing, relocates.kind, Token.isClosing]

private theorem EndsRow.append_break (tokens : List Token) {token : Token}
    (isBreak : token.isBreak = true) :
    EndsRow (tokens ++ [token]) := by
  intro last found
  rw [List.getLast?_append, List.getLast?_singleton, Option.some_or] at found
  cases found
  exact isBreak

private theorem EndsRow.of_append {front back : List Token} (ends : EndsRow (front ++ back)) :
    back ≠ [] → EndsRow back := by
  intro some last found
  apply ends last
  rw [List.getLast?_append_of_ne_nil _ some]
  exact found

/-- Behind trivia a line has not begun. The seam is a fresh one if they end their row. -/
private theorem Seam.behind_trivia {here : Token → Token} (relocates : Relocates here)
    (there : Token → Token) {tokens : List Token} (trivia : ∀ token ∈ tokens, token.isTrivia = true) :
    (start.behind (tokens.map (Page.both here there))).line = false ∧
      (EndsRow tokens → start.behind (tokens.map (Page.both here there)) = start) ∧
      ((start.behind (tokens.map (Page.both here there))).last = none → EndsRow tokens) := by
  induction tokens using List.reverseRecOn with
  | nil => exact ⟨rfl, fun _ => rfl, fun _ => nofun⟩
  | append_singleton front last ih =>
    rw [List.forall_mem_append, List.forall_mem_singleton] at trivia
    obtain ⟨line, _, _⟩ := ih trivia.1
    have traits : last.isLayout = false ∧ last.isSignificant = false ∧
        last.isOp "," = false := by
      have isTrivia := trivia.2
      rw [Token.isTrivia, Bool.or_eq_true, beq_iff_eq, beq_iff_eq] at isTrivia
      rcases isTrivia with kind | kind <;>
        simp [Token.isLayout, Token.isSignificant, Token.isTrivia, Token.isOp, kind]
    have behind : start.behind ((front ++ [last]).map (Page.both here there)) =
        ⟨false, last.isBreak, if last.isBreak then none
          else some ((here last).stop, (there last).stop)⟩ := by
      rw [List.map_append, behind_append, List.map_singleton]
      show (Seam.after _ _) = _
      rw [after_eq _ (by rw [Page.both, relocates.isLayout, traits.1]), line]
      simp [Page.both, relocates.isBreak, relocates.isSignificant, traits]
    rw [behind]
    refine ⟨rfl, fun ends => ?_, fun none => ?_⟩
    · rw [ends last (by simp)]
      rfl
    · apply EndsRow.append_break
      by_contra open_
      simp [open_] at none

namespace Row

variable {here there : Token → Token}

private theorem gather_closing {tokens : List Token}
    (closing : ∀ token ∈ tokens, token.isClosing = true) :
    ∀ row ∈ gather .nothing tokens, row.isClosing = true := by
  induction tokens with
  | nil =>
    simp only [gather, Begun.ended]
    exact List.forall_mem_nil _
  | cons token rest ih =>
    rw [List.forall_mem_cons] at closing
    have isClosing := closing.1
    rw [Token.isClosing, Bool.or_eq_true, beq_iff_eq, beq_iff_eq] at isClosing
    rcases isClosing with kind | kind
    · simp only [gather, kind, Begun.ended, List.nil_append, List.forall_mem_cons]
      exact ⟨rfl, ih closing.2⟩
    · simp only [gather, kind, Begun.ended, List.nil_append, List.forall_mem_singleton]
      rfl

section Places

variable (relocates : Relocates here ∧ Relocates there) {seam : Seam}
include relocates

private theorem rowsPrint_ended {begun : Begun} (leads : begun.Leads here there seam)
    {rows : List Row} (prints : RowsPrint here there rows)
    (rowEnd : seam.last = none ∨ ∀ row ∈ rows, row.isClosing = true) :
    RowsPrint here there (begun.ended ++ rows) := by
  cases begun with
  | nothing => exact prints
  | line first reversed => exact prints
  | trivia first reversed =>
    obtain ⟨isSeam, printsTrivia⟩ := leads
    have ends := (Seam.behind_trivia relocates.1 there printsTrivia.2).2.2
    rw [← isSeam] at ends
    exact ⟨printsTrivia, rowEnd.imp_left ends, prints⟩

private theorem line_of_isBetween {begun : Begun} (leads : begun.Leads here there seam)
    (between : begun.isBetween = true) : seam.line = false := by
  cases begun with
  | nothing =>
    rw [leads]
    rfl
  | trivia first reversed =>
    rw [leads.1]
    exact (Seam.behind_trivia relocates.1 there leads.2.2).1
  | line first reversed => cases between

private theorem leads_addTrivia {begun : Begun} (leads : begun.Leads here there seam)
    (between : begun.isBetween = true) {token : Token} (trivia : token.isTrivia = true)
    (fits : seam.Fits (Page.both here there token)) :
    (begun.addTrivia token).Leads here there (seam.after (Page.both here there token)) := by
  have admits : seam.Admits (Page.both here there token) := by
    have kind := trivia
    rw [Token.isTrivia, Bool.or_eq_true, beq_iff_eq, beq_iff_eq] at kind
    refine ⟨?_, ?_, fits⟩
    · rw [Page.both, relocates.1.isLayout]
      rcases kind with kind | kind <;> simp [Token.isLayout, kind]
    · rw [Page.both, relocates.1.isOp, Token.isOp_of_isTrivia trivia]
      rintro ⟨⟩
  cases begun with
  | nothing =>
    rw [leads] at admits ⊢
    exact ⟨rfl, ⟨admits, trivial⟩, by simpa using trivia⟩
  | line first reversed => cases between
  | trivia first reversed =>
    obtain ⟨isSeam, prints, allTrivia⟩ := leads
    have more : (first :: (token :: reversed).reverse).map (Page.both here there) =
        (first :: reversed.reverse).map (Page.both here there) ++ [Page.both here there token] := by
      simp
    refine ⟨?_, ?_, ?_⟩
    · rw [more, Seam.behind_append, ← isSeam]
      rfl
    · rw [more, Seam.prints_append, ← isSeam]
      exact ⟨prints, admits, trivial⟩
    · simp only [List.reverse_cons, ← List.cons_append, List.forall_mem_append,
        List.forall_mem_singleton]
      exact ⟨allTrivia, trivia⟩

private theorem leads_first {token : Token} (between : seam.line = false)
    (significant : token.isSignificant = true) :
    (Begun.line token []).Leads here there (seam.after (Page.both here there token)) := by
  have traits : token.isLayout = false ∧ (token.kind != .newline) = true := by
    simp only [Token.isSignificant, Bool.not_eq_true', Bool.or_eq_false_iff] at significant
    exact ⟨significant.2, by simpa using significant.1.2⟩
  have noLayout : (Page.both here there token).1.isLayout = false := by
    rw [Page.both, relocates.1.isLayout, traits.1]
  have noNewline : ((Page.both here there token).1.kind != .newline) = true := by
    rw [Page.both, relocates.1.kind, traits.2]
  have isSignificant : (Page.both here there token).1.isSignificant = true := by
    rw [Page.both, relocates.1.isSignificant, significant]
  refine ⟨?_, ?_, Seam.admits_lineAt noLayout, trivial⟩
  · show _ = Seam.after _ _
    simp [Seam.after_eq _ noLayout, between, isSignificant, Seam.lineAt]
  · simp [Seam.after_eq _ noLayout, isSignificant, noNewline]

private theorem prints_more {first token : Token} {reversed : List Token}
    (leads : (Begun.line first reversed).Leads here there seam) (noLayout : token.isLayout = false)
    (fits : seam.Fits (Page.both here there token)) :
    Seam.PrintsLine ((first :: (token :: reversed).reverse).map (Page.both here there)) ∧
      Seam.behindLine ((first :: (token :: reversed).reverse).map (Page.both here there)) =
        seam.after (Page.both here there token) := by
  obtain ⟨isSeam, line, prints⟩ := leads
  have more : (first :: (token :: reversed).reverse).map (Page.both here there) =
      (first :: reversed.reverse).map (Page.both here there) ++ [Page.both here there token] := by
    simp
  have some : (first :: reversed.reverse).map (Page.both here there) ≠ [] := by simp
  rw [more, Seam.printsLine_append some, Seam.behindLine_append some, ← isSeam]
  refine ⟨⟨prints, ⟨?_, fun _ => line, fits⟩, trivial⟩, rfl⟩
  rw [Page.both, relocates.1.isLayout, noLayout]

private theorem rowsPrint_gather {begun : Begun} {tokens : List Token}
    (leads : begun.Leads here there seam) (laid : seam.Laid (tokens.map (Page.both here there))) :
    RowsPrint here there (gather begun tokens) := by
  induction tokens generalizing begun seam with
  | nil =>
    cases begun with
    | nothing => trivial
    | line first reversed => exact ⟨trivial, .inl trivial, trivial⟩
    | trivia first reversed => exact ⟨leads.2, .inr (List.forall_mem_nil _), trivial⟩
  | cons token rest ih =>
    obtain ⟨joins, laid⟩ := laid
    have layout : token.isLayout = true →
        RowsPrint here there (gather .nothing rest) := by
      intro isLayout
      refine ih ?_ laid
      show Seam.after _ _ = _
      rw [Seam.after, Page.both, relocates.1.isLayout, isLayout]
      rfl
    have newline : token.kind = .newline → RowsPrint here there (gather .nothing rest) := by
      intro kind
      refine ih ?_ laid
      show Seam.after _ _ = _
      rw [Seam.after_eq _ (by simp [Page.both, Token.isLayout, relocates.1.kind, kind])]
      simp [Page.both, Token.isBreak, relocates.1.kind, kind, Seam.start]
    have fits : token.isLayout = false → (seam.line || !token.isSignificant) = true →
        seam.Fits (Page.both here there token) := by
      intro noLayout free
      apply joins.fits
      · rw [Page.both, relocates.1.isLayout, noLayout]
      · rw [Page.both, relocates.1.isSignificant, free]
    have between : begun.isBetween = true → RowsPrint here there (gather begun (token :: rest)) := by
      intro isBetween
      have line := line_of_isBetween relocates leads isBetween
      have rowEnd : token.isTrivia = false →
          seam.last = none ∨ ∀ other ∈ token :: rest, other.isClosing = true := by
        intro noTrivia
        refine (joins.rowEnd line ?_).imp_right fun closing other member => ?_
        · rw [Page.both, relocates.1.isTrivia, noTrivia]
        · rw [← relocates.1.isClosing]
          exact closing (Page.both here there other) (List.mem_map_of_mem member)
      have rowEnded : token.isTrivia = false → token.isClosing = false → seam.last = none := by
        intro noTrivia noClosing
        refine (rowEnd noTrivia).resolve_right fun closing => ?_
        rw [closing token List.mem_cons_self] at noClosing
        cases noClosing
      rw [gather_of_isBetween isBetween]
      cases kind : token.kind with
      | comment | nl =>
        refine ih (leads_addTrivia relocates leads isBetween ?_ (fits ?_ ?_)) laid
        · simp [Token.isTrivia, kind]
        · simp [Token.isLayout, kind]
        · simp [Token.isSignificant, Token.isTrivia, kind]
      | indent =>
        refine rowsPrint_ended relocates leads ⟨trivial, .inl trivial, layout ?_⟩
          (.inl (rowEnded ?_ ?_))
        · simp [Token.isLayout, kind]
        · simp [Token.isTrivia, kind]
        · simp [Token.isClosing, kind]
      | dedent =>
        refine rowsPrint_ended relocates leads ⟨trivial, .inl trivial, layout ?_⟩
          ((rowEnd ?_).imp_right fun closing => ?_)
        · simp [Token.isLayout, kind]
        · simp [Token.isTrivia, kind]
        · rw [List.forall_mem_cons] at closing ⊢
          exact ⟨rfl, gather_closing closing.2⟩
      | endMarker =>
        refine rowsPrint_ended relocates leads ⟨trivial, .inl trivial, trivial⟩ (.inr ?_)
        rw [List.forall_mem_singleton]
        rfl
      | newline =>
        refine rowsPrint_ended relocates leads ⟨⟨⟨Seam.admits_lineAt ?_, trivial⟩, ?_⟩, .inl trivial,
          newline kind⟩ (.inl (rowEnded ?_ ?_))
        · simp [Page.both, Token.isLayout, relocates.1.kind, kind]
        · exact EndsRow.append_break [] (by simp [Token.isBreak, kind])
        · simp [Token.isTrivia, kind]
        · simp [Token.isClosing, kind]
      | name | number | string | op | stray =>
        refine rowsPrint_ended relocates leads (ih (leads_first relocates line ?_) laid)
          (.inl (rowEnded ?_ ?_))
        · simp [Token.isSignificant, Token.isTrivia, Token.isLayout, kind]
        · simp [Token.isTrivia, kind]
        · simp [Token.isClosing, kind]
    cases begun with
    | nothing => exact between rfl
    | trivia first reversed => exact between rfl
    | line first reversed =>
      have line := leads.2.1
      have more : token.isLayout = false → token.kind ≠ .newline →
          RowsPrint here there (gather (.line first (token :: reversed)) rest) := by
        intro noLayout noNewline
        obtain ⟨prints, behind⟩ := prints_more relocates leads noLayout
          (fits noLayout (by rw [line, Bool.true_or]))
        refine ih ⟨behind.symm, ?_, prints⟩ laid
        rw [Seam.after_eq _ (by rw [Page.both, relocates.1.isLayout, noLayout]), line]
        simp [Page.both, relocates.1.kind, noNewline]
      cases kind : token.kind with
      | indent | dedent | endMarker =>
        simp only [gather, kind]
        exact ⟨trivial, .inl trivial, trivial⟩
      | newline =>
        have noLayout : token.isLayout = false := by simp [Token.isLayout, kind]
        obtain ⟨prints, _⟩ := prints_more relocates leads noLayout
          (fits noLayout (by rw [line, Bool.true_or]))
        simp only [gather, kind]
        refine ⟨⟨prints, ?_⟩, .inl trivial, newline kind⟩
        rw [List.reverse_cons, ← List.cons_append]
        exact EndsRow.append_break _ (by simp [Token.isBreak, kind])
      | name | number | string | op | comment | nl | stray =>
        simp only [gather, kind]
        exact more (by simp [Token.isLayout, kind]) (by simp [kind])

end Places

end Row

section Body

variable {here there : Token → Token}

theorem bodyClosed_append {front back : List Stmt} :
    BodyClosed (front ++ back) ↔ BodyClosed front ∧ BodyClosed back := by
  induction front with
  | nil => simp [BodyClosed]
  | cons stmt rest ih => simp only [List.cons_append, BodyClosed, ih, and_assoc]

private theorem bodyPrints_append {front back : List Stmt} (prints : BodyPrints here there front)
    (others : BodyPrints here there back)
    (order : BodyClosed front ∨ ∀ stmt ∈ back, stmt.isTrivia = false) :
    BodyPrints here there (front ++ back) := by
  induction front with
  | nil => exact others
  | cons stmt rest ih =>
    obtain ⟨first, firstOrder, restPrints⟩ := prints
    refine ⟨first, ?_, ih restPrints (order.imp_left And.right)⟩
    rcases order with closed | noTrivia
    · exact .inl closed.1
    · exact firstOrder.imp_right fun restNoTrivia =>
        List.forall_mem_append.2 ⟨restNoTrivia, noTrivia⟩

theorem bodyPrints_singleton {stmt : Stmt} (prints : stmt.Prints here there) :
    BodyPrints here there [stmt] := ⟨prints, .inr nofun, trivial⟩

end Body

def Opener.Prints (here there : Token → Token) : Opener → Prop
  | .compound header =>
    Seam.PrintsLine (header.map (Page.both here there)) ∧ EndsRow header
  | .function header =>
    header.Prints here there ∧ header.tail ≠ [] ∧ EndsRow header.tail

private theorem Header.prints_read {here there : Token → Token} {first : Token}
    {more behind : List Token} {header : Header}
    (found : Header.read first more = .ok (header, behind))
    (line : (Row.line first more).Prints here there) :
    header.Prints here there ∧
      (Seam.behindLine (header.tokens.map (Page.both here there))).Prints
        (behind.map (Page.both here there)) ∧
      header.tail ≠ [] ∧ EndsRow (header.tail ++ behind) := by
  obtain ⟨begins, tail, plain⟩ := Header.plain_read found
  obtain ⟨prints, ends⟩ := line
  have some : header.tokens.map (Page.both here there) ≠ [] := by
    simp [Header.tokens, begins]
  rw [← Header.tokens_read found, List.map_append, Seam.printsLine_append some] at prints
  refine ⟨⟨begins, fun item member => (plain item member).whole, prints.1⟩, prints.2, tail, ?_⟩
  rw [← Header.tokens_read found, Header.tokens, List.append_assoc] at ends
  exact ends.of_append (by simp [tail])

namespace Reader

/-- What has been read can be printed at two places. -/
structure Prints (here there : Token → Token) (reader : Reader) : Prop where
  body : BodyPrints here there reader.body
  frames : ∀ frame ∈ reader.frames, frame.opener.Prints here there ∧
    frame.margin.Prints here there ∧ frame.margin.indent.isSome ∧
    BodyPrints here there frame.before
  waiting : ∀ waiting ∈ reader.waiting, waiting.1.Prints here there ∧
    Seam.start.Prints (waiting.2.map (Page.both here there)) ∧
    ∀ token ∈ waiting.2, token.isTrivia = true

structure Closed (reader : Reader) : Prop where
  body : BodyClosed reader.body
  frames : ∀ frame ∈ reader.frames, BodyClosed frame.before
  waiting : ∀ waiting ∈ reader.waiting, EndsRow waiting.2

variable {here there : Token → Token} {reader next : Reader}

private theorem Prints.push (prints : reader.Prints here there) (closed : reader.Closed)
    {stmt : Stmt} (stmtPrints : stmt.Prints here there) : (reader.push stmt).Prints here there where
  body := bodyPrints_append prints.body (bodyPrints_singleton stmtPrints) (.inl closed.body)
  frames := prints.frames
  waiting := prints.waiting

private theorem Closed.push (closed : reader.Closed) {stmt : Stmt} (stmtClosed : stmt.Closed) :
    (reader.push stmt).Closed where
  body := bodyClosed_append.2 ⟨closed.body, stmtClosed, trivial⟩
  frames := closed.frames
  waiting := closed.waiting

private theorem prints_line (prints : reader.Prints here there) (closed : reader.Closed)
    {first : Token} {more : List Token}
    (line : (Row.line first more).Prints here there)
    (read : reader.line first more = .ok next) : next.Prints here there ∧ next.Closed := by
  unfold Reader.line at read
  split at read
  · obtain ⟨⟨header, behind⟩, found, read⟩ := bind_eq_ok.1 read
    obtain ⟨printsHeader, printsBehind, tail, ends⟩ := Header.prints_read found line
    simp only at read
    split at read
    · next code =>
      cases read
      have some : behind ≠ [] := by
        rintro rfl
        cases code
      have alone := Seam.printsLine_of_prints printsBehind (by simpa using some)
      exact ⟨prints.push closed ⟨printsHeader, printsBehind, alone, ends.of_append some⟩,
        closed.push trivial⟩
    · cases read
      refine ⟨⟨prints.body, prints.frames, ?_⟩, ⟨closed.body, closed.frames, ?_⟩⟩
      · rintro waiting ⟨⟩
        have whole : ({ header with tail := header.tail ++ behind } : Header).tokens =
            header.tokens ++ behind := by simp [Header.tokens]
        have some : header.tokens.map (Page.both here there) ≠ [] := by
          simp [Header.tokens, tail]
        refine ⟨⟨⟨printsHeader.begins, printsHeader.whole, ?_⟩, by simp [tail], ends⟩, trivial,
          List.forall_mem_nil _⟩
        rw [whole, List.map_append, Seam.printsLine_append some]
        exact ⟨printsHeader.line, printsBehind⟩
      · rintro waiting ⟨⟩ _ ⟨⟩
  · split at read
    · cases read
      refine ⟨⟨prints.body, prints.frames, ?_⟩, ⟨closed.body, closed.frames, ?_⟩⟩
      · rintro waiting ⟨⟩
        exact ⟨line, trivial, List.forall_mem_nil _⟩
      · rintro waiting ⟨⟩ _ ⟨⟩
    · cases read
      exact ⟨prints.push closed line, closed.push trivial⟩

private theorem prints_close {frame : Frame} (opener : frame.opener.Prints here there)
    (margin : frame.margin.Prints here there) (indent : frame.margin.indent.isSome)
    {body : List Stmt} (prints : BodyPrints here there body) :
    (frame.opener.close frame.margin body).Prints here there ∧
      (frame.opener.close frame.margin body).isTrivia = false := by
  obtain ⟨isOpener, ⟨leading, found⟩, before⟩ := frame
  cases found with
  | none => cases indent
  | some token =>
    cases isOpener with
    | compound header => exact ⟨⟨opener, margin, prints⟩, rfl⟩
    | function header => exact ⟨⟨opener.1, margin, opener.2, prints⟩, rfl⟩

private theorem closed_close {frame : Frame} {body : List Stmt} (closed : BodyClosed body) :
    (frame.opener.close frame.margin body).Closed := by
  obtain ⟨opener, margin, before⟩ := frame
  cases opener with
  | compound header => exact closed
  | function header => exact closed

/-- A row where a statement may begin. Blocks are closed whatever trivia they hold. -/
private theorem prints_statement (prints : reader.Prints here there) {row : Row} {rest : List Row}
    (rows : RowsPrint here there (row :: rest))
    (ready : reader.Closed ∨ ∀ later ∈ row :: rest, later.isClosing = true)
    (read : reader.statement row = .ok next) :
    next.Prints here there ∧ (next.Closed ∨ ∀ later ∈ rest, later.isClosing = true) := by
  obtain ⟨rowPrints, rowClosed, _⟩ := rows
  have closed : row.isClosing = false → reader.Closed := by
    intro noClosing
    refine ready.resolve_right fun closing => ?_
    rw [closing row List.mem_cons_self] at noClosing
    cases noClosing
  cases row with
  | trivia first more =>
    cases read
    exact ⟨prints.push (closed rfl) rowPrints.1, rowClosed.imp_left (closed rfl).push⟩
  | line first more =>
    obtain ⟨nextPrints, nextClosed⟩ := prints_line prints (closed rfl) rowPrints read
    exact ⟨nextPrints, .inl nextClosed⟩
  | indent token => cases read
  | stop token => cases read
  | broken first fault => cases read
  | dedent token =>
    simp only [Reader.statement] at read
    split at read
    · cases read
    · next frame frames found =>
      cases read
      have inFrames := prints.frames
      rw [found, List.forall_mem_cons] at inFrames
      obtain ⟨⟨opener, margin, indent, before⟩, others⟩ := inFrames
      obtain ⟨closing, noTrivia⟩ := prints_close opener margin indent prints.body
      refine ⟨⟨?_, others, prints.waiting⟩, ready.imp (fun closed => ?_) fun closing => ?_⟩
      · refine bodyPrints_append before (bodyPrints_singleton closing) (.inr ?_)
        rw [List.forall_mem_singleton]
        exact noTrivia
      · have closedFrames := closed.frames
        rw [found, List.forall_mem_cons] at closedFrames
        exact ⟨bodyClosed_append.2 ⟨closedFrames.1, closed_close closed.body, trivial⟩,
          closedFrames.2, closed.waiting⟩
      · exact fun later member => closing later (List.mem_cons_of_mem _ member)

private theorem prints_block (relocates : Relocates here) (prints : reader.Prints here there)
    {opener : Opener} {leading : List Token} (waits : reader.waiting = some (opener, leading))
    {row : Row} {rest : List Row} (rows : RowsPrint here there (row :: rest))
    (ready : reader.Closed ∨ ∀ later ∈ row :: rest, later.isClosing = true)
    (read : reader.block opener leading row = .ok next) :
    next.Prints here there ∧ (next.Closed ∨ ∀ later ∈ rest, later.isClosing = true) := by
  obtain ⟨rowPrints, rowClosed, _⟩ := rows
  have closed : row.isClosing = false → reader.Closed := by
    intro noClosing
    refine ready.resolve_right fun closing => ?_
    rw [closing row List.mem_cons_self] at noClosing
    cases noClosing
  obtain ⟨opens, printsLeading, trivia⟩ := prints.waiting _ waits
  cases row with
  | trivia first more =>
    cases read
    have ends := (closed rfl).waiting _ waits
    refine ⟨⟨prints.body, prints.frames, ?_⟩, rowClosed.imp_left fun rowEnds => ?_⟩
    · rintro waiting ⟨⟩
      refine ⟨opens, ?_, List.forall_mem_append.2 ⟨trivia, rowPrints.2⟩⟩
      rw [List.map_append, Seam.prints_append,
        (Seam.behind_trivia relocates there trivia).2.1 ends]
      exact ⟨printsLeading, rowPrints.1⟩
    · refine ⟨(closed rfl).body, (closed rfl).frames, ?_⟩
      rintro waiting ⟨⟩
      intro last found
      rw [List.getLast?_append_of_ne_nil _ (List.cons_ne_nil _ _)] at found
      exact rowEnds last found
  | indent token =>
    cases read
    have ends := (closed rfl).waiting _ waits
    refine ⟨⟨trivial, ?_, nofun⟩, .inl ⟨trivial, ?_, nofun⟩⟩
    · rw [List.forall_mem_cons]
      exact ⟨⟨opens, ⟨printsLeading, ends⟩, rfl, prints.body⟩, prints.frames⟩
    · rw [List.forall_mem_cons]
      exact ⟨(closed rfl).body, (closed rfl).frames⟩
  | line first more => cases read
  | dedent token => cases read
  | stop token => cases read
  | broken first fault => cases read

private theorem prints_step (relocates : Relocates here) (prints : reader.Prints here there)
    {row : Row} {rest : List Row} (rows : RowsPrint here there (row :: rest))
    (ready : reader.Closed ∨ ∀ later ∈ row :: rest, later.isClosing = true)
    (stepped : reader.step row = .ok next) :
    next.Prints here there ∧ (next.Closed ∨ ∀ later ∈ rest, later.isClosing = true) := by
  have kept : ∃ read : Reader, (read.Prints here there ∧
      (read.Closed ∨ ∀ later ∈ rest, later.isClosing = true)) ∧
      next = { read with last := row.lastStart } := by
    unfold Reader.step at stepped
    split at stepped
    · next opener leading waits =>
      obtain ⟨read, found, stepped⟩ := bind_eq_ok.1 stepped
      cases stepped
      exact ⟨read, prints_block relocates prints waits rows ready found, rfl⟩
    · obtain ⟨read, found, stepped⟩ := bind_eq_ok.1 stepped
      cases stepped
      exact ⟨read, prints_statement prints rows ready found, rfl⟩
  obtain ⟨read, ⟨readPrints, order⟩, rfl⟩ := kept
  exact ⟨⟨readPrints.body, readPrints.frames, readPrints.waiting⟩,
    order.imp_left fun closed => ⟨closed.body, closed.frames, closed.waiting⟩⟩

private theorem prints_run (relocates : Relocates here) {rows : List Row}
    (prints : reader.Prints here there) (rowsPrint : RowsPrint here there rows)
    (ready : reader.Closed ∨ ∀ later ∈ rows, later.isClosing = true) {body : List Stmt}
    (ran : reader.run rows = .ok body) : BodyPrints here there body := by
  induction rows generalizing reader with
  | nil =>
    simp only [Reader.run, Reader.finish] at ran
    split at ran
    · cases ran
    · cases ran
    · cases ran
      exact prints.body
  | cons row rest ih =>
    rw [Reader.run] at ran
    split at ran
    · cases ran
      exact prints.body
    · obtain ⟨next, stepped, ran⟩ := bind_eq_ok.1 ran
      obtain ⟨nextPrints, order⟩ := prints_step relocates prints rowsPrint ready stepped
      exact ih nextPrints rowsPrint.2.2 order ran

end Reader

/-- The tree of tokens that lie at the same distances can be printed at both places. -/
theorem Program.prints_ofTokens {here there : Token → Token}
    (relocates : Relocates here ∧ Relocates there) {tokens : List Token}
    (laid : Seam.start.Laid (tokens.map (Page.both here there))) {program : Program}
    (read : Program.ofTokens tokens = .ok program) : BodyPrints here there program.body := by
  obtain ⟨body, ran, read⟩ := bind_eq_ok.1 read
  cases read
  have rows : RowsPrint here there (Row.ofTokens tokens) :=
    Row.rowsPrint_gather relocates (rfl : Row.Begun.Leads here there Seam.start .nothing) laid
  have prints : ({} : Reader).Prints here there := ⟨trivial, List.forall_mem_nil _, nofun⟩
  have closed : ({} : Reader).Closed := ⟨trivial, List.forall_mem_nil _, nofun⟩
  exact Reader.prints_run relocates.1 prints rows (.inl closed) ran

end DeferredDefaults
