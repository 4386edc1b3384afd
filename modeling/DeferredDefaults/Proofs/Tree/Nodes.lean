import DeferredDefaults.Proofs.LateBinding.Exhaustive

/-!
What holds of every statement of a tree that has been read. A property that every row gives to the
statements it ends and to the headers it leaves waiting holds in the end of all statements, at any
depth. The reader keeps it row by row.
-/

set_option autoImplicit false
set_option relaxedAutoImplicit false

namespace DeferredDefaults

namespace Reader

/-- What holds of a statement where it is read: of one in a body, and of a header whose block is
still to come. -/
structure Kept (holds : Stmt → Prop) (opens : Opener → Prop) : Prop where
  trivia : ∀ tokens, holds (.trivia tokens)
  simple : ∀ line, Line.startsFunction line = false → holds (.simple line)
  compound : ∀ line, Line.startsFunction line = false → Line.endsWithColon line = true →
    opens (.compound line)
  function : ∀ {first : Token} {more behind : List Token} {header : Header},
    Line.startsFunction (first :: more) = true → Header.read first more = .ok (header, behind) →
    opens (.function { header with tail := header.tail ++ behind })
  inlineFunction : ∀ {first : Token} {more behind : List Token} {header : Header},
    Line.startsFunction (first :: more) = true → Header.read first more = .ok (header, behind) →
    holds (.inlineFunction header behind)
  close : ∀ {opener : Opener}, opens opener → ∀ (margin : Margin) (body : List Stmt),
    holds (opener.close margin body)

structure Keeps (holds : Stmt → Prop) (opens : Opener → Prop) (reader : Reader) : Prop where
  frames : ∀ frame ∈ reader.frames,
    opens frame.opener ∧ ∀ stmt ∈ bodyNodes frame.before, holds stmt
  body : ∀ stmt ∈ bodyNodes reader.body, holds stmt
  waiting : ∀ waiting ∈ reader.waiting, opens waiting.1

variable {holds : Stmt → Prop} {opens : Opener → Prop} {reader next : Reader}

private theorem holds_append {body : List Stmt} {stmt : Stmt}
    (before : ∀ node ∈ bodyNodes body, holds node) (own : ∀ node ∈ stmt.nodes, holds node) :
    ∀ node ∈ bodyNodes (body ++ [stmt]), holds node := by
  rw [bodyNodes_append, List.forall_mem_append, bodyNodes, bodyNodes, List.append_nil]
  exact ⟨before, own⟩

private theorem Keeps.push (keeps : reader.Keeps holds opens) {stmt : Stmt}
    (own : ∀ node ∈ stmt.nodes, holds node) : (reader.push stmt).Keeps holds opens :=
  ⟨keeps.frames, holds_append keeps.body own, keeps.waiting⟩

namespace Kept

variable (kept : Kept holds opens)
include kept

private theorem line (keeps : reader.Keeps holds opens) {first : Token} {more : List Token}
    (read : reader.line first more = .ok next) : next.Keeps holds opens := by
  have waits : ∀ {opener : Opener}, opens opener →
      { reader with waiting := some (opener, []) }.Keeps holds opens := by
    refine fun opened => ⟨keeps.frames, keeps.body, ?_⟩
    rintro waiting ⟨⟩
    exact opened
  unfold Reader.line at read
  split at read
  · next starts =>
    obtain ⟨⟨header, behind⟩, found, read⟩ := bind_eq_ok.1 read
    simp only at read
    split at read
    · cases read
      refine keeps.push ?_
      rw [Stmt.nodes, List.forall_mem_singleton]
      exact kept.inlineFunction starts found
    · cases read
      exact waits (kept.function starts found)
  · next other =>
    rw [Bool.not_eq_true] at other
    split at read
    · next colon =>
      cases read
      exact waits (kept.compound _ other colon)
    · cases read
      refine keeps.push ?_
      rw [Stmt.nodes, List.forall_mem_singleton]
      exact kept.simple _ other

private theorem closed {opener : Opener} (opened : opens opener) (margin : Margin)
    {body : List Stmt} (inside : ∀ node ∈ bodyNodes body, holds node) :
    ∀ node ∈ (opener.close margin body).nodes, holds node := by
  have own := kept.close opened margin body
  cases opener with
  | compound header =>
    rw [Opener.close, Stmt.nodes, List.forall_mem_cons]
    exact ⟨own, inside⟩
  | function header =>
    rw [Opener.close, Stmt.nodes, List.forall_mem_cons]
    exact ⟨own, inside⟩

private theorem statement (keeps : reader.Keeps holds opens) {row : Row}
    (read : reader.statement row = .ok next) : next.Keeps holds opens := by
  cases row with
  | trivia first more =>
    cases read
    refine keeps.push ?_
    rw [Stmt.nodes, List.forall_mem_singleton]
    exact kept.trivia _
  | line first more => exact kept.line keeps read
  | indent token | stop token => cases read
  | broken first fault => cases read
  | dedent token =>
    simp only [Reader.statement] at read
    split at read
    · cases read
    · next frame frames found =>
      cases read
      have open_ := keeps.frames
      rw [found, List.forall_mem_cons] at open_
      exact ⟨open_.2, holds_append open_.1.2 (kept.closed open_.1.1 _ keeps.body), keeps.waiting⟩

omit kept in
private theorem block (keeps : reader.Keeps holds opens) {opener : Opener} {leading : List Token}
    (waits : reader.waiting = some (opener, leading)) {row : Row}
    (read : reader.block opener leading row = .ok next) : next.Keeps holds opens := by
  have opened := keeps.waiting _ waits
  cases row with
  | trivia first more =>
    cases read
    refine ⟨keeps.frames, keeps.body, ?_⟩
    rintro waiting ⟨⟩
    exact opened
  | indent token =>
    cases read
    exact ⟨List.forall_mem_cons.2 ⟨⟨opened, keeps.body⟩, keeps.frames⟩, nofun, nofun⟩
  | line | dedent | stop | broken => cases read

private theorem step (keeps : reader.Keeps holds opens) {row : Row}
    (stepped : reader.step row = .ok next) :
    next.Keeps holds opens := by
  have moved : ∀ middle : Reader, middle.Keeps holds opens →
      next = { middle with last := row.lastStart } → next.Keeps holds opens := by
    rintro middle keeps rfl
    exact ⟨keeps.frames, keeps.body, keeps.waiting⟩
  unfold Reader.step at stepped
  split at stepped
  · next waits =>
    obtain ⟨middle, found, stepped⟩ := bind_eq_ok.1 stepped
    cases stepped
    exact moved middle (block keeps waits found) rfl
  · obtain ⟨middle, found, stepped⟩ := bind_eq_ok.1 stepped
    cases stepped
    exact moved middle (kept.statement keeps found) rfl

private theorem run (keeps : reader.Keeps holds opens) {rows : List Row} {body : List Stmt}
    (read : reader.run rows = .ok body) : ∀ stmt ∈ bodyNodes body, holds stmt := by
  induction rows generalizing reader with
  | nil =>
    rw [Reader.run, Reader.finish] at read
    split at read
    · cases read
    · cases read
    · cases read
      exact keeps.body
  | cons row rows ih =>
    rw [Reader.run] at read
    split at read
    · cases read
      exact keeps.body
    · obtain ⟨next, step, read⟩ := bind_eq_ok.1 read
      exact ih (kept.step keeps step) read

theorem ofTokens {tokens : List Token} {program : Program}
    (read : Program.ofTokens tokens = .ok program) : ∀ stmt ∈ bodyNodes program.body, holds stmt := by
  obtain ⟨body, ran, read⟩ := bind_eq_ok.1 read
  cases read
  have initial : Keeps holds opens {} :=
    ⟨List.forall_mem_nil _, List.forall_mem_nil _, fun _ found => nomatch found⟩
  exact kept.run initial ran

end Kept

end Reader

end DeferredDefaults
