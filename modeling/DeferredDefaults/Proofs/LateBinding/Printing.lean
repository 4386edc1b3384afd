import DeferredDefaults.LateBinding
import DeferredDefaults.Proofs.Page.Rows

/-!
Late binding keeps a tree printable at two places: headers keep their tokens, and the statements
that are put in between hold no trivia.
-/

set_option autoImplicit false
set_option relaxedAutoImplicit false

namespace DeferredDefaults

namespace LateBinding

variable {here there : Token → Token} {marker : String}

private theorem whole_parameter {scope : Scope} {passed : Scope.Passed} {value next : Parameter}
    {resolutions : List Resolution} (whole : (ParameterItem.parameter value).Whole)
    (found : parameter marker scope passed value = .ok (next, resolutions)) :
    (ParameterItem.parameter next).Whole := by
  unfold parameter at found
  split at found
  · split at found
    · cases found
      exact whole
    · obtain ⟨deferred, read, found⟩ := bind_eq_ok.1 found
      split at found
      · cases found
        exact whole
      · cases found
        rintro default ⟨⟩
        exact MarkerCall.whole_ofTokens? (Deferred.ofTokens?_eq_some read)
  · cases found
    exact whole

private theorem whole_items {scope : Scope} {passed : Scope.Passed} {list next : List ParameterItem}
    {resolutions : List Resolution} (whole : ∀ item ∈ list, item.Whole)
    (found : items marker scope passed list = .ok (next, resolutions)) :
    ∀ item ∈ next, item.Whole := by
  induction list generalizing passed next resolutions with
  | nil =>
    cases found
    exact whole
  | cons item rest ih =>
    rw [List.forall_mem_cons] at whole
    cases item with
    | separator value =>
      obtain ⟨⟨others, own⟩, read, found⟩ := bind_eq_ok.1 found
      cases found
      exact List.forall_mem_cons.2 ⟨trivial, ih whole.2 read⟩
    | parameter value =>
      obtain ⟨⟨first, own⟩, read, found⟩ := bind_eq_ok.1 found
      obtain ⟨⟨others, more⟩, readRest, found⟩ := bind_eq_ok.1 found
      cases found
      exact List.forall_mem_cons.2 ⟨whole_parameter whole.1 read, ih whole.2 readRest⟩

private theorem prints_header {first next : Header} {resolutions : List Resolution}
    (prints : first.Prints here there) (found : header marker first = .ok (next, resolutions)) :
    next.Prints here there ∧ next.tail = first.tail ∧
      ∀ line, first.PrintsSuite here there line → next.PrintsSuite here there line := by
  have same := tokens_header found
  obtain ⟨⟨list, own⟩, read, found⟩ := bind_eq_ok.1 found
  cases found
  refine ⟨⟨prints.begins, whole_items prints.whole read, ?_⟩, rfl, fun line suite => ?_⟩
  · rw [same]
    exact prints.line
  · refine ⟨?_, suite.alone, suite.ends⟩
    rw [same]
    exact suite.behind

private theorem prints_insertAt {body : List Stmt} (prints : BodyPrints here there body)
    (stmt : Stmt) (stmtPrints : stmt.Prints here there) (closed : stmt.Closed)
    (noTrivia : stmt.isTrivia = false) (index : Nat) :
    BodyPrints here there (insertAt index stmt body) := by
  induction body generalizing index with
  | nil =>
    rw [insertAt, List.take_nil, List.drop_nil]
    exact bodyPrints_singleton stmtPrints
  | cons first rest ih =>
    cases index with
    | zero => exact ⟨stmtPrints, .inl closed, prints⟩
    | succ index =>
      obtain ⟨firstPrints, order, restPrints⟩ := prints
      refine ⟨firstPrints, order.imp_right fun restNoTrivia later member => ?_, ih restPrints index⟩
      rcases mem_insertAt.1 member with rfl | member
      · exact noTrivia
      · exact restNoTrivia later member

private theorem closed_insertAt {body : List Stmt} (bodyClosed : BodyClosed body) (stmt : Stmt)
    (closed : stmt.Closed) (index : Nat) : BodyClosed (insertAt index stmt body) := by
  rw [← List.take_append_drop index body, bodyClosed_append] at bodyClosed
  exact bodyClosed_append.2 ⟨bodyClosed.1, closed, bodyClosed.2⟩

private theorem prints_addPrologue {body : List Stmt} (prints : BodyPrints here there body)
    (resolutions : List Resolution) : BodyPrints here there (addPrologue resolutions body) :=
  prints_insertAt prints (.prologue resolutions) trivial trivial rfl _

/-- What late binding makes of a statement: one without a block or a suite stays as it is, and every
function has a block in the end. -/
theorem cases_of_statement {source stmt : Stmt} (bound : statement marker source = .ok stmt) :
    source = stmt ∨
      (∃ first margin body next,
        source = .compound first margin body ∧ stmt = .compound first margin next) ∨
      ∃ header margin body, stmt = .function header margin body ∧
        ((∃ old inner, source = .function old margin inner) ∨
          ∃ old line, source = .inlineFunction old line) := by
  cases source with
  | trivia | simple | prologue | runtimeImport =>
    cases bound
    exact .inl rfl
  | compound first margin body =>
    obtain ⟨inner, _, bound⟩ := bind_eq_ok.1 bound
    cases bound
    exact .inr (.inl ⟨first, margin, body, inner, rfl, rfl⟩)
  | function first margin body =>
    obtain ⟨found, _, bound⟩ := bind_eq_ok.1 bound
    obtain ⟨inner, _, bound⟩ := bind_eq_ok.1 bound
    cases bound
    exact .inr (.inr ⟨_, _, _, rfl, .inl ⟨_, _, rfl⟩⟩)
  | inlineFunction first line =>
    obtain ⟨found, _, bound⟩ := bind_eq_ok.1 bound
    cases bound
    exact .inr (.inr ⟨_, _, _, rfl, .inr ⟨_, _, rfl⟩⟩)

theorem sort_of_statement {source stmt : Stmt} (bound : statement marker source = .ok stmt) :
    stmt.isTrivia = source.isTrivia ∧ stmt.isDocstring = source.isDocstring ∧
      stmt.isFutureImport = source.isFutureImport := by
  obtain rfl | ⟨_, _, _, _, rfl, rfl⟩ | ⟨_, _, _, rfl, ⟨_, _, rfl⟩ | ⟨_, _, rfl⟩⟩ :=
    cases_of_statement bound
  all_goals exact ⟨rfl, rfl, rfl⟩

/-- Late binding leaves trivia, docstrings and imports from `__future__` as they are. -/
theorem eq_of_statement {source stmt : Stmt} (bound : statement marker source = .ok stmt)
    (plain : stmt.isTrivia = true ∨ stmt.isDocstring = true ∨ stmt.isFutureImport = true) :
    source = stmt := by
  obtain rfl | ⟨_, _, _, _, -, rfl⟩ | ⟨_, _, _, rfl, -⟩ := cases_of_statement bound
  · rfl
  · rcases plain with ⟨⟨⟩⟩ | ⟨⟨⟩⟩ | ⟨⟨⟩⟩
  · rcases plain with ⟨⟨⟩⟩ | ⟨⟨⟩⟩ | ⟨⟨⟩⟩

theorem simple_of_statement {stmt : Stmt} {line : List Token}
    (bound : statement marker stmt = .ok (.simple line)) : stmt = .simple line := by
  obtain same | ⟨_, _, _, _, -, ⟨⟩⟩ | ⟨_, _, _, ⟨⟩, -⟩ := cases_of_statement bound
  exact same

private theorem simple_of_statements {body next : List Stmt} {line : List Token}
    (bound : statements marker body = .ok next) (member : .simple line ∈ next) :
    .simple line ∈ body := by
  induction body generalizing next with
  | nil =>
    cases bound
    exact member
  | cons stmt rest ih =>
    obtain ⟨first, boundFirst, bound⟩ := bind_eq_ok.1 bound
    obtain ⟨others, boundRest, bound⟩ := bind_eq_ok.1 bound
    cases bound
    rw [List.mem_cons] at member ⊢
    rcases member with rfl | member
    · exact .inl (simple_of_statement boundFirst).symm
    · exact .inr (ih boundRest member)

private theorem simple_of_addPrologue {body : List Stmt} {resolutions : List Resolution}
    {line : List Token} (member : .simple line ∈ addPrologue resolutions body) :
    .simple line ∈ body :=
  (mem_insertAt.1 member).resolve_left nofun

mutual

private theorem prints_statement : (stmt : Stmt) → stmt.Prints here there → {next : Stmt} →
    statement marker stmt = .ok next →
      next.Prints here there ∧ (stmt.Closed → next.Closed) ∧ next.isTrivia = stmt.isTrivia
  | .trivia _, prints, _, bound | .simple _, prints, _, bound | .prologue _, prints, _, bound
  | .runtimeImport, prints, _, bound => by
    cases bound
    exact ⟨prints, id, rfl⟩
  | .compound first margin body, ⟨line, leading, prints⟩, next, bound => by
    obtain ⟨inner, boundBody, bound⟩ := bind_eq_ok.1 bound
    cases bound
    obtain ⟨innerPrints, closed, _⟩ := prints_statements body prints boundBody
    exact ⟨⟨line, leading, innerPrints⟩, closed, rfl⟩
  | .function first margin body, ⟨line, leading, suite, prints⟩, next, bound => by
    obtain ⟨⟨first', resolutions⟩, boundHeader, bound⟩ := bind_eq_ok.1 bound
    obtain ⟨inner, boundBody, bound⟩ := bind_eq_ok.1 bound
    cases bound
    obtain ⟨headerPrints, tail, suites⟩ := prints_header line boundHeader
    obtain ⟨innerPrints, closed, _⟩ := prints_statements body prints boundBody
    refine ⟨⟨headerPrints, leading, ?_, prints_addPrologue innerPrints resolutions⟩,
      fun bodyClosed => closed_insertAt (closed bodyClosed) (.prologue resolutions) trivial _, rfl⟩
    obtain ⟨trivia, indent⟩ := margin
    cases indent with
    | some token =>
      simp only [tail]
      exact suite
    | none =>
      intro line member
      exact suites line (suite line (simple_of_statements boundBody (simple_of_addPrologue member)))
  | .inlineFunction first line, ⟨header, suite⟩, next, bound => by
    obtain ⟨⟨first', resolutions⟩, boundHeader, bound⟩ := bind_eq_ok.1 bound
    cases bound
    obtain ⟨headerPrints, _, suites⟩ := prints_header header boundHeader
    have alone : BodyPrints here there [.simple line] :=
      bodyPrints_singleton ⟨suite.alone, suite.ends⟩
    have closed : BodyClosed [.simple line] := ⟨trivial, trivial⟩
    refine ⟨⟨headerPrints, ⟨trivial, nofun⟩, ?_, prints_addPrologue alone resolutions⟩,
      fun _ => closed_insertAt closed (.prologue resolutions) trivial _, rfl⟩
    intro other member
    have same := simple_of_addPrologue member
    rw [List.mem_singleton] at same
    cases same
    exact suites line suite

private theorem prints_statements :
    (body : List Stmt) → BodyPrints here there body → {next : List Stmt} →
    statements marker body = .ok next →
      BodyPrints here there next ∧ (BodyClosed body → BodyClosed next) ∧
        next.map Stmt.isTrivia = body.map Stmt.isTrivia
  | [], _, next, bound => by
    cases bound
    exact ⟨trivial, id, rfl⟩
  | stmt :: rest, ⟨first, order, others⟩, next, bound => by
    obtain ⟨stmt', boundFirst, bound⟩ := bind_eq_ok.1 bound
    obtain ⟨rest', boundRest, bound⟩ := bind_eq_ok.1 bound
    cases bound
    obtain ⟨firstPrints, firstClosed, sameFirst⟩ := prints_statement stmt first boundFirst
    obtain ⟨restPrints, restClosed, sameRest⟩ := prints_statements rest others boundRest
    have noTrivia : ∀ body : List Stmt, (∀ later ∈ body, later.isTrivia = false) ↔
        ∀ isTrivia ∈ body.map Stmt.isTrivia, isTrivia = false := fun body => by
      rw [List.forall_mem_map]
    rw [noTrivia, ← sameRest, ← noTrivia] at order
    refine ⟨⟨firstPrints, order.imp_left firstClosed, restPrints⟩,
      fun closed => ⟨firstClosed closed.1, restClosed closed.2⟩, ?_⟩
    rw [List.map_cons, List.map_cons, sameFirst, sameRest]

end

end LateBinding

theorem Program.prints_bindLate {here there : Token → Token} {marker : String}
    {program next : Program} (prints : BodyPrints here there program.body)
    (bound : program.bindLate marker = .ok next) : BodyPrints here there next.body := by
  obtain ⟨body, boundBody, bound⟩ := bind_eq_ok.1 bound
  cases bound
  exact LateBinding.prints_insertAt
    (LateBinding.prints_statements program.body prints boundBody).1 .runtimeImport trivial trivial
    rfl _

end DeferredDefaults
