import DeferredDefaults.Proofs.Tree.Headline
import DeferredDefaults.Proofs.Tree.Reconstruction

/-!
Docstrings by their grammar. A text is a run of text literals in any number of parentheses. The
first statement of a line is its code up to the first semicolon outside brackets; the line counts as
a docstring if that statement is a text and no semicolon ends it.
-/

set_option autoImplicit false
set_option relaxedAutoImplicit false

namespace DeferredDefaults

namespace Line

/-- The code is a run of text literals, in any number of parentheses. -/
inductive IsText : List Token → Prop
  | literals {code : List Token} : code ≠ [] → (∀ token ∈ code, isTextLiteral token = true) →
      IsText code
  | wrapped {first last : Token} {code : List Token} : first.isOp "(" = true →
      last.isOp ")" = true → IsText code → IsText (first :: code ++ [last])

/-- The code of the first statement on the line: all up to the first semicolon outside brackets. -/
def opening (line : List Token) : List Token :=
  match Cut.atOp ";" 0 (significant line) with
  | some cut => cut.before
  | none => significant line

def isLone (line : List Token) : Bool := (Cut.atOp ";" 0 (significant line)).isNone

variable {code inner line : List Token}

namespace IsText

private theorem ne_nil (text : IsText code) : code ≠ [] := by
  cases text with
  | literals nonempty _ => exact nonempty
  | wrapped => simp

private theorem string_or_paren (text : IsText code) : ∀ token ∈ code,
    token.kind = .string ∨ token.isOp "(" = true ∨ token.isOp ")" = true := by
  induction text with
  | literals _ literals =>
    intro token member
    have literal := literals token member
    rw [isTextLiteral, Bool.and_eq_true, beq_iff_eq] at literal
    exact .inl literal.1
  | wrapped opens closes _ ih =>
    rw [List.cons_append, List.forall_mem_cons, List.forall_mem_append, List.forall_mem_singleton]
    exact ⟨.inr (.inl opens), ih, .inr (.inr closes)⟩

private theorem isName_eq_false (text : IsText code) {token : Token} (member : token ∈ code)
    (name : String) : token.isName name = false := by
  rcases text.string_or_paren token member with string | opens | closes
  · simp [Token.isName, string]
  · simp [Token.isName, (Token.isOp_iff.1 opens).1]
  · simp [Token.isName, (Token.isOp_iff.1 closes).1]

private theorem isOp_eq_false (text : IsText code) {token : Token} (member : token ∈ code)
    {op : String} (noParen : op ≠ "(" ∧ op ≠ ")") : token.isOp op = false := by
  rcases text.string_or_paren token member with string | opens | closes
  · simp [Token.isOp, string]
  · simp [Token.isOp, (Token.isOp_iff.1 opens).2, noParen.1.symm]
  · simp [Token.isOp, (Token.isOp_iff.1 closes).2, noParen.2.symm]

end IsText

private theorem unwrap?_eq_some_iff : unwrap? code = some inner ↔
    ∃ first last, code = first :: inner ++ [last] ∧ first.isOp "(" = true ∧
      last.isOp ")" = true := by
  cases code with
  | nil => simp [unwrap?]
  | cons first rest =>
    rw [unwrap?]
    constructor
    · intro found
      split at found
      · next wraps =>
        rw [Bool.and_eq_true, Option.any_eq_true] at wraps
        obtain ⟨opens, last, isLast, closes⟩ := wraps
        obtain ⟨before, rfl⟩ := List.getLast?_eq_some_iff.1 isLast
        rw [List.dropLast_concat] at found
        cases found
        exact ⟨first, last, rfl, opens, closes⟩
      · cases found
    · rintro ⟨first', last, split, opens, closes⟩
      rw [List.cons_append, List.cons.injEq] at split
      obtain ⟨rfl, rfl⟩ := split
      simp [opens, closes]

private theorem isText_of_unwrapped {limit : Nat} (nonempty : unwrapped limit code ≠ [])
    (literals : ∀ token ∈ unwrapped limit code, isTextLiteral token = true) : IsText code := by
  fun_induction unwrapped limit code with
  | case1 code => exact .literals nonempty literals
  | case2 limit code inner found ih =>
    obtain ⟨first, last, rfl, opens, closes⟩ := unwrap?_eq_some_iff.1 found
    exact .wrapped opens closes (ih nonempty literals)
  | case3 limit code none => exact .literals nonempty literals

private theorem unwrapped_of_literals (literals : ∀ token ∈ code, isTextLiteral token = true)
    (limit : Nat) :
    unwrapped limit code = code := by
  cases limit with
  | zero => rfl
  | succ limit =>
    cases found : unwrap? code with
    | none => rw [unwrapped, found]
    | some inner =>
      obtain ⟨first, last, rfl, opens, -⟩ := unwrap?_eq_some_iff.1 found
      have literal := literals first List.mem_cons_self
      simp [isTextLiteral, (Token.isOp_iff.1 opens).1] at literal

private theorem IsText.unwrapped (text : IsText code) {limit : Nat} (enough : code.length ≤ limit) :
    unwrapped limit code ≠ [] ∧
      ∀ token ∈ Line.unwrapped limit code, isTextLiteral token = true := by
  induction text generalizing limit with
  | literals nonempty literals =>
    rw [unwrapped_of_literals literals]
    exact ⟨nonempty, literals⟩
  | @wrapped first last code opens closes _ ih =>
    rw [List.length_append, List.length_cons, List.length_singleton] at enough
    obtain ⟨limit, rfl⟩ : ∃ less, limit = less + 1 := ⟨limit - 1, by omega⟩
    rw [Line.unwrapped, unwrap?_eq_some_iff.2 ⟨first, last, rfl, opens, closes⟩]
    exact ih (by omega)

private theorem isDocstring_iff : isDocstring line = true ↔ IsText (significant line) := by
  simp only [isDocstring, Bool.and_eq_true, Bool.not_eq_true', List.isEmpty_eq_false_iff,
    List.all_eq_true]
  exact ⟨fun stripped => isText_of_unwrapped stripped.1 stripped.2,
    fun text => text.unwrapped (Nat.le_refl _)⟩

private theorem opening_prefix (line : List Token) : opening line <+: significant line := by
  unfold opening
  split
  · next cut found => exact ⟨_, Cut.tokens_atOp found⟩
  · exact List.prefix_rfl

private theorem isDocstring_eq_isLone (text : IsText (opening line)) :
    isDocstring line = isLone line := by
  unfold opening at text
  unfold isLone
  split at text
  · next cut found =>
    have member : cut.token ∈ significant line := by
      rw [← Cut.tokens_atOp found, Cut.tokens]
      exact List.mem_append_right _ List.mem_cons_self
    rw [found, Option.isNone_some, Bool.eq_false_iff, Ne, isDocstring_iff]
    intro whole
    have noSemicolon : cut.token.isOp ";" = false := whole.isOp_eq_false member (by decide)
    rw [(Cut.depth_atOp found).2] at noSemicolon
    cases noSemicolon
  · next none =>
    rw [none, Option.isNone_none]
    exact isDocstring_iff.2 text

private theorem isFutureImport_eq_false (text : IsText (opening line)) :
    isFutureImport line = false := by
  obtain ⟨behind, split⟩ := opening_prefix line
  obtain ⟨first, more, isOpening⟩ := List.exists_cons_of_ne_nil text.ne_nil
  have noName : first.isName "from" = false := text.isName_eq_false (by simp [isOpening]) _
  rw [isFutureImport, ← split, isOpening, List.cons_append]
  split
  · next heads =>
    rw [← (List.cons.inj heads).1, noName, Bool.false_and, Bool.false_and]
  · rfl

/-- The first token of a line of code that starts a function is a name, so no text is in front. -/
private theorem startsFunction_eq_false (text : IsText (opening line)) :
    startsFunction line = false := by
  cases line with
  | nil => rfl
  | cons first rest =>
    have noName : ∀ name, first.isName name = false := by
      intro name
      rw [Bool.eq_false_iff]
      intro named
      have kind : first.kind = .name := by
        rw [Token.isName, Bool.and_eq_true, beq_iff_eq] at named
        exact named.1
      have code : significant (first :: rest) = first :: significant rest :=
        List.filter_cons_of_pos
          (by simp [Token.isSignificant, Token.isTrivia, Token.isLayout, kind])
      obtain ⟨behind, split⟩ := opening_prefix (first :: rest)
      obtain ⟨head, more, isOpening⟩ := List.exists_cons_of_ne_nil text.ne_nil
      rw [isOpening, code, List.cons_append, List.cons.injEq] at split
      have member : first ∈ opening (first :: rest) := by simp [isOpening, split.1]
      rw [text.isName_eq_false member] at named
      cases named
    simp [startsFunction, noName]

private theorem isDocstring_of_endsWithColon (colon : endsWithColon line = true) :
    isDocstring line = false := by
  rw [Bool.eq_false_iff, Ne, isDocstring_iff]
  intro text
  rw [endsWithColon, Option.any_eq_true] at colon
  obtain ⟨last, found, isColon⟩ := colon
  have isCode : last.isSignificant = true := by
    simp [Token.isSignificant, Token.isTrivia, Token.isLayout, (Token.isOp_iff.1 isColon).1]
  have member : last ∈ significant line :=
    List.mem_filter.2 ⟨List.mem_reverse.1 (List.mem_of_find?_eq_some found), isCode⟩
  rw [text.isOp_eq_false member (by decide)] at isColon
  cases isColon

end Line

/-- A statement whose line begins with a text is no function, and it is a docstring exactly if the
text stands alone. -/
def Stmt.ShowsText (stmt : Stmt) : Prop :=
  ∀ line ∈ stmt.line?, Line.IsText (Line.opening line) →
    stmt.isFunction = false ∧ stmt.isDocstring = Line.isLone line

private theorem Stmt.showsText_simple (line : List Token) : (simple line).ShowsText := by
  rintro _ ⟨⟩ text
  exact ⟨rfl, Line.isDocstring_eq_isLone text⟩

theorem Reader.kept_showsText : Reader.Kept Stmt.ShowsText
    fun opener => ∀ margin body, (opener.close margin body).ShowsText where
  trivia := fun _ => nofun
  simple := fun line _ => Stmt.showsText_simple line
  compound := by
    rintro line - colon margin body _ ⟨⟩ text
    refine ⟨rfl, ?_⟩
    rw [← Line.isDocstring_eq_isLone text, Line.isDocstring_of_endsWithColon colon]
    rfl
  function := by
    rintro first more behind header starts read margin body _ ⟨⟩ text
    rw [Header.tokens_read_tail read] at text
    rw [Line.startsFunction_eq_false text] at starts
    cases starts
  inlineFunction := by
    rintro first more behind header starts read _ ⟨⟩ text
    rw [Header.tokens_read read] at text
    rw [Line.startsFunction_eq_false text] at starts
    cases starts
  close := fun shows => shows

theorem mem_bodyNodes {body : List Stmt} {stmt : Stmt} (member : stmt ∈ body) :
    stmt ∈ bodyNodes body := by
  have own : stmt ∈ stmt.nodes := by cases stmt <;> simp [Stmt.nodes]
  induction body with
  | nil => cases member
  | cons first rest ih =>
    rw [bodyNodes, List.mem_append]
    rcases List.mem_cons.1 member with rfl | later
    · exact .inl own
    · exact .inr (ih later)

/-- The body begins with a text behind its comment and blank lines: `stmt` has it on its line. -/
structure BeginsWithText (body trivia : List Stmt) (stmt : Stmt) (rest : List Stmt)
    (line : List Token) : Prop where
  split : body = trivia ++ stmt :: rest
  isTrivia : ∀ other ∈ trivia, other.isTrivia = true
  isLine : stmt.line? = some line
  isText : Line.IsText (Line.opening line)

theorem BeginsWithText.mem {body trivia rest : List Stmt} {stmt : Stmt} {line : List Token}
    (begins : BeginsWithText body trivia stmt rest line) : stmt ∈ body := by
  simp [begins.split]

theorem BeginsWithText.sort {body trivia rest : List Stmt} {stmt : Stmt} {line : List Token}
    (begins : BeginsWithText body trivia stmt rest line) :
    stmt.isTrivia = false ∧ stmt.isFutureImport = false := by
  have isLine := begins.isLine
  cases stmt with
  | trivia => cases isLine
  | simple own =>
    cases isLine
    exact ⟨rfl, Line.isFutureImport_eq_false begins.isText⟩
  | compound | function | inlineFunction | prologue | runtimeImport => exact ⟨rfl, rfl⟩

mutual

/-- The bodies of functions show the texts they begin with if the statements of the tree do. -/
theorem Stmt.showsText_functions : (stmt : Stmt) → (∀ node ∈ stmt.nodes, node.ShowsText) →
    ∀ function ∈ stmt.functions, ∀ inside ∈ function.2, inside.ShowsText
  | .trivia _, _ | .simple _, _ | .prologue _, _ | .runtimeImport, _ => List.forall_mem_nil _
  | .compound header margin body, shows => by
    rw [Stmt.nodes, List.forall_mem_cons] at shows
    exact showsText_bodyFunctions body shows.2
  | .function header margin body, shows => by
    rw [Stmt.nodes, List.forall_mem_cons] at shows
    rw [Stmt.functions, List.forall_mem_cons]
    exact ⟨fun inside member => shows.2 inside (mem_bodyNodes member),
      showsText_bodyFunctions body shows.2⟩
  | .inlineFunction header line, _ => by
    rw [Stmt.functions, List.forall_mem_singleton, List.forall_mem_singleton]
    exact Stmt.showsText_simple line

theorem showsText_bodyFunctions : (body : List Stmt) → (∀ node ∈ bodyNodes body, node.ShowsText) →
    ∀ function ∈ bodyFunctions body, ∀ inside ∈ function.2, inside.ShowsText
  | [], _ => List.forall_mem_nil _
  | stmt :: rest, shows => by
    rw [bodyNodes, List.forall_mem_append] at shows
    rw [bodyFunctions, List.forall_mem_append]
    exact ⟨stmt.showsText_functions shows.1, showsText_bodyFunctions rest shows.2⟩

end

end DeferredDefaults
