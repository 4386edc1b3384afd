import DeferredDefaults.Proofs.Expansion.Grouping
import DeferredDefaults.Proofs.Page.Growth
import DeferredDefaults.Proofs.Tree.Reconstruction

/-!
Where the bodies of functions are printed. Printing passes through the bodies in the order of the
functions, outer ones first, and what a body puts on its page stays at the front of the whole text.
-/

set_option autoImplicit false
set_option relaxedAutoImplicit false

namespace DeferredDefaults.Page

/-- The body of a function in print: its indentation, and the page in front of it. -/
structure Suite where
  indent : String
  body : List Stmt
  before : Page

mutual

/-- The bodies of the functions of a statement in print, an outer one before those inside it. -/
def suites (options : Options) (indent : String) : Stmt → Page → List Suite
  | .compound first margin body, page =>
    let led := (page.line indent first).tokens margin.leading
    match margin.indent with
    | some inner => bodySuites options inner.text body led
    | none => bodySuites options (indent ++ innerIndent) body led
  | .function first margin body, page =>
    let headed := page.header options indent first
    match margin.indent with
    | some inner =>
      let opened := headed.tokens margin.leading
      ⟨inner.text, body, opened⟩ :: bodySuites options inner.text body opened
    | none => match inlineLine? options body with
      | some _ => [⟨indent, body, headed⟩]
      | none =>
        let opened := ((headed.write "\n").moveTo none).tokens margin.leading
        ⟨indent ++ innerIndent, body, opened⟩ ::
          bodySuites options (indent ++ innerIndent) body opened
  | .inlineFunction first line, page => [⟨indent, [.simple line], page.header options indent first⟩]
  | .trivia _, _ | .simple _, _ | .prologue _, _ | .runtimeImport, _ => []

/-- The bodies of the functions of a list of statements in print, at any depth. -/
def bodySuites (options : Options) (indent : String) : List Stmt → Page → List Suite
  | [], _ => []
  | stmt :: rest, page => suites options indent stmt page ++
      bodySuites options indent rest (statement options indent stmt page)

end

variable {options : Options}

mutual

theorem map_body_suites (indent : String) : (stmt : Stmt) → (page : Page) →
    (suites options indent stmt page).map Suite.body = stmt.functions.map Prod.snd
  | .trivia _, _ | .simple _, _ | .prologue _, _ | .runtimeImport, _ | .inlineFunction _ _, _ => rfl
  | .compound first margin body, page => by
    rw [suites, Stmt.functions]
    cases margin.indent with
    | some inner => exact map_body_bodySuites inner.text body _
    | none => exact map_body_bodySuites (indent ++ innerIndent) body _
  | .function first margin body, page => by
    rw [suites, Stmt.functions, List.map_cons]
    cases margin.indent with
    | some inner => exact congrArg (body :: ·) (map_body_bodySuites inner.text body _)
    | none =>
      cases stays : inlineLine? options body with
      | some line =>
        rw [bodyFunctions_of_inlineLine? stays]
        rfl
      | none => exact congrArg (body :: ·) (map_body_bodySuites (indent ++ innerIndent) body _)

theorem map_body_bodySuites (indent : String) : (body : List Stmt) → (page : Page) →
    (bodySuites options indent body page).map Suite.body = (bodyFunctions body).map Prod.snd
  | [], _ => rfl
  | stmt :: rest, page => by
    rw [bodySuites, bodyFunctions, List.map_append, List.map_append,
      map_body_suites indent stmt page, map_body_bodySuites indent rest _]

end

/-- The body is printed on its page, unless its line stays with the header, and `page` goes on
behind it. -/
def Suite.IsPrinted (options : Options) (page : Page) (suite : Suite) : Prop :=
  inlineLine? options suite.body = none →
    (statements options suite.indent suite.body suite.before).text.toList <+: page.text.toList

private theorem Suite.IsPrinted.trans {suite : Suite} {page next : Page}
    (printed : suite.IsPrinted options page) (goesOn : page.text.toList <+: next.text.toList) :
    suite.IsPrinted options next :=
  fun below => (printed below).trans goesOn

mutual

/-- A statement prints the bodies of all functions in it. -/
theorem isPrinted_suites (indent : String) : (stmt : Stmt) → (page : Page) →
    ∀ suite ∈ suites options indent stmt page,
      suite.IsPrinted options (statement options indent stmt page)
  | .trivia _, _ | .simple _, _ | .prologue _, _ | .runtimeImport, _ => List.forall_mem_nil _
  | .inlineFunction first line, page => by
    rw [suites, List.forall_mem_singleton]
    exact nofun
  | .compound first margin body, page => by
    rw [suites, statement]
    cases margin.indent with
    | some inner => exact isPrinted_bodySuites inner.text body _
    | none =>
      exact fun suite member =>
        (isPrinted_bodySuites (indent ++ innerIndent) body _ suite member).trans
          (isPrefix_freshLine _)
  | .function first margin body, page => by
    rw [suites, statement]
    cases margin.indent with
    | some inner =>
      exact List.forall_mem_cons.2 ⟨fun _ => List.prefix_rfl, isPrinted_bodySuites inner.text body _⟩
    | none =>
      cases stays : inlineLine? options body with
      | some line =>
        refine List.forall_mem_singleton.2 fun below => ?_
        rw [stays] at below
        cases below
      | none =>
        refine List.forall_mem_cons.2 ⟨fun _ => isPrefix_freshLine _, fun suite member => ?_⟩
        exact (isPrinted_bodySuites (indent ++ innerIndent) body _ suite member).trans
          (isPrefix_freshLine _)

theorem isPrinted_bodySuites (indent : String) : (body : List Stmt) → (page : Page) →
    ∀ suite ∈ bodySuites options indent body page,
      suite.IsPrinted options (statements options indent body page)
  | [], _ => List.forall_mem_nil _
  | stmt :: rest, page => by
    rw [bodySuites, statements, List.forall_mem_append]
    exact ⟨fun suite member => (isPrinted_suites indent stmt page suite member).trans
      (isPrefix_statements options indent rest _), isPrinted_bodySuites indent rest _⟩

end

/-- The code has `lines` right behind the statements `front`, and these right behind `page`. -/
def Leads (options : Options) (indent : String) (front : List Stmt) (lines : List String)
    (page : Page) (code : String) : Prop :=
  (lines.foldl (addedLine · indent) (statements options indent front page)).text.toList <+:
    code.toList

/-- The code has `lines` right behind the statements `front`, and the logical line `next` right
behind them. -/
def LeadsTo (options : Options) (indent : String) (front : List Stmt) (lines : List String)
    (next : List Token) (page : Page) (code : String) : Prop :=
  ((lines.foldl (addedLine · indent) (statements options indent front page)).line indent
    next).text.toList <+: code.toList

section Leads

variable {indent code : String} {body front behind : List Stmt} {added stmt : Stmt}
  {lines : List String} {line : List Token} {page : Page}

/-- What stands in front of a prologue or an import is printed in front of its lines. -/
theorem leads_of_isPrefix (split : body = front ++ added :: behind)
    (prints : ∀ page, statement options indent added page = lines.foldl (addedLine · indent) page)
    (goesOn : (statements options indent body page).text.toList <+: code.toList) :
    Leads options indent front lines page code := by
  rw [split, statements_append, statements, prints] at goesOn
  exact (isPrefix_statements options indent behind _).trans goesOn

private theorem isPrefix_line_statement (isLine : stmt.line? = some line)
    (noFunction : stmt.isFunction = false) (page : Page) :
    (page.line indent line).text.toList <+: (statement options indent stmt page).text.toList := by
  cases stmt with
  | simple own =>
    cases isLine
    exact List.prefix_rfl
  | compound first margin body =>
    cases isLine
    refine (isPrefix_tokens _ margin.leading).trans ?_
    rw [statement]
    cases margin.indent with
    | some inner => exact isPrefix_statements options inner.text body _
    | none =>
      exact (isPrefix_statements options (indent ++ innerIndent) body _).trans
        (isPrefix_freshLine _)
  | function | inlineFunction => cases noFunction
  | trivia | prologue | runtimeImport => cases isLine

theorem leadsTo_of_isPrefix (split : body = front ++ added :: stmt :: behind)
    (prints : ∀ page, statement options indent added page = lines.foldl (addedLine · indent) page)
    (isLine : stmt.line? = some line) (noFunction : stmt.isFunction = false)
    (goesOn : (statements options indent body page).text.toList <+: code.toList) :
    LeadsTo options indent front lines line page code := by
  rw [split, statements_append, statements, prints, statements] at goesOn
  exact (isPrefix_line_statement isLine noFunction _).trans
    ((isPrefix_statements options indent behind _).trans goesOn)

end Leads

end DeferredDefaults.Page
