import DeferredDefaults.Proofs.Coding.Printing
import DeferredDefaults.Proofs.Page.Suites
import DeferredDefaults.Proofs.Tree.Docstring

/-!
Docstrings in the code. A text that begins a body on a line of its own stays in front: the lines of a
prologue come behind it, and so does the import. If a semicolon ends it, its line does not count as
a docstring, and the lines come in front of it.
-/

set_option autoImplicit false
set_option relaxedAutoImplicit false

namespace DeferredDefaults

namespace LateBinding

variable {marker : String} {body next trivia rest : List Stmt} {stmt : Stmt} {line : List Token}

private theorem statements_behind_trivia (isTrivia : ∀ stmt ∈ trivia, stmt.isTrivia = true)
    (bound : statements marker (trivia ++ rest) = .ok next) :
    ∃ behind, next = trivia ++ behind ∧ statements marker rest = .ok behind := by
  induction trivia generalizing next with
  | nil => exact ⟨next, rfl, bound⟩
  | cons stmt others ih =>
    rw [List.forall_mem_cons] at isTrivia
    obtain ⟨stmt', boundStmt, bound⟩ := bind_eq_ok.1 bound
    obtain ⟨others', boundOthers, bound⟩ := bind_eq_ok.1 bound
    cases bound
    obtain ⟨behind, rfl, boundRest⟩ := ih isTrivia.2 boundOthers
    have stays : stmt'.isTrivia = true := (sort_of_statement boundStmt).1.trans isTrivia.1
    rw [← eq_of_statement boundStmt (.inl stays)]
    exact ⟨behind, rfl, boundRest⟩

private theorem prologueIndex_behind_trivia (isTrivia : ∀ stmt ∈ trivia, stmt.isTrivia = true)
    (rest : List Stmt) : prologueIndex (trivia ++ rest) = trivia.length + prologueIndex rest := by
  induction trivia with
  | nil => exact (Nat.zero_add _).symm
  | cons stmt others ih =>
    rw [List.forall_mem_cons] at isTrivia
    rw [List.cons_append, prologueIndex_cons, if_pos isTrivia.1, ih isTrivia.2, List.length_cons]
    omega

private theorem insertAt_behind (front back : List Stmt) (index : Nat) (stmt : Stmt) :
    insertAt (front.length + index) stmt (front ++ back) = front ++ insertAt index stmt back := by
  rw [insertAt, insertAt, List.take_length_add_append, List.drop_length_add_append,
    List.append_assoc]

private theorem line_of_statement {source next : Stmt} (bound : statement marker source = .ok next)
    (noFunction : source.isFunction = false) :
    next.line? = source.line? ∧ next.isFunction = false := by
  obtain rfl | ⟨_, _, _, _, rfl, rfl⟩ | ⟨_, _, _, rfl, ⟨_, _, rfl⟩ | ⟨_, _, rfl⟩⟩ :=
    cases_of_statement bound
  · exact ⟨rfl, noFunction⟩
  · exact ⟨rfl, rfl⟩
  · cases noFunction
  · cases noFunction

/-- What binding makes of a body that begins with a text: `first` has the text now. -/
structure BindsText (marker : String) (trivia : List Stmt) (stmt : Stmt) (rest : List Stmt)
    (line : List Token) (next : List Stmt) (first : Stmt) (others : List Stmt) : Prop where
  split : next = trivia ++ first :: others
  bound : statements marker rest = .ok others
  index : prologueIndex next = trivia.length + (if Line.isLone line then 1 else 0)
  isTrivia : first.isTrivia = false
  isFutureImport : first.isFutureImport = false
  isLine : first.line? = some line
  isFunction : first.isFunction = false
  same : Line.isLone line = true → first = stmt

private theorem exists_bindsText (begins : BeginsWithText body trivia stmt rest line)
    (shows : stmt.ShowsText) (bound : statements marker body = .ok next) :
    ∃ first others, BindsText marker trivia stmt rest line next first others := by
  obtain ⟨noFunction, docstring⟩ := shows line begins.isLine begins.isText
  rw [begins.split] at bound
  obtain ⟨behind, rfl, boundBehind⟩ := statements_behind_trivia begins.isTrivia bound
  obtain ⟨first, boundFirst, boundBehind⟩ := bind_eq_ok.1 boundBehind
  obtain ⟨others, boundOthers, boundBehind⟩ := bind_eq_ok.1 boundBehind
  cases boundBehind
  obtain ⟨sameTrivia, sameDocstring, sameFuture⟩ := sort_of_statement boundFirst
  obtain ⟨sameLine, sameFunction⟩ := line_of_statement boundFirst noFunction
  have isTrivia := sameTrivia.trans begins.sort.1
  have isDocstring := sameDocstring.trans docstring
  refine ⟨first, others, rfl, boundOthers, ?_, isTrivia, sameFuture.trans begins.sort.2,
    sameLine.trans begins.isLine, sameFunction, fun lone => ?_⟩
  · rw [prologueIndex_behind_trivia begins.isTrivia, prologueIndex_cons, isTrivia, isDocstring]
    rfl
  · exact (eq_of_statement boundFirst (.inr (.inl (isDocstring.trans lone)))).symm

namespace BindsText

variable {first : Stmt} {others : List Stmt}
  (binds : BindsText marker trivia stmt rest line next first others)
include binds

private theorem addPrologue_of_isLone (lone : Line.isLone line = true)
    (resolutions : List Resolution) :
    addPrologue resolutions next = (trivia ++ [stmt]) ++ .prologue resolutions :: others := by
  rw [addPrologue, binds.index, lone, if_pos rfl, binds.split, insertAt_behind, binds.same lone]
  simp [insertAt]

private theorem addPrologue_of_not_isLone (ended : Line.isLone line = false)
    (resolutions : List Resolution) :
    addPrologue resolutions next = trivia ++ .prologue resolutions :: first :: others := by
  rw [addPrologue, binds.index, ended, if_neg Bool.false_ne_true, binds.split, insertAt_behind]
  rfl

private theorem import_of_isLone (lone : Line.isLone line = true) : ∃ futures source behind,
    rest = futures ++ source ∧
      (∀ later ∈ futures, later.isTrivia = true ∨ later.isFutureImport = true) ∧
      insertAt (importIndex next) .runtimeImport next =
        (trivia ++ stmt :: futures) ++ .runtimeImport :: behind := by
  have run := futureRun_futureLength others
  have bound := binds.bound
  rw [← List.take_append_drop (futureLength others) others] at bound
  obtain ⟨source, split, -⟩ := exists_of_statements
    (fun stmt member => (run.imports stmt member).imp_right .inr) bound
  have drop : (trivia ++ stmt :: others).drop (trivia.length + 1) = others := by simp
  refine ⟨_, source, others.drop (futureLength others), split, run.imports, ?_⟩
  rw [importIndex, binds.index, lone, if_pos rfl, binds.split, binds.same lone, drop,
    Nat.add_assoc, insertAt_behind, List.append_assoc, Nat.add_comm 1]
  rfl

private theorem import_of_not_isLone (ended : Line.isLone line = false) :
    insertAt (importIndex next) .runtimeImport next =
      trivia ++ .runtimeImport :: first :: others := by
  have none : futureLength (first :: others) = 0 := by
    rw [futureLength, binds.isFutureImport, binds.isTrivia]
    rfl
  rw [importIndex, binds.index, ended, if_neg Bool.false_ne_true, binds.split, Nat.add_zero,
    List.drop_left, none, insertAt_behind]
  rfl

end BindsText

end LateBinding

private theorem Page.binds_suites (options : Options) {marker : String} {body next : List Stmt}
    (bound : LateBinding.statements marker body = .ok next) (index : Nat) (indent : String)
    (page : Page) :
    List.Forall₂ (fun function suite =>
        ∃ header, LateBinding.BindsFunction marker function (header, suite.body))
      (bodyFunctions body)
      (bodySuites options indent (LateBinding.insertAt index .runtimeImport next) page) := by
  have noFunctions : Stmt.runtimeImport.functions = [] := rfl
  have bodies : List.Forall₂
      (fun function printed => ∃ header, LateBinding.BindsFunction marker function (header, printed))
      (bodyFunctions body) ((bodyFunctions next).map Prod.snd) := by
    rw [List.forall₂_map_right_iff]
    exact (LateBinding.binds_bodyFunctions bound).imp fun _ new binds => ⟨new.1, binds⟩
  rw [← bodyFunctions_insertAt noFunctions index next, ← map_body_bodySuites indent _ page,
    List.forall₂_map_right_iff] at bodies
  exact bodies

namespace Expansion

variable {options : Options}

/-- Where the code has the texts that bodies of the program begin with. -/
structure PlacesDocstrings (options : Options) (program : Program) (expanded : Expanded) :
    Prop where
  /-- The prologue of a function comes right behind a text that stands alone, and right in front of
  one that a semicolon ends. -/
  functions : List.Forall₂ (fun function suite => ∃ header resolutions,
      LateBinding.header options.markerName function.1 = .ok (header, resolutions) ∧
      ∀ trivia stmt rest line, BeginsWithText function.2 trivia stmt rest line →
        Page.prologueLines options resolutions ≠ [] →
        if Line.isLone line then
          Page.Leads options suite.indent (trivia ++ [stmt])
            (Page.prologueLines options resolutions) suite.before expanded.code
        else
          Page.LeadsTo options suite.indent trivia (Page.prologueLines options resolutions) line
            suite.before expanded.code)
    (bodyFunctions program.body) (Page.bodySuites options "" expanded.program.body {})
  /-- The import comes behind a text that stands alone, with nothing but imports from `__future__`
  in between, and right in front of one that a semicolon ends. -/
  importPlaced : ∀ trivia stmt rest line, BeginsWithText program.body trivia stmt rest line →
    if Line.isLone line then
      ∃ futures others, rest = futures ++ others ∧
        (∀ later ∈ futures, later.isTrivia = true ∨ later.isFutureImport = true) ∧
        Page.Leads options "" (trivia ++ stmt :: futures) [options.importLine] {} expanded.code
    else Page.LeadsTo options "" trivia [options.importLine] line {} expanded.code

private theorem inlineLine?_addPrologue {resolutions : List Resolution}
    (renders : Page.prologueLines options resolutions ≠ []) (body : List Stmt) :
    Page.inlineLine? options (LateBinding.addPrologue resolutions body) = none := by
  have member : Stmt.prologue resolutions ∈ (LateBinding.addPrologue resolutions body).filter
      fun stmt => !Page.isSilent options stmt := by
    rw [List.mem_filter]
    refine ⟨List.mem_append_right _ List.mem_cons_self, ?_⟩
    simpa [Page.isSilent] using renders
  unfold Page.inlineLine?
  split
  · next line only =>
    rw [only, List.mem_singleton] at member
    cases member
  · rfl

private theorem leads_prologue {marker : String} {body next trivia rest : List Stmt} {stmt : Stmt}
    {line : List Token} {resolutions : List Resolution} {suite : Page.Suite} {page : Page}
    (begins : BeginsWithText body trivia stmt rest line) (shows : stmt.ShowsText)
    (bound : LateBinding.statements marker body = .ok next)
    (isBody : suite.body = LateBinding.addPrologue resolutions next)
    (renders : Page.prologueLines options resolutions ≠ [])
    (printed : suite.IsPrinted options page) :
    if Line.isLone line then
      Page.Leads options suite.indent (trivia ++ [stmt]) (Page.prologueLines options resolutions)
        suite.before page.text
    else
      Page.LeadsTo options suite.indent trivia (Page.prologueLines options resolutions) line
        suite.before page.text := by
  obtain ⟨first, others, binds⟩ := LateBinding.exists_bindsText begins shows bound
  have below : Page.inlineLine? options suite.body = none := by
    rw [isBody, inlineLine?_addPrologue renders]
  cases lone : Line.isLone line with
  | true =>
    have placed := binds.addPrologue_of_isLone lone resolutions
    exact Page.leads_of_isPrefix (isBody.trans placed) (fun _ => rfl) (printed below)
  | false =>
    have placed := binds.addPrologue_of_not_isLone lone resolutions
    exact Page.leadsTo_of_isPrefix (isBody.trans placed) (fun _ => rfl) binds.isLine
      binds.isFunction (printed below)

/-- A docstring that stands alone on its line stays in front of all that expansion adds; one that a
semicolon ends does not. -/
theorem ofMarked_placesDocstrings {tokens : List Token} {program : Program} {expanded : Expanded}
    (read : Program.ofTokens tokens = .ok program)
    (expands : ofMarked options tokens = .ok expanded) :
    PlacesDocstrings options program expanded := by
  have shows := Reader.kept_showsText.ofTokens read
  obtain ⟨source, found, expands⟩ := bind_eq_ok.1 expands
  rw [read] at found
  cases found
  obtain ⟨bound, binds, expands⟩ := bind_eq_ok.1 expands
  cases expands
  obtain ⟨body, boundBody, binds⟩ := bind_eq_ok.1 binds
  cases binds
  constructor
  · have aligned := List.forall₂_iff_zip.1 (Page.binds_suites options boundBody
      (LateBinding.importIndex body) "" {})
    refine List.forall₂_iff_zip.2 ⟨aligned.1, fun {function suite} pair => ?_⟩
    obtain ⟨isFunction, isSuite⟩ := List.of_mem_zip pair
    obtain ⟨header, resolutions, next, boundHeader, boundNext, isBody⟩ := aligned.2 pair
    have printed := Page.isPrinted_bodySuites "" _ {} suite isSuite
    refine ⟨header, resolutions, boundHeader, fun trivia stmt rest line begins renders => ?_⟩
    have showsStmt :=
      showsText_bodyFunctions program.body shows function isFunction stmt begins.mem
    exact leads_prologue begins showsStmt boundNext isBody renders printed
  · intro trivia stmt rest line begins
    obtain ⟨first, others, binds⟩ :=
      LateBinding.exists_bindsText begins (shows stmt (mem_bodyNodes begins.mem)) boundBody
    cases lone : Line.isLone line with
    | true =>
      obtain ⟨futures, others, behind, split, plain, placed⟩ := binds.import_of_isLone lone
      exact ⟨futures, others, split, plain,
        Page.leads_of_isPrefix placed (fun _ => rfl) List.prefix_rfl⟩
    | false =>
      exact Page.leadsTo_of_isPrefix (binds.import_of_not_isLone lone) (fun _ => rfl)
        binds.isLine binds.isFunction List.prefix_rfl

/-- A docstring of two literals in parentheses, one behind a comment, and one in a suite on the
header's line, which a semicolon ends. -/
def quotedSource : String :=
  "('a'\n 'b')\ndef f(a => (1)):\n    # c\n    'd'\n" ++
    "    def g(b => (a)): 'e'; return b\n    return a\n"

/-- Only the last of the three docstrings has lines in front of it. -/
theorem ofMarked_placesDocstrings_quoted : ∃ tokens program expanded,
    markedTokens {} quotedSource = .ok tokens ∧ Program.ofTokens tokens = .ok program ∧
      ofMarked {} tokens = .ok expanded ∧ PlacesDocstrings {} program expanded ∧
      expanded.code = "('a'\n 'b')\n" ++ ({} : Options).importLine ++
        "\ndef f(a = _defer(lambda: 1)):\n    # c\n    'd'\n" ++
        "    if isinstance(a, _defer): a = a()\n    def g(b = _defer(lambda: a)):\n" ++
        "        if isinstance(b, _defer): b = b()\n        'e'; return b\n    return a\n" := by
  have printed : (throughTokens {} quotedSource).toOption.map Expanded.code =
      some ("('a'\n 'b')\n" ++ ({} : Options).importLine ++
        "\ndef f(a = _defer(lambda: 1)):\n    # c\n    'd'\n" ++
        "    if isinstance(a, _defer): a = a()\n    def g(b = _defer(lambda: a)):\n" ++
        "        if isinstance(b, _defer): b = b()\n        'e'; return b\n    return a\n") := by
    decide +kernel
  cases expands : throughTokens {} quotedSource with
  | error fault =>
    rw [expands] at printed
    cases printed
  | ok expanded =>
    rw [expands] at printed
    obtain ⟨tokens, marks, expands⟩ := bind_eq_ok.1 expands
    obtain ⟨program, read, -⟩ := bind_eq_ok.1 expands
    exact ⟨tokens, program, expanded, marks, read, expands, ofMarked_placesDocstrings read expands,
      Option.some.inj printed⟩

end Expansion

end DeferredDefaults
