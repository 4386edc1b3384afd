import DeferredDefaults.Proofs.Page.Saying

/-!
Printing only adds to a page: what has been printed stays in front of all that follows.
-/

set_option autoImplicit false
set_option relaxedAutoImplicit false

namespace DeferredDefaults.Page

variable {options : Options}

private theorem isPrefix_write (page : Page) (text : String) :
    page.text.toList <+: (page.write text).text.toList := by
  rw [text_write, String.toList_append]
  exact List.prefix_append _ _

private theorem isPrefix_foldl {α : Type} {print : Page → α → Page}
    (grows : ∀ page item, page.text.toList <+: (print page item).text.toList) (list : List α)
    (page : Page) : page.text.toList <+: (list.foldl print page).text.toList := by
  induction list generalizing page with
  | nil => exact List.prefix_rfl
  | cons item rest ih => exact (grows page item).trans (ih _)

private theorem isPrefix_comma (page : Page) (tuple : Bool) (comma : Option Token) :
    page.text.toList <+: (page.comma tuple comma).text.toList := by
  cases comma with
  | none => exact List.prefix_rfl
  | some comma =>
    rw [Page.comma]
    split
    · exact isPrefix_token page comma
    · split <;> exact List.prefix_rfl

private theorem isPrefix_argument (page : Page) (tuple : Bool) (argument : Argument) :
    page.text.toList <+: (page.argument tuple argument).text.toList :=
  (isPrefix_tokens page argument.value).trans (isPrefix_comma _ tuple argument.comma)

private theorem isPrefix_gap (page : Page) (call : MarkerCall) :
    page.text.toList <+: (page.gap call).text.toList := by
  rw [gap]
  split
  · exact List.prefix_rfl
  · exact (isPrefix_tokens (page.moveTo (some call.name.stop)) call.gap).trans (isPrefix_write _ _)

private theorem isPrefix_deferred (page : Page) (options : Options) (deferred : Deferred) :
    page.text.toList <+: (page.deferred options deferred).text.toList := by
  have bracket : ∀ (page : Page) (tuple : Bool) (text : String),
      page.text.toList <+: (if tuple then page.write text else page).text.toList := by
    intro page tuple text
    split
    · exact isPrefix_write page text
    · exact List.prefix_rfl
  have led := (isPrefix_write page (padding page.cursor deferred.call.name.start)).trans
    (isPrefix_write _ (lambdaText options deferred))
  refine (led.trans (isPrefix_gap _ deferred.call)).trans ?_
  refine List.IsPrefix.trans ?_ (isPrefix_token _ deferred.call.closing)
  refine List.IsPrefix.trans ?_ (bracket _ deferred.isTuple ")")
  refine List.IsPrefix.trans ?_ (isPrefix_tokens _ deferred.call.trailing)
  refine List.IsPrefix.trans ?_ (isPrefix_foldl
    (fun page argument => isPrefix_argument page deferred.isTuple argument) deferred.call.args _)
  exact bracket ((((page.padTo deferred.call.name.start).write (lambdaText options deferred)).gap
    deferred.call).moveTo (some deferred.call.opening.stop)) deferred.isTuple "("

private theorem isPrefix_default (page : Page) (options : Options)
    (default : Option ParameterDefault) :
    page.text.toList <+: (page.default options default).text.toList := by
  match default with
  | none => exact List.prefix_rfl
  | some ⟨eq, .expression tokens⟩ => exact (isPrefix_token page eq).trans (isPrefix_tokens _ tokens)
  | some ⟨eq, .deferred deferred⟩ =>
    exact (isPrefix_token page eq).trans (isPrefix_deferred _ options deferred)

private theorem isPrefix_item (options : Options) (page : Page) (item : ParameterItem) :
    page.text.toList <+: (Page.item options page item).text.toList := by
  cases item with
  | separator value =>
    exact (isPrefix_token page value.token).trans (isPrefix_tokens _ value.suffix)
  | parameter value =>
    have named := (isPrefix_tokens page value.stars).trans (isPrefix_token _ value.name)
    have hinted := named.trans (isPrefix_tokens _ value.hint)
    exact (hinted.trans (isPrefix_default _ options value.default)).trans
      (isPrefix_tokens _ value.suffix)

private theorem isPrefix_header (page : Page) (options : Options) (indent : String)
    (header : Header) :
    page.text.toList <+: (page.header options indent header).text.toList := by
  have led := (isPrefix_line page indent header.head).trans
    (isPrefix_tokens _ header.parameters.leading)
  exact (led.trans (isPrefix_foldl (isPrefix_item options) header.parameters.items _)).trans
    (isPrefix_tokens _ header.tail)

mutual

/-- Printing a statement keeps what has been printed. -/
theorem isPrefix_statement (options : Options) (indent : String) : (stmt : Stmt) → (page : Page) →
    page.text.toList <+: (statement options indent stmt page).text.toList
  | .trivia tokens, page => by
    rw [statement]
    exact isPrefix_tokens page tokens
  | .simple line, page => by
    rw [statement]
    exact isPrefix_line page indent line
  | .compound first margin body, page => by
    have led := (isPrefix_line page indent first).trans (isPrefix_tokens _ margin.leading)
    rw [statement]
    split
    · next inner _ => exact led.trans (isPrefix_statements options inner.text body _)
    · refine List.IsPrefix.trans ?_ (isPrefix_freshLine _)
      exact led.trans (isPrefix_statements options (indent ++ innerIndent) body _)
  | .function first margin body, page => by
    refine (isPrefix_header page options indent first).trans ?_
    rw [statement]
    split
    · next inner _ =>
      exact (isPrefix_tokens _ margin.leading).trans (isPrefix_statements options inner.text body _)
    · split
      · next line _ => exact isPrefix_tokens _ line
      · refine List.IsPrefix.trans ?_ (isPrefix_freshLine _)
        refine List.IsPrefix.trans ?_ (isPrefix_statements options (indent ++ innerIndent) body _)
        refine List.IsPrefix.trans ?_ (isPrefix_tokens _ margin.leading)
        exact isPrefix_write _ "\n"
  | .inlineFunction first line, page => by
    rw [statement]
    exact (isPrefix_header page options indent first).trans (isPrefix_tokens _ line)
  | .prologue resolutions, page => by
    rw [statement]
    exact isPrefix_addedLines page indent (prologueLines options resolutions)
  | .runtimeImport, page => by
    rw [statement]
    exact isPrefix_addedLines page indent [options.importLine]

theorem isPrefix_statements (options : Options) (indent : String) : (body : List Stmt) →
    (page : Page) → page.text.toList <+: (statements options indent body page).text.toList
  | [], page => by
    rw [statements]
  | stmt :: rest, page => by
    rw [statements]
    exact (isPrefix_statement options indent stmt page).trans
      (isPrefix_statements options indent rest _)

end

end DeferredDefaults.Page
