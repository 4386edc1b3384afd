import DeferredDefaults.Proofs.Page.Deferral

/-!
A parameter list in print. Each way of printing carries its tokens over into what it says, and what
is printed one behind the other carries all tokens over.
-/

set_option autoImplicit false
set_option relaxedAutoImplicit false

namespace DeferredDefaults

open Text.Identifier (isIdentifier)

def ParameterDefault.Sound (default : ParameterDefault) : Prop :=
  match default.value with
  | .expression _ => True
  | .deferred value => default.eq.isOp "=" = true ∧ value.Sound

def ParameterItem.Sound : ParameterItem → Prop
  | .parameter value => ∀ default ∈ value.default, default.Sound
  | .separator _ => True

namespace Page

/-- Printing carries tokens of a line over into what is said, inside brackets. -/
def Carries (print : Page → Page) (tokens : List Token) (said : List (Kind × String)) : Prop :=
  ∀ ⦃code : List Char⦄ ⦃desk : Desk⦄ ⦃page : Page⦄ ⦃later : List Token⦄
    ⦃found : List (Kind × String)⦄,
    (∀ token ∈ tokens, token.isLayout = false ∧ token.kind ≠ .newline) → desk.front ≠ .single →
      desk.extra = 0 → Within desk.spot.depth tokens →
      Continues code (desk.behind tokens) (print page) later found →
      Continues code desk page (tokens ++ later) (said ++ found)

namespace Carries

variable {options : Options}

private theorem tokens (tokens : List Token) : Carries (·.tokens tokens) tokens (gist tokens) :=
  fun _ _ _ _ _ inLine noSingle noExtra _ =>
    Continues.tokens inLine (fun single => absurd single noSingle) (.inl noExtra)

private theorem nothing : Carries id [] [] := fun _ _ _ _ _ _ _ _ _ => id

private theorem append {first second : Page → Page} {front back : List Token}
    {said more : List (Kind × String)} (carries : Carries first front said)
    (carriesMore : Carries second back more) :
    Carries (fun page => second (first page)) (front ++ back) (said ++ more) := by
  intro code desk page later found inLine noSingle noExtra within continues
  rw [List.forall_mem_append] at inLine
  rw [within_append] at within
  rw [Desk.behind_append] at continues
  rw [List.append_assoc, List.append_assoc]
  have behind := desk.behind_eq front
  refine carries inLine.1 noSingle noExtra within.1 (carriesMore inLine.2 ?_ ?_ ?_ continues)
  · exact Desk.front_behind noSingle front
  · rw [behind]
    exact noExtra
  · rw [behind, Spot.depth_behind fun token member => (inLine.1 token member).1]
    exact within.2

private theorem token (token : Token) :
    Carries (·.token token) [token] (gist [token]) := tokens [token]

private theorem default (wrapper : isIdentifier options.wrapperName.toList = true)
    {default : ParameterDefault} (sound : default.Sound) :
    Carries (·.default options (some default)) default.tokens (default.linear options) := by
  obtain ⟨eq, value⟩ := default
  cases value with
  | expression tokens =>
    have carries := (Carries.token eq).append (.tokens tokens)
    exact carries
  | deferred value =>
    obtain ⟨isEq, sound⟩ := sound
    intro code desk page later found inLine noSingle noExtra within continues
    have isOp := (Token.isOp_iff.1 isEq).1
    have split : value.call.tokens =
        (value.call.name :: (value.call.gap ++ value.call.opening :: value.call.inner)) ++
          [value.call.closing] := by
      simp [MarkerCall.tokens]
    have isClosing := Token.kind_of_closesBracket sound.whole.closing
    have behind : desk.behind (eq :: value.call.tokens) =
        { desk with
          front := .lexeme
          spot := (desk.spot.after eq).behind value.call.tokens } := by
      rw [split, ← List.cons_append, Desk.behind_concat, Token.isBreak, isClosing]
      rfl
    rw [ParameterDefault.tokens, DefaultValue.tokens, List.forall_mem_cons] at inLine
    rw [ParameterDefault.tokens, DefaultValue.tokens, Within] at within
    rw [ParameterDefault.tokens, DefaultValue.tokens, behind] at continues
    rw [ParameterDefault.linear, List.append_assoc, gist_cons, gist_nil, List.append_nil]
    refine Continues.leave inLine.1.1 inLine.1.2 (fun single => absurd single noSingle)
      (.inl noExtra) (.single (.inl isEq)) ?_
    refine Continues.deferred sound wrapper inLine.2 rfl noExtra ?_ continues
    rw [Spot.depth_after inLine.1.1]
    exact within.2

private theorem optional (wrapper : isIdentifier options.wrapperName.toList = true)
    {default : Option ParameterDefault} (sound : ∀ value ∈ default, value.Sound) :
    Carries (·.default options default) ((default.map ParameterDefault.tokens).getD [])
      ((default.map (ParameterDefault.linear options)).getD []) := by
  cases default with
  | none => exact nothing
  | some value => exact Carries.default wrapper (sound value rfl)

private theorem item (wrapper : isIdentifier options.wrapperName.toList = true)
    {item : ParameterItem} (sound : item.Sound) :
    Carries (Page.item options · item) item.tokens (item.linear options) := by
  cases item with
  | separator value =>
    have carries := (Carries.token value.token).append (.tokens value.suffix)
    rw [← gist_append] at carries
    exact carries
  | parameter value =>
    have carries := ((((Carries.tokens value.stars).append (.token value.name)).append
      (.tokens value.hint)).append (.optional wrapper sound)).append (.tokens value.suffix)
    rw [← gist_append, ← gist_append, List.append_assoc value.stars, List.singleton_append] at carries
    exact carries

private theorem items (wrapper : isIdentifier options.wrapperName.toList = true)
    {items : List ParameterItem} (sound : ∀ item ∈ items, item.Sound) :
    Carries (items.foldl (Page.item options)) (items.flatMap ParameterItem.tokens)
      (items.flatMap (ParameterItem.linear options)) := by
  induction items with
  | nil => exact nothing
  | cons item rest ih =>
    rw [List.forall_mem_cons] at sound
    have carries := (Carries.item wrapper sound.1).append (ih sound.2)
    exact carries

theorem parameters (wrapper : isIdentifier options.wrapperName.toList = true)
    {parameters : Parameters} (sound : ∀ item ∈ parameters.items, item.Sound) :
    Carries (fun page => parameters.items.foldl (Page.item options) (page.tokens parameters.leading))
      parameters.tokens
      (gist parameters.leading ++ parameters.items.flatMap (ParameterItem.linear options)) := by
  have carries := (Carries.tokens parameters.leading).append (.items wrapper sound)
  exact carries

end Carries

end Page

end DeferredDefaults
