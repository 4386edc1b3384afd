import DeferredDefaults.Proofs.Tree.ParameterKinds
import DeferredDefaults.Proofs.Tree.Trivia

/-!
Late binding and trivia in a parameter list. Trivia between the `=` of a parameter and the marker
shields the marker: its default is left as it is. Of lists that shield the same markers, late
binding sees the code alone. It defers the same defaults with the same names to read, or it fails
for the same reason.
-/

set_option autoImplicit false
set_option relaxedAutoImplicit false

namespace DeferredDefaults

/-- Both computations fail for the same reason, or both succeed with related results. -/
inductive SameOutcome {α : Type} (related : α → α → Prop) : Except Fault α → Except Fault α → Prop
  | error {fault other : Fault} : fault.reason = other.reason →
      SameOutcome related (.error fault) (.error other)
  | ok {value other : α} : related value other → SameOutcome related (.ok value) (.ok other)

private theorem SameOutcome.bind {α β : Type} {related : α → α → Prop} {relatedNext : β → β → Prop}
    {left right : Except Fault α} {next nextRight : α → Except Fault β}
    (same : SameOutcome related left right)
    (step : ∀ value other, related value other →
      SameOutcome relatedNext (next value) (nextRight other)) :
    SameOutcome relatedNext (left >>= next) (right >>= nextRight) := by
  cases same with
  | error reason => exact .error reason
  | ok values => exact step _ _ values

namespace MarkerCall

private theorem arguments_code (pieces : Pieces) :
    arguments pieces.code =
      ((arguments pieces).1.map Argument.code, Token.code (arguments pieces).2) := by
  simp only [arguments, Pieces.code, Token.all_isTrivia_code]
  split <;> simp [Argument.code]

private theorem ofTokens?_code {tokens : List Token}
    (begins : ∀ first ∈ tokens.head?, first.isTrivia = false)
    (ends : ∀ last ∈ tokens.getLast?, last.isTrivia = false) (marker : String) :
    ofTokens? marker (Token.code tokens) = (ofTokens? marker tokens).map code := by
  cases tokens with
  | nil => rfl
  | cons name rest =>
    rw [Token.code_cons (begins name rfl)]
    have whole := Token.takeWhile_of_code (@Token.isTrivia_of_mem_code rest)
    have gap := List.takeWhile_append_dropWhile (p := Token.isTrivia) (l := rest)
    have opens := Token.isTrivia_head?_dropWhile rest
    simp only [ofTokens?, whole]
    rw [← Token.code_dropWhile rest]
    split
    · cases split : rest.dropWhile Token.isTrivia with
      | nil => rfl
      | cons opening inner =>
        rw [split] at gap opens
        rw [Token.code_cons (opens opening rfl)]
        simp only [Cut.atClose_code]
        split
        · cases close : Cut.atClose 0 inner with
          | none => rfl
          | some cut =>
            obtain ⟨body, closing, after⟩ := cut
            cases after with
            | nil =>
              simp only [Option.map_some, Cut.code, Token.code_nil, Pieces.ofTokens_code,
                arguments_code, code, Token.code_takeWhile]
            | cons other others =>
              -- Tokens behind the bracket end with code, so some of them are code.
              have behind : Token.code (other :: others) ≠ [] := by
                refine Token.code_ne_nil (fun last found => ends last ?_) (by simp)
                rw [← gap, ← Cut.tokens_atClose close, Cut.tokens]
                simpa [List.getLast?_append, List.getLast?_cons] using found
              obtain ⟨first, more, isCode⟩ := List.exists_cons_of_ne_nil behind
              simp only [Option.map_some, Cut.code, isCode]
              rfl
        · rfl
    · rfl

end MarkerCall

private theorem Argument.isKeyword_code (argument : Argument) :
    argument.code.isKeyword = argument.isKeyword := by
  unfold isKeyword
  rw [show argument.code.value.filter (fun token => !token.isTrivia) =
    argument.value.filter (fun token => !token.isTrivia) from Token.code_code argument.value]

namespace Deferred

/-- Trivia stands in front of the marker. -/
def isShielded (marker : String) (tokens : List Token) : Bool :=
  (tokens.head?.any Token.isTrivia) &&
    (Token.code tokens).head?.any fun first => first.isName marker

private theorem ofTokens?_of_trivia {tokens : List Token}
    (trivia : tokens.head?.any Token.isTrivia = true) (marker name : String)
    (dependencies : List String) : ofTokens? marker name dependencies tokens = .ok none := by
  cases tokens with
  | nil => rfl
  | cons first rest =>
    have noName := Token.isName_of_isTrivia trivia marker
    simp [ofTokens?, MarkerCall.ofTokens?, noName]

private theorem ofTokens?_of_unmarked {marker : String} {tokens : List Token}
    (unmarked : ((Token.code tokens).head?.any fun first => first.isName marker) = false)
    (name : String) (dependencies : List String) :
    ofTokens? marker name dependencies tokens = .ok none := by
  cases tokens with
  | nil => rfl
  | cons first rest =>
    cases trivia : first.isTrivia with
    | true =>
      have leads : (first :: rest).head?.any Token.isTrivia = true := trivia
      exact ofTokens?_of_trivia leads marker name dependencies
    | false =>
      rw [Token.code_cons trivia] at unmarked
      have noName : first.isName marker = false := unmarked
      simp [ofTokens?, MarkerCall.ofTokens?, noName]

private theorem ofTokens?_of_begins {tokens tokens' : List Token}
    (same : Token.code tokens' = Token.code tokens)
    (begins : ∀ first ∈ tokens.head?, first.isTrivia = false)
    (begins' : ∀ first ∈ tokens'.head?, first.isTrivia = false)
    (ends : ∀ last ∈ tokens.getLast?, last.isTrivia = false)
    (ends' : ∀ last ∈ tokens'.getLast?, last.isTrivia = false)
    (marker name : String) (dependencies : List String) :
    SameOutcome (fun found other => found.map code = other.map code)
      (ofTokens? marker name dependencies tokens')
      (ofTokens? marker name dependencies tokens) := by
  have head : tokens'.head? = tokens.head? := by
    rw [← Token.head?_code begins', same, Token.head?_code begins]
  have calls : (MarkerCall.ofTokens? marker tokens').map MarkerCall.code =
      (MarkerCall.ofTokens? marker tokens).map MarkerCall.code := by
    rw [← MarkerCall.ofTokens?_code begins' ends', same, MarkerCall.ofTokens?_code begins ends]
  simp only [ofTokens?, head]
  cases isCall : MarkerCall.ofTokens? marker tokens with
  | none =>
    rw [isCall] at calls
    rw [Option.map_eq_none_iff.1 calls]
    cases tokens.head? with
    | none => exact .ok rfl
    | some first =>
      simp only
      split
      · exact .error rfl
      · exact .ok rfl
  | some call =>
    rw [isCall, Option.map_some, Option.map_eq_some_iff] at calls
    obtain ⟨call', isCall', sameCall⟩ := calls
    have args : call'.args.map Argument.code = call.args.map Argument.code :=
      congrArg MarkerCall.args sameCall
    have empty : call'.args.isEmpty = call.args.isEmpty := by
      rw [← List.isEmpty_map (f := Argument.code), args, List.isEmpty_map]
    have keyword : (call'.args.find? Argument.isKeyword).map Argument.code =
        (call.args.find? Argument.isKeyword).map Argument.code := by
      have filter : ∀ list : List Argument, (list.find? Argument.isKeyword).map Argument.code =
          (list.map Argument.code).find? Argument.isKeyword := by
        intro list
        have erased : Argument.isKeyword ∘ Argument.code = Argument.isKeyword :=
          funext Argument.isKeyword_code
        rw [List.find?_map, erased]
      rw [filter, filter, args]
    rw [isCall']
    simp only [empty]
    split
    · exact .error rfl
    · cases find : call.args.find? Argument.isKeyword with
      | none =>
        rw [find] at keyword
        rw [Option.map_eq_none_iff.1 keyword]
        refine .ok ?_
        simp [code, sameCall]
      | some argument =>
        rw [find, Option.map_some, Option.map_eq_some_iff] at keyword
        obtain ⟨argument', find', -⟩ := keyword
        rw [find']
        exact .error rfl

/-- Defaults with the same code are deferred alike, if trivia shields the marker in both or in
neither. -/
private theorem ofTokens?_of_code {marker : String} {tokens tokens' : List Token}
    (same : Token.code tokens' = Token.code tokens)
    (shielded : isShielded marker tokens' = isShielded marker tokens)
    (ends : ∀ last ∈ tokens.getLast?, last.isTrivia = false)
    (ends' : ∀ last ∈ tokens'.getLast?, last.isTrivia = false)
    (name : String) (dependencies : List String) :
    SameOutcome (fun found other => found.map code = other.map code)
      (ofTokens? marker name dependencies tokens')
      (ofTokens? marker name dependencies tokens) := by
  cases marked : (Token.code tokens).head?.any fun first => first.isName marker with
  | false =>
    rw [ofTokens?_of_unmarked marked, ofTokens?_of_unmarked (same ▸ marked)]
    exact .ok rfl
  | true =>
    rw [isShielded, isShielded, same, marked, Bool.and_true, Bool.and_true] at shielded
    cases trivia : tokens.head?.any Token.isTrivia with
    | true =>
      rw [ofTokens?_of_trivia trivia, ofTokens?_of_trivia (shielded.trans trivia)]
      exact .ok rfl
    | false =>
      have begins : ∀ {list : List Token}, list.head?.any Token.isTrivia = false →
          ∀ first ∈ list.head?, first.isTrivia = false := by
        intro list none first found
        rw [Option.mem_def.1 found] at none
        exact none
      exact ofTokens?_of_begins same (begins trivia) (begins (shielded.trans trivia)) ends ends'
        marker name dependencies

end Deferred

/-- Trivia stands between the `=` of the parameter and the marker. -/
def Parameter.isShielded (marker : String) (parameter : Parameter) : Bool :=
  match parameter.default with
  | some ⟨_, .expression tokens⟩ => Deferred.isShielded marker tokens
  | _ => false

def Parameter.EndsWithCode (parameter : Parameter) : Prop :=
  ∀ eq tokens, parameter.default = some ⟨eq, .expression tokens⟩ →
    ∀ last ∈ tokens.getLast?, last.isTrivia = false

namespace Parameters

private theorem suffix_parameter {reading : Reading} {raw : RawItem} {position : Position}
    {parameter : Parameter} (read : reading.parameter raw position = .ok parameter) :
    parameter.suffix = raw.suffix := by
  simp only [Reading.parameter] at read
  split at read
  · cases read
  · split at read
    · cases read
    · split at read
      · cases read
      · obtain ⟨default, -, read⟩ := bind_eq_ok.1 read
        split at read
        · cases read
        · cases read
          rfl

private theorem endsWithCode_parameter {reading : Reading} {raw : RawItem} (trimmed : raw.Trimmed)
    {position : Position} {parameter : Parameter}
    (read : reading.parameter raw position = .ok parameter) : parameter.EndsWithCode := by
  intro eq tokens default last found
  have whole := tokens_parameter read
  rw [Parameter.tokens, suffix_parameter read, List.append_cancel_right_eq, default] at whole
  refine trimmed.back last ?_
  rw [← whole, List.getLast?_append]
  simp [ParameterDefault.tokens, DefaultValue.tokens, List.getLast?_cons, Option.mem_def.1 found]

private theorem endsWithCode_step {function : Position} {raw : RawItem} (trimmed : raw.Trimmed)
    {reading next : Reading} (ends : ∀ parameter ∈ reading.list, parameter.EndsWithCode)
    (read : reading.step function raw = .ok next) :
    ∀ parameter ∈ next.list, parameter.EndsWithCode := by
  rcases step_eq_ok read with ⟨-, token, -, -, rfl⟩ | ⟨token, -, -, rfl⟩ |
    ⟨position, value, found, rfl⟩
  · rw [Reading.list_of_slash rfl, List.forall_mem_map]
    exact ends
  · rw [Reading.list_of_separator rfl]
    exact ends
  · rw [Reading.list_of_parameter rfl, List.forall_mem_append, List.forall_mem_singleton]
    exact ⟨ends, endsWithCode_parameter trimmed found⟩

private theorem endsWithCode_foldlM {function : Position} {items : List RawItem}
    (trimmed : ∀ raw ∈ items, raw.Trimmed) {reading next : Reading}
    (ends : ∀ parameter ∈ reading.list, parameter.EndsWithCode)
    (read : items.foldlM (Reading.step function) reading = .ok next) :
    ∀ parameter ∈ next.list, parameter.EndsWithCode :=
  foldlM_keeps (fun raw member _ _ ends read => endsWithCode_step (trimmed raw member) ends read)
    ends read

private theorem endsWithCode_read {function : Position} {inner : List Token}
    {parameters : Parameters} (found : read function inner = .ok parameters) :
    ∀ parameter ∈ parameters.list, parameter.EndsWithCode := by
  obtain ⟨reading, items, found⟩ := bind_eq_ok.1 found
  cases found
  exact endsWithCode_foldlM (trimmed_rawItems _ _) (List.forall_mem_nil _) items

end Parameters

namespace LateBinding

variable {marker : String}

private theorem parameter_of_shielded {value : Parameter}
    (shielded : value.isShielded marker = true) (scope : Scope) (passed : Scope.Passed) :
    parameter marker scope passed value = .ok (value, []) := by
  unfold parameter
  split
  · next eq tokens default =>
    simp only [Parameter.isShielded, default, Deferred.isShielded, Bool.and_eq_true] at shielded
    split
    · rfl
    · simp only [Deferred.ofTokens?_of_trivia shielded.1]
      rfl
  · rfl

/-- Parameters with the same code are bound alike, if trivia shields the marker in both or in
neither. -/
private theorem parameter_of_code {value value' : Parameter} (same : value'.code = value.code)
    (shielded : value'.isShielded marker = value.isShielded marker)
    (ends : value.EndsWithCode) (ends' : value'.EndsWithCode)
    (scope : Scope) (passed : Scope.Passed) :
    SameOutcome (fun found other => found.1.code = other.1.code ∧ found.2 = other.2)
      (parameter marker scope passed value') (parameter marker scope passed value) := by
  obtain ⟨kind, stars, name, hint, default, suffix⟩ := value
  obtain ⟨kind', stars', name', hint', default', suffix'⟩ := value'
  have fields := same
  simp only [Parameter.code, Parameter.mk.injEq] at fields
  obtain ⟨rfl, rfl, rfl, sameHint, sameDefaults, sameSuffix⟩ := fields
  cases default with
  | none =>
    obtain rfl := Option.map_eq_none_iff.1 sameDefaults
    exact .ok ⟨same, rfl⟩
  | some default =>
    obtain ⟨default', rfl, sameDefault⟩ := Option.map_eq_some_iff.1 sameDefaults
    obtain ⟨eq, default⟩ := default
    obtain ⟨eq', default'⟩ := default'
    cases default with
    | deferred value =>
      cases default' with
      | deferred value' => exact .ok ⟨same, rfl⟩
      | expression tokens' => cases sameDefault
    | expression tokens =>
      cases default' with
      | deferred value' => cases sameDefault
      | expression tokens' =>
        obtain ⟨rfl, sameValue⟩ := ParameterDefault.mk.inj sameDefault
        have sameTokens := DefaultValue.expression.inj sameValue
        have deferred := Deferred.ofTokens?_of_code sameTokens shielded (ends _ _ rfl)
          (ends' _ _ rfl) name'.text (scope.visible passed kind')
        simp only [parameter]
        split
        · exact .ok ⟨same, rfl⟩
        · refine deferred.bind fun found other sameFound => ?_
          cases other with
          | none =>
            obtain rfl := Option.map_eq_none_iff.1 sameFound
            exact .ok ⟨same, rfl⟩
          | some other =>
            obtain ⟨found, rfl, sameCall⟩ := Option.map_eq_some_iff.1 sameFound
            refine .ok ⟨?_, rfl⟩
            simp [Parameter.code, sameHint, sameSuffix, ParameterDefault.code, sameCall]

private theorem next_of_code {value value' : Parameter} (same : value'.code = value.code)
    (passed : Scope.Passed) : passed.next value' = passed.next value := by
  have code : ∀ value : Parameter, passed.next value.code = passed.next value := by
    intro value
    simp [Scope.Passed.next, Parameter.code]
  rw [← code, same, code]

private theorem items_of_code {list list' : List ParameterItem}
    (same : list'.map ParameterItem.code = list.map ParameterItem.code)
    (shielded : (list'.filterMap ParameterItem.parameter?).map (Parameter.isShielded marker) =
      (list.filterMap ParameterItem.parameter?).map (Parameter.isShielded marker))
    (ends : ∀ value ∈ list.filterMap ParameterItem.parameter?, value.EndsWithCode)
    (ends' : ∀ value ∈ list'.filterMap ParameterItem.parameter?, value.EndsWithCode)
    (scope : Scope) (passed : Scope.Passed) :
    SameOutcome (fun found other => found.1.map ParameterItem.code = other.1.map ParameterItem.code ∧
        found.2 = other.2)
      (items marker scope passed list') (items marker scope passed list) := by
  induction list generalizing list' passed with
  | nil =>
    obtain rfl := List.map_eq_nil_iff.1 same
    exact .ok ⟨rfl, rfl⟩
  | cons item rest ih =>
    obtain ⟨item', rest', rfl, sameItem, sameRest⟩ := List.map_eq_cons_iff.1 same
    cases item with
    | separator value =>
      cases item' with
      | parameter value' => cases sameItem
      | separator value' =>
        refine (ih sameRest shielded ends ends' passed).bind fun found other sameFound => ?_
        refine .ok ⟨?_, sameFound.2⟩
        rw [List.map_cons, List.map_cons, sameItem, sameFound.1]
    | parameter value =>
      cases item' with
      | separator value' => cases sameItem
      | parameter value' =>
        have sameValue : value'.code = value.code := ParameterItem.parameter.inj sameItem
        have shields := List.cons.inj shielded
        have endsBoth := List.forall_mem_cons.1 ends
        have endsBoth' := List.forall_mem_cons.1 ends'
        simp only [items]
        refine (parameter_of_code sameValue shields.1 endsBoth.1 endsBoth'.1 scope passed).bind
          fun bound boundOther sameBound => ?_
        rw [next_of_code sameValue]
        refine (ih sameRest shields.2 endsBoth.2 endsBoth'.2 (passed.next value)).bind
          fun found other sameFound => ?_
        refine .ok ⟨?_, ?_⟩
        · rw [List.map_cons, List.map_cons, sameFound.1, ParameterItem.code, ParameterItem.code,
            sameBound.1]
        · rw [sameBound.2, sameFound.2]

private theorem ofParameters_of_code {parameters parameters' : Parameters}
    (same : parameters'.code = parameters.code) :
    Scope.ofParameters parameters' = Scope.ofParameters parameters := by
  have item : ∀ item : ParameterItem, item.code.parameter? = item.parameter?.map Parameter.code := by
    intro item
    cases item <;> rfl
  have list : ∀ parameters : Parameters,
      parameters.code.list = parameters.list.map Parameter.code := by
    intro parameters
    simp only [Parameters.list, Parameters.code, List.filterMap_map, List.map_filterMap,
      Function.comp_def, item]
  have code : ∀ parameters : Parameters,
      Scope.ofParameters parameters.code = Scope.ofParameters parameters := by
    intro parameters
    simp [Scope.ofParameters, Parameters.names, list, List.filter_map, List.countP_map,
      Function.comp_def, Parameter.code]
  rw [← code, same, code]

private theorem header_of_code {first other : Header} (same : other.code = first.code)
    (shielded : other.parameters.list.map (Parameter.isShielded marker) =
      first.parameters.list.map (Parameter.isShielded marker))
    (ends : ∀ value ∈ first.parameters.list, value.EndsWithCode)
    (ends' : ∀ value ∈ other.parameters.list, value.EndsWithCode) :
    SameOutcome (fun found other => found.1.code = other.1.code ∧ found.2 = other.2)
      (header marker other) (header marker first) := by
  obtain ⟨name, isAsync, head, parameters, tail⟩ := first
  obtain ⟨name', isAsync', head', parameters', tail'⟩ := other
  simp only [Header.code, Header.mk.injEq] at same
  obtain ⟨rfl, rfl, rfl, sameParameters, rfl⟩ := same
  obtain ⟨sameLeading, sameItems⟩ := Parameters.mk.inj sameParameters
  simp only [header, ofParameters_of_code sameParameters]
  refine (items_of_code sameItems shielded ends ends' _ {}).bind fun found other sameFound => ?_
  refine .ok ⟨?_, sameFound.2⟩
  simp [Header.code, Parameters.code, sameLeading, sameFound.1]

end LateBinding

namespace Header

/-- Trivia in the parameter list of a header that is accepted. Where it stands directly behind stars
or directly behind a parameter's name, the header is refused. Elsewhere the header is read with the
same code. Its defaults are deferred alike or refused for the same reason, unless the trivia stands
between an `=` and the marker: such a default is left as it is. -/
theorem lateBound_of_code {first : Token} {more others behind inner : List Token} {header : Header}
    (found : read first more = .ok (header, behind))
    (line : first :: others = header.head ++ inner ++ header.tail ++ behind)
    (same : Token.code inner = Token.code header.parameters.tokens) :
    (Parameters.isTight inner = false → ∃ fault, read first others = .error fault) ∧
    (Parameters.isTight inner = true → ∃ other, read first others = .ok (other, behind) ∧
      other.code = header.code ∧ ∀ marker,
        (other.parameters.list.map (Parameter.isShielded marker) =
            header.parameters.list.map (Parameter.isShielded marker) →
          SameOutcome (fun found bound => found.1.code = bound.1.code ∧ found.2 = bound.2)
            (LateBinding.header marker other) (LateBinding.header marker header)) ∧
        ∀ value ∈ other.parameters.list, value.isShielded marker = true → ∀ scope passed,
          LateBinding.parameter marker scope passed value = .ok (value, [])) := by
  have readList := parameters_read found
  rw [read_of_code found line same]
  obtain ⟨tight, loose⟩ := Parameters.read_of_code same readList first.start
  refine ⟨fun isLoose => ?_, fun isTight => ?_⟩
  · obtain ⟨fault, failed⟩ := loose isLoose
    exact ⟨fault, by rw [failed]; rfl⟩
  · obtain ⟨parameters, readInner, sameParameters⟩ := tight isTight
    have sameHeader : ({ header with parameters := parameters } : Header).code = header.code := by
      rw [code, code, sameParameters]
    refine ⟨{ header with parameters := parameters }, by rw [readInner]; rfl, sameHeader,
      fun marker => ⟨fun shielded => ?_, fun value _ shielded => ?_⟩⟩
    · exact LateBinding.header_of_code sameHeader shielded
        (Parameters.endsWithCode_read readList) (Parameters.endsWithCode_read readInner)
    · exact LateBinding.parameter_of_shielded shielded

section Spaced

def spacedToken (kind : Kind) (text : String) : Token := ⟨kind, text, .origin, .origin⟩

def spacedTrivia : List Token := [spacedToken .comment "# c", spacedToken .nl "\n"]

/-- The header `def f(a, b = late(a)):`. -/
def spacedHeader : Header where
  name := "f"
  isAsync := false
  head := [spacedToken .name "def", spacedToken .name "f", spacedToken .op "("]
  parameters := ⟨[], [
    .parameter ⟨.positionalOrKeyword, [], spacedToken .name "a", [], none, [spacedToken .op ","]⟩,
    .parameter ⟨.positionalOrKeyword, [], spacedToken .name "b", [],
      some ⟨spacedToken .op "=", .expression [spacedToken .name "late", spacedToken .op "(",
        spacedToken .name "a", spacedToken .op ")"]⟩, []⟩]⟩
  tail := [spacedToken .op ")", spacedToken .op ":"]

/-- Its parameter list with trivia around most tokens, and some behind the name `b` and behind its
`=`. -/
def spacedParameters (behindName behindEq : List Token) : List Token :=
  spacedTrivia ++ [spacedToken .name "a"] ++ spacedTrivia ++ [spacedToken .op ","] ++
    spacedTrivia ++ [spacedToken .name "b"] ++ behindName ++ [spacedToken .op "="] ++ behindEq ++
    [spacedToken .name "late"] ++ spacedTrivia ++ [spacedToken .op "("] ++ spacedTrivia ++
    [spacedToken .name "a", spacedToken .op ")"] ++ spacedTrivia

def spacedLine (inner : List Token) : List Token :=
  spacedHeader.head.tail ++ inner ++ spacedHeader.tail

/-- Trivia at most places changes nothing. Behind a name it is refused, and behind the `=` it keeps
the default from being deferred. -/
theorem lateBound_of_code_spaced :
    (LateBinding.header "late" spacedHeader).map Prod.snd = .ok [⟨"b", ["a"]⟩] ∧
    (∃ other, read (spacedToken .name "def") (spacedLine (spacedParameters [] [])) =
        .ok (other, []) ∧ other.code = spacedHeader.code ∧
      SameOutcome (fun found bound => found.1.code = bound.1.code ∧ found.2 = bound.2)
        (LateBinding.header "late" other) (LateBinding.header "late" spacedHeader)) ∧
    (∃ fault, read (spacedToken .name "def") (spacedLine (spacedParameters spacedTrivia [])) =
      .error fault) ∧
    ∃ other, read (spacedToken .name "def") (spacedLine (spacedParameters [] spacedTrivia)) =
      .ok (other, []) ∧ other.code = spacedHeader.code ∧
        (LateBinding.header "late" other).map Prod.snd = .ok [] := by
  have found : read (spacedToken .name "def") (spacedLine spacedHeader.parameters.tokens) =
      .ok (spacedHeader, []) := rfl
  have line : ∀ inner, spacedToken .name "def" :: spacedLine inner =
      spacedHeader.head ++ inner ++ spacedHeader.tail ++ [] := by
    intro inner
    rw [List.append_nil]
    rfl
  have refused :=
    (lateBound_of_code found (line (spacedParameters spacedTrivia [])) rfl).1 rfl
  refine ⟨rfl, ?_, refused, ?_⟩
  · obtain ⟨other, again, code, bound⟩ :=
      (lateBound_of_code found (line (spacedParameters [] [])) rfl).2 rfl
    have shields : (read (spacedToken .name "def") (spacedLine (spacedParameters [] []))).map
        (fun found => found.1.parameters.list.map (Parameter.isShielded "late")) =
          .ok [false, false] := rfl
    rw [again] at shields
    exact ⟨other, again, code, (bound "late").1 (Except.ok.inj shields)⟩
  · obtain ⟨other, again, code, -⟩ :=
      (lateBound_of_code found (line (spacedParameters [] spacedTrivia)) rfl).2 rfl
    have resolutions : (read (spacedToken .name "def")
        (spacedLine (spacedParameters [] spacedTrivia))).map
          (fun found => (LateBinding.header "late" found.1).map Prod.snd) = .ok (.ok []) := rfl
    rw [again] at resolutions
    exact ⟨other, again, code, Except.ok.inj resolutions⟩

end Spaced

end Header

end DeferredDefaults
