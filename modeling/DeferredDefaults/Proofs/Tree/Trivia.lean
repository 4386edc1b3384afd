import DeferredDefaults.Proofs.Tree.Lossless
import DeferredDefaults.Proofs.Tree.Relocation

/-!
Trivia in a parameter list. Comments and line breaks between the parentheses carry no syntax but in
two places: directly behind the stars of a parameter and directly behind its name they are refused.
In a list that has none there, everything is read as without them.
-/

set_option autoImplicit false
set_option relaxedAutoImplicit false

namespace DeferredDefaults

namespace Token

def code (tokens : List Token) : List Token := tokens.filter fun token => !token.isTrivia

@[simp] theorem code_nil : code [] = [] := rfl

private theorem code_cons_of_trivia {token : Token} (trivia : token.isTrivia = true)
    (rest : List Token) :
    code (token :: rest) = code rest := by
  simp [code, trivia]

theorem code_cons {token : Token} (noTrivia : token.isTrivia = false) (rest : List Token) :
    code (token :: rest) = token :: code rest := by
  simp [code, noTrivia]

@[simp] theorem code_append (front back : List Token) :
    code (front ++ back) = code front ++ code back := List.filter_append _ _

@[simp] theorem code_code (tokens : List Token) : code (code tokens) = code tokens := by
  simp [code]

private theorem code_eq_nil_iff (tokens : List Token) :
    code tokens = [] ↔ tokens.all isTrivia = true := by
  simp [code, List.filter_eq_nil_iff]

theorem all_isTrivia_code (tokens : List Token) :
    (code tokens).all isTrivia = tokens.all isTrivia := by
  rw [Bool.eq_iff_iff, ← code_eq_nil_iff, ← code_eq_nil_iff, code_code]

private theorem isTrivia_of_isOp {token : Token} {op : String} (isOp : token.isOp op = true) :
    token.isTrivia = false := by
  rw [← Bool.not_eq_true]
  intro trivia
  rw [isOp_of_isTrivia trivia] at isOp
  cases isOp

private theorem closesBracket_of_isTrivia {token : Token} (trivia : token.isTrivia = true) :
    token.closesBracket = false := by
  simp [closesBracket, isOp_of_isTrivia trivia]

private theorem isTrivia_of_closesBracket {token : Token} (closes : token.closesBracket = true) :
    token.isTrivia = false := by
  rw [← Bool.not_eq_true]
  intro trivia
  rw [closesBracket_of_isTrivia trivia] at closes
  cases closes

theorem isTrivia_of_mem_code {tokens : List Token} : ∀ token ∈ code tokens, token.isTrivia = false := by
  intro token member
  simpa using (List.mem_filter.1 member).2

theorem code_takeWhile (tokens : List Token) : code (tokens.takeWhile isTrivia) = [] := by
  rw [code_eq_nil_iff]
  exact List.all_takeWhile

theorem code_dropWhile (tokens : List Token) : code (tokens.dropWhile isTrivia) = code tokens := by
  conv => rhs; rw [← List.takeWhile_append_dropWhile (p := isTrivia) (l := tokens)]
  rw [code_append, code_takeWhile, List.nil_append]

theorem isTrivia_head?_dropWhile (tokens : List Token) :
    ∀ first ∈ (tokens.dropWhile isTrivia).head?, first.isTrivia = false := by
  intro first found
  have heads := List.head?_dropWhile_not isTrivia tokens
  rwa [found] at heads

private theorem isEmpty_code {tokens : List Token}
    (begins : ∀ first ∈ tokens.head?, first.isTrivia = false) :
    (code tokens).isEmpty = tokens.isEmpty := by
  cases tokens with
  | nil => rfl
  | cons first rest =>
    rw [code_cons (begins first rfl)]
    rfl

theorem head?_code {tokens : List Token} (begins : ∀ first ∈ tokens.head?, first.isTrivia = false) :
    (code tokens).head? = tokens.head? := by
  cases tokens with
  | nil => rfl
  | cons first rest =>
    rw [code_cons (begins first rfl)]
    rfl

theorem code_ne_nil {tokens : List Token} (ends : ∀ last ∈ tokens.getLast?, last.isTrivia = false)
    (nonempty : tokens ≠ []) : code tokens ≠ [] := by
  rw [ne_eq, code_eq_nil_iff, List.all_eq_true]
  intro trivia
  have noTrivia := ends _ (List.getLast?_eq_some_getLast nonempty)
  rw [trivia _ (List.getLast_mem nonempty)] at noTrivia
  cases noTrivia

theorem takeWhile_of_code {tokens : List Token} (noTrivia : ∀ token ∈ tokens, token.isTrivia = false) :
    tokens.takeWhile isTrivia = [] ∧ tokens.dropWhile isTrivia = tokens := by
  cases tokens with
  | nil => exact ⟨rfl, rfl⟩
  | cons first rest => simp [noTrivia first List.mem_cons_self]

private theorem split_of_code {front front' back back' : List Token} {token token' : Token}
    (noTrivia : token.isTrivia = false) (noTrivia' : token'.isTrivia = false)
    (whole : front ++ token :: back = front' ++ token' :: back')
    (same : code front = code front') : front = front' ∧ token = token' ∧ back = back' := by
  induction front generalizing front' with
  | nil =>
    cases front' with
    | nil => simpa using whole
    | cons first rest =>
      obtain rfl := (List.cons.inj whole).1
      rw [code_cons noTrivia] at same
      cases same
  | cons first rest ih =>
    cases front' with
    | nil =>
      obtain rfl := (List.cons.inj whole).1
      rw [code_cons noTrivia'] at same
      cases same
    | cons first' rest' =>
      rw [List.cons_append, List.cons_append, List.cons.injEq] at whole
      obtain ⟨rfl, whole⟩ := whole
      cases trivia : first.isTrivia with
      | true =>
        rw [code_cons_of_trivia trivia, code_cons_of_trivia trivia] at same
        obtain ⟨rfl, others⟩ := ih whole same
        exact ⟨rfl, others⟩
      | false =>
        rw [code_cons trivia, code_cons trivia] at same
        obtain ⟨rfl, others⟩ := ih whole (List.cons.inj same).2
        exact ⟨rfl, others⟩

end Token

open Token (code)

namespace Cut

def code (cut : Cut) : Cut := ⟨Token.code cut.before, cut.token, Token.code cut.after⟩

private theorem code_push_of_trivia {token : Token} (trivia : token.isTrivia = true) (cut : Cut) :
    (cut.push token).code = cut.code := by
  simp [code, push, Token.code_cons_of_trivia trivia]

private theorem code_push {token : Token} (noTrivia : token.isTrivia = false) (cut : Cut) :
    (cut.push token).code = cut.code.push token := by
  simp [code, push, Token.code_cons noTrivia]

private theorem map_code_push_of_trivia {token : Token} (trivia : token.isTrivia = true)
    (found : Option Cut) : (found.map (push token)).map code = found.map code := by
  cases found with
  | none => rfl
  | some cut => exact congrArg some (code_push_of_trivia trivia cut)

private theorem map_code_push {token : Token} (noTrivia : token.isTrivia = false)
    (found : Option Cut) :
    (found.map (push token)).map code = (found.map code).map (push token) := by
  cases found with
  | none => rfl
  | some cut => exact congrArg some (code_push noTrivia cut)

theorem atClose_code (depth : Nat) (list : List Token) :
    atClose depth (Token.code list) = (atClose depth list).map code := by
  induction list generalizing depth with
  | nil => rfl
  | cons token rest ih =>
    cases trivia : token.isTrivia with
    | true =>
      rw [Token.code_cons_of_trivia trivia, ih, atClose_cons,
        Token.closesBracket_of_isTrivia trivia, Token.depthAfter_of_isTrivia trivia,
        if_neg (by simp), map_code_push_of_trivia trivia]
    | false =>
      rw [Token.code_cons trivia, atClose_cons, atClose_cons, ih]
      split
      · rfl
      · rw [map_code_push trivia]

private theorem atOp_code (op : String) (depth : Nat) (list : List Token) :
    atOp op depth (Token.code list) = (atOp op depth list).map code := by
  induction list generalizing depth with
  | nil => rfl
  | cons token rest ih =>
    cases trivia : token.isTrivia with
    | true =>
      rw [Token.code_cons_of_trivia trivia, ih, atOp, Token.isOp_of_isTrivia trivia,
        Token.depthAfter_of_isTrivia trivia, if_neg (by simp), map_code_push_of_trivia trivia]
    | false =>
      rw [Token.code_cons trivia, atOp, atOp, ih]
      split
      · rfl
      · rw [map_code_push trivia]

end Cut

namespace Pieces

def code (pieces : Pieces) : Pieces :=
  ⟨pieces.ended.map fun piece => ⟨Token.code piece.value, piece.comma⟩, Token.code pieces.last⟩

private theorem code_push_of_trivia {token : Token} (trivia : token.isTrivia = true)
    (pieces : Pieces) :
    (pieces.push token).code = pieces.code := by
  obtain ⟨ended, last⟩ := pieces
  cases ended <;> simp [code, push, Token.code_cons_of_trivia trivia]

private theorem code_push {token : Token} (noTrivia : token.isTrivia = false) (pieces : Pieces) :
    (pieces.push token).code = pieces.code.push token := by
  obtain ⟨ended, last⟩ := pieces
  cases ended <;> simp [code, push, Token.code_cons noTrivia]

theorem ofTokens_code (splitter : Splitter) (list : List Token) :
    ofTokens splitter (Token.code list) = (ofTokens splitter list).code := by
  induction list generalizing splitter with
  | nil => rfl
  | cons token rest ih =>
    cases trivia : token.isTrivia with
    | true =>
      have isOp := Token.isOp_of_isTrivia trivia
      have separates : splitter.separates token = false := by
        simp [Splitter.separates, isOp]
      have after : splitter.after token = splitter := by
        simp [Splitter.after, Token.opensBracket, Token.closesBracket, isOp,
          Token.isName_of_isTrivia trivia]
      rw [Token.code_cons_of_trivia trivia, ih, ofTokens, separates, after]
      exact (code_push_of_trivia trivia _).symm
    | false =>
      rw [Token.code_cons trivia, ofTokens, ofTokens, ih]
      split
      · rfl
      · exact (code_push trivia _).symm

end Pieces

namespace Argument

def code (argument : Argument) : Argument := { argument with value := Token.code argument.value }

end Argument

namespace MarkerCall

def code (call : MarkerCall) : MarkerCall :=
  { call with gap := Token.code call.gap, args := call.args.map Argument.code,
              trailing := Token.code call.trailing }

end MarkerCall

def Deferred.code (deferred : Deferred) : Deferred := { deferred with call := deferred.call.code }

def ParameterDefault.code : ParameterDefault → ParameterDefault
  | ⟨eq, .expression tokens⟩ => ⟨eq, .expression (Token.code tokens)⟩
  | ⟨eq, .deferred deferred⟩ => ⟨eq, .deferred deferred.code⟩

def Parameter.code (parameter : Parameter) : Parameter :=
  { parameter with
    hint := Token.code parameter.hint
    default := parameter.default.map ParameterDefault.code
    suffix := Token.code parameter.suffix }

def ParameterItem.code : ParameterItem → ParameterItem
  | .parameter value => .parameter value.code
  | .separator value => .separator { value with suffix := Token.code value.suffix }

def Parameters.code (parameters : Parameters) : Parameters :=
  ⟨Token.code parameters.leading, parameters.items.map ParameterItem.code⟩

def Header.code (header : Header) : Header := { header with parameters := header.parameters.code }

namespace Parameters

private theorem code_splitTrailing (tokens : List Token) :
    Token.code (splitTrailing tokens).1 = Token.code tokens ∧
      Token.code (splitTrailing tokens).2 = [] := by
  have trailing : Token.code (splitTrailing tokens).2 = [] := by
    rw [splitTrailing_eq, Token.code_eq_nil_iff, List.all_reverse]
    exact List.all_takeWhile
  refine ⟨?_, trailing⟩
  conv => rhs; rw [← append_splitTrailing tokens]
  rw [Token.code_append, trailing, List.append_nil]

namespace RawItem

def code (raw : RawItem) : RawItem := ⟨Token.code raw.tokens, Token.code raw.suffix⟩

structure Trimmed (raw : RawItem) : Prop where
  front : ∀ first ∈ raw.tokens.head?, first.isTrivia = false
  back : ∀ last ∈ raw.tokens.getLast?, last.isTrivia = false

end RawItem

private theorem code_rawItems (last : List Token) (pieces : List Piece) :
    Token.code (rawItems last pieces).1 = [] := by
  cases pieces <;> exact Token.code_takeWhile _

private theorem splitTrailing_code (tokens : List Token) :
    splitTrailing (Token.code tokens) = (Token.code tokens, []) := by
  have reversed : ∀ token ∈ (Token.code tokens).reverse, token.isTrivia = false := by
    intro token member
    exact Token.isTrivia_of_mem_code token (List.mem_reverse.1 member)
  rw [splitTrailing_eq, (Token.takeWhile_of_code reversed).1, (Token.takeWhile_of_code reversed).2,
    List.reverse_reverse]
  rfl

private theorem rawItems_code (last : List Token) {pieces : List Piece}
    (commas : ∀ piece ∈ pieces, piece.comma.isOp "," = true) :
    rawItems (Token.code last)
        (pieces.map fun piece => (⟨Token.code piece.value, piece.comma⟩ : Piece)) =
      ([], (rawItems last pieces).2.map RawItem.code) := by
  have whole := fun tokens => Token.takeWhile_of_code (@Token.isTrivia_of_mem_code tokens)
  induction pieces with
  | nil =>
    have body := Token.isEmpty_code (Token.isTrivia_head?_dropWhile last)
    rw [Token.code_dropWhile] at body
    obtain ⟨core, trailing⟩ := code_splitTrailing (last.dropWhile Token.isTrivia)
    simp only [rawItems, List.map_nil, whole, splitTrailing_code, body]
    split
    · rfl
    · simp only [List.map_cons, List.map_nil, RawItem.code, core, trailing, Token.code_dropWhile]
  | cons piece rest ih =>
    rw [List.forall_mem_cons] at commas
    have behind := code_rawItems last rest
    obtain ⟨core, trailing⟩ := code_splitTrailing (piece.value.dropWhile Token.isTrivia)
    simp only [rawItems, List.map_cons, ih commas.2, whole, splitTrailing_code, RawItem.code, core,
      trailing, Token.code_dropWhile, Token.code_append,
      Token.code_cons (Token.isTrivia_of_isOp commas.1), behind, List.nil_append]

theorem trimmed_splitTrailing (tokens suffix : List Token) :
    RawItem.Trimmed ⟨(splitTrailing (tokens.dropWhile Token.isTrivia)).1, suffix⟩ := by
  have whole := append_splitTrailing (tokens.dropWhile Token.isTrivia)
  constructor
  · intro first found
    refine Token.isTrivia_head?_dropWhile tokens first ?_
    rw [← whole, List.head?_append, found]
    rfl
  · rw [splitTrailing_eq, List.getLast?_reverse]
    exact Token.isTrivia_head?_dropWhile _

theorem trimmed_rawItems (last : List Token) (pieces : List Piece) :
    ∀ raw ∈ (rawItems last pieces).2, raw.Trimmed := by
  induction pieces with
  | nil =>
    simp only [rawItems]
    split
    · exact List.forall_mem_nil _
    · exact List.forall_mem_singleton.2 (trimmed_splitTrailing _ _)
  | cons piece rest ih => exact List.forall_mem_cons.2 ⟨trimmed_splitTrailing _ _, ih⟩

/-- No trivia stands directly behind the stars of a parameter or directly behind its name. -/
def RawItem.isTight (raw : RawItem) : Bool :=
  ((Reading.stars {} raw.tokens).2.2.take 2).all fun token => !token.isTrivia

private theorem tight_cons_iff (name : Token) (rest : List Token) :
    (((name :: rest).take 2).all fun token => !token.isTrivia) = true ↔
      name.isTrivia = false ∧ ∀ second ∈ rest.head?, second.isTrivia = false := by
  cases rest <;> simp

def Reading.code (reading : Reading) : Reading :=
  { reading with items := reading.items.map ParameterItem.code }

private theorem stars_behind (reading : Reading) (tokens : List Token) :
    (reading.stars tokens).2.2 = (Reading.stars {} tokens).2.2 := by
  cases tokens with
  | nil => rfl
  | cons first rest =>
    simp only [Reading.stars]
    split
    · rfl
    · split <;> rfl

private theorem stars_code (reading : Reading) {tokens : List Token}
    (begins : ∀ first ∈ tokens.head?, first.isTrivia = false) :
    reading.code.stars (Token.code tokens) =
      ((reading.stars tokens).1, (reading.stars tokens).2.1,
        Token.code (reading.stars tokens).2.2) := by
  cases tokens with
  | nil => rfl
  | cons first rest =>
    rw [Token.code_cons (begins first rfl)]
    simp only [Reading.stars]
    split
    · rfl
    · split
      · rfl
      · rw [Token.code_cons (begins first rfl)]
        rfl

private theorem splitDefault_code (tokens : List Token) :
    splitDefault (Token.code tokens) = (Token.code (splitDefault tokens).1,
      (splitDefault tokens).2.map fun found => (found.1, Token.code found.2)) := by
  simp only [splitDefault, Cut.atOp_code]
  cases Cut.atOp "=" 0 tokens <;> rfl

private theorem head?_splitDefault (first : Token) (rest : List Token) :
    (splitDefault (first :: rest)).1.head? = if first.isOp "=" then none else some first := by
  simp only [splitDefault, Cut.atOp]
  by_cases equals : first.isOp "=" = true
  · simp [equals]
  · simp only [equals]
    cases Cut.atOp "=" (first.depthAfter 0) rest <;> simp [Cut.push]

private theorem isTrivia_head?_splitDefault {tokens : List Token}
    (begins : ∀ first ∈ tokens.head?, first.isTrivia = false) :
    ∀ first ∈ (splitDefault tokens).1.head?, first.isTrivia = false := by
  cases tokens with
  | nil => exact begins
  | cons first rest =>
    rw [head?_splitDefault]
    split
    · rintro _ ⟨⟩
    · rintro _ ⟨⟩
      exact begins first rfl

private theorem readDefault_code (kind : Parameter.Kind) (found : Option (Token × List Token)) :
    (readDefault kind (found.map fun found => (found.1, Token.code found.2))).toOption =
      (readDefault kind found).toOption.map (Option.map ParameterDefault.code) := by
  cases found with
  | none => rfl
  | some found =>
    simp only [Option.map_some, readDefault, Token.all_isTrivia_code]
    split
    · rfl
    · split <;> rfl

private theorem beforeSlash_code (items : List ParameterItem) :
    (items.map ParameterItem.code).map ParameterItem.beforeSlash =
      (items.map ParameterItem.beforeSlash).map ParameterItem.code := by
  have same : ∀ item : ParameterItem, item.code.beforeSlash = item.beforeSlash.code := by
    intro item
    cases item <;> rfl
  simp [same]

section Items

variable {raw : RawItem} (trimmed : raw.Trimmed)

include trimmed in
private theorem parameter_code (reading : Reading) (tight : raw.isTight = true)
    (here there : Position) :
    (reading.code.parameter raw.code there).toOption =
      (reading.parameter raw here).toOption.map Parameter.code := by
  rw [RawItem.isTight, ← stars_behind reading] at tight
  simp only [Reading.parameter, RawItem.code, stars_code reading trimmed.front]
  generalize reading.stars raw.tokens = parts at tight ⊢
  obtain ⟨kind, stars, rest⟩ := parts
  cases rest with
  | nil => rfl
  | cons name rest =>
    obtain ⟨nameIsCode, secondIsCode⟩ := (tight_cons_iff name rest).1 tight
    simp only [Token.code_cons nameIsCode, splitDefault_code]
    split
    · rfl
    · rw [Token.head?_code (isTrivia_head?_splitDefault secondIsCode)]
      split
      · rfl
      · have default := readDefault_code kind (splitDefault rest).2
        rw [toOption_bind, toOption_bind, default]
        cases readDefault kind (splitDefault rest).2 with
        | error fault => rfl
        | ok default =>
          simp only [toOption_ok, Option.map_some, Option.bind_some, Option.isNone_map, Reading.code]
          split <;> rfl

private theorem isTight_of_parameter {reading : Reading} {position : Position}
    {parameter : Parameter} (read : reading.parameter raw position = .ok parameter) :
    raw.isTight = true := by
  rw [RawItem.isTight, ← stars_behind reading]
  simp only [Reading.parameter] at read
  generalize reading.stars raw.tokens = parts at read ⊢
  obtain ⟨kind, stars, rest⟩ := parts
  simp only at read ⊢
  split at read
  · rfl
  · next name rest =>
    split at read
    · cases read
    · next isName =>
      split at read
      · cases read
      · next noColon =>
        have nameIsCode : name.isTrivia = false := by
          simp [Token.isTrivia, not_not.1 isName]
        refine (tight_cons_iff name rest).2 ⟨nameIsCode, fun second found => ?_⟩
        obtain ⟨more, rfl⟩ := List.head?_eq_some_iff.1 found
        by_cases equals : second.isOp "=" = true
        · exact Token.isTrivia_of_isOp equals
        · rw [head?_splitDefault, if_neg equals, Option.any_some, Bool.not_eq_true,
            Bool.not_eq_false'] at noColon
          exact Token.isTrivia_of_isOp noColon

private theorem isTight_of_step {function : Position} {reading next : Reading}
    (read : reading.step function raw = .ok next) : raw.isTight = true := by
  rcases step_eq_ok read with ⟨-, token, tokens, slash, -⟩ | ⟨token, tokens, star, -⟩ |
    ⟨position, parameter, found, -⟩
  · rw [RawItem.isTight, tokens, Reading.stars]
    split
    · rfl
    · split
      · rfl
      · exact (tight_cons_iff token []).2 ⟨Token.isTrivia_of_isOp slash, by rintro _ ⟨⟩⟩
  · rw [RawItem.isTight, tokens, Reading.stars, if_pos star]
    rfl
  · exact isTight_of_parameter found

include trimmed in
private theorem step_code (reading : Reading) (tight : raw.isTight = true) (here there : Position) :
    (reading.code.step there raw.code).toOption =
      (reading.step here raw).toOption.map Reading.code := by
  unfold Reading.step
  simp only [RawItem.code]
  cases split : raw.tokens with
  | nil => rfl
  | cons first more =>
    have isCode : first.isTrivia = false := trimmed.front first (by rw [split]; rfl)
    have alone : (Token.code more).isEmpty = more.isEmpty := by
      cases more with
      | nil => rfl
      | cons second others =>
        have ends := trimmed.back
        rw [split, List.getLast?_cons_cons] at ends
        rw [List.isEmpty_cons, List.isEmpty_eq_false_iff]
        exact Token.code_ne_nil ends (by simp)
    have parameter := parameter_code trimmed reading tight first.start first.start
    simp only [RawItem.code] at parameter
    rw [split, Token.code_cons isCode] at parameter
    simp only [Token.code_cons isCode, alone]
    split
    · cases star : reading.keywordOnly with
      | true => simp only [Reading.code, star, if_true, toOption_error, Option.map_none]
      | false =>
        simp only [Reading.code, star, Bool.false_eq_true, if_false, toOption_ok, Option.map_some,
          beforeSlash_code, List.map_append]
        rfl
    · split
      · simp [toOption_ok, Reading.code, ParameterItem.code]
      · rw [toOption_bind, toOption_bind, parameter]
        cases reading.parameter raw first.start with
        | error fault => rfl
        | ok value =>
          simp [toOption_ok, Reading.code, ParameterItem.code, Parameter.code, pure, Except.pure]

end Items

private theorem foldlM_code {items : List RawItem} (trimmed : ∀ raw ∈ items, raw.Trimmed)
    (tight : ∀ raw ∈ items, raw.isTight = true) (reading : Reading) (here there : Position) :
    ((items.map RawItem.code).foldlM (Reading.step there) reading.code).toOption =
      (items.foldlM (Reading.step here) reading).toOption.map Reading.code := by
  induction items generalizing reading with
  | nil => rfl
  | cons raw rest ih =>
    rw [List.forall_mem_cons] at trimmed tight
    rw [List.map_cons, List.foldlM_cons, List.foldlM_cons, toOption_bind, toOption_bind,
      step_code trimmed.1 reading tight.1 here there]
    cases reading.step here raw with
    | error fault => rfl
    | ok next => exact ih trimmed.2 tight.2 next

private theorem isTight_of_foldlM {function : Position} {items : List RawItem}
    {reading next : Reading} (read : items.foldlM (Reading.step function) reading = .ok next) :
    ∀ raw ∈ items, raw.isTight = true := by
  induction items generalizing reading with
  | nil => exact List.forall_mem_nil _
  | cons raw rest ih =>
    rw [List.foldlM_cons, bind_eq_ok] at read
    obtain ⟨middle, step, read⟩ := read
    exact List.forall_mem_cons.2 ⟨isTight_of_step step, ih read⟩

/-- No trivia of a parameter list stands directly behind the stars of a parameter or directly behind
its name. -/
def isTight (inner : List Token) : Bool :=
  (rawItems (Pieces.ofTokens {} inner).last (Pieces.ofTokens {} inner).ended).2.all RawItem.isTight

private theorem isTight_of_read {function : Position} {inner : List Token} {parameters : Parameters}
    (found : read function inner = .ok parameters) : isTight inner = true := by
  obtain ⟨reading, items, -⟩ := bind_eq_ok.1 found
  exact List.all_eq_true.2 (isTight_of_foldlM items)

private theorem read_code {inner : List Token} (tight : isTight inner = true)
    (here there : Position) :
    (read there (Token.code inner)).toOption = (read here inner).toOption.map code := by
  have raws := rawItems_code (Pieces.ofTokens {} inner).last (MarkerCall.isOp_comma {} inner)
  have leading := code_rawItems (Pieces.ofTokens {} inner).last (Pieces.ofTokens {} inner).ended
  have items := foldlM_code
    (trimmed_rawItems (Pieces.ofTokens {} inner).last (Pieces.ofTokens {} inner).ended)
    (List.all_eq_true.1 tight) {} here there
  simp only [read, Pieces.ofTokens_code, Pieces.code, raws]
  rw [toOption_bind, toOption_bind]
  rw [show Reading.code {} = {} from rfl] at items
  rw [items]
  cases List.foldlM (Reading.step here) {}
    (rawItems (Pieces.ofTokens {} inner).last (Pieces.ofTokens {} inner).ended).2 with
  | error fault => rfl
  | ok reading => simp [toOption_ok, code, leading, Reading.code, pure, Except.pure]

/-- Of two lists with the same code, if one is read, the other is read exactly if it is tight, and
then as the same items. -/
theorem read_of_code {inner inner' : List Token} (same : Token.code inner' = Token.code inner)
    {here : Position} {parameters : Parameters} (found : read here inner = .ok parameters)
    (there : Position) :
    (isTight inner' = true → ∃ parameters', read there inner' = .ok parameters' ∧
      parameters'.code = parameters.code) ∧
    (isTight inner' = false → ∃ fault, read there inner' = .error fault) := by
  constructor
  · intro tight
    have readInner := read_code (isTight_of_read found) here here
    have readOther := read_code tight there here
    rw [same, readInner, found] at readOther
    cases again : read there inner' with
    | error fault =>
      rw [again] at readOther
      cases readOther
    | ok parameters' =>
      rw [again] at readOther
      exact ⟨parameters', rfl, (Option.some.inj readOther).symm⟩
  · intro loose
    cases again : read there inner' with
    | error fault => exact ⟨fault, rfl⟩
    | ok parameters' =>
      rw [isTight_of_read again] at loose
      cases loose

end Parameters

namespace Cut

private theorem atClose_append {depth : Nat} {list : List Token} {cut : Cut}
    (found : atClose depth list = some cut) (after : List Token) :
    atClose depth (cut.before ++ cut.token :: after) = some ⟨cut.before, cut.token, after⟩ := by
  induction list generalizing depth cut with
  | nil => cases found
  | cons token rest ih =>
    rw [atClose_cons] at found
    split at found
    · next here =>
      cases found
      rw [List.nil_append, atClose_cons, if_pos here]
    · next inside =>
      obtain ⟨tail, tailFound, rfl⟩ := Option.map_eq_some_iff.1 found
      rw [push, List.cons_append, atClose_cons, if_neg inside, ih tailFound]
      rfl

private theorem atClose_of_code {depth : Nat} {front front' after : List Token} {closing : Token}
    (found : atClose depth (front ++ closing :: after) = some ⟨front, closing, after⟩)
    (same : Token.code front' = Token.code front) :
    atClose depth (front' ++ closing :: after) = some ⟨front', closing, after⟩ := by
  have isClosing : closing.isTrivia = false :=
    Token.isTrivia_of_closesBracket (MarkerCall.closesBracket_atClose found)
  have whole := atClose_code depth (front ++ closing :: after)
  rw [found, Token.code_append, ← same, ← Token.code_append, atClose_code] at whole
  obtain ⟨cut, again, code⟩ := Option.map_eq_some_iff.1 whole
  obtain ⟨before, token, behind⟩ := cut
  have isToken := Token.isTrivia_of_closesBracket (MarkerCall.closesBracket_atClose again)
  obtain ⟨codeBefore, -, -⟩ := Cut.mk.inj code
  obtain ⟨rfl, rfl, rfl⟩ := Token.split_of_code isToken isClosing (tokens_atClose again)
    (codeBefore.trans same.symm)
  exact again

end Cut

namespace Header

private theorem typeParameters_append {start : Position} {list types rest : List Token}
    {opening : Token} (found : typeParameters start list = .ok (types, opening :: rest))
    (behind : List Token) :
    typeParameters start (types ++ opening :: behind) = .ok (types, opening :: behind) := by
  unfold typeParameters at found
  split at found
  · cases found
  · next first inner =>
    split at found
    · next bracket =>
      split at found
      · next cut close =>
        obtain ⟨rfl, -⟩ := Prod.mk.inj (Except.ok.inj found)
        have again := Cut.atClose_append close (opening :: behind)
        simp only [typeParameters, List.cons_append, List.append_assoc, List.nil_append, bracket,
          again, if_true]
      · cases found
    · next noBracket =>
      cases found
      simp only [typeParameters, List.nil_append, noBracket]
      rfl

private theorem signature_of_code {start : Position} {opening : Token}
    {list tail behind inner : List Token} {parameters : Parameters}
    (found : signature start list = .ok (opening, parameters, tail, behind))
    (same : Token.code inner = Token.code parameters.tokens) :
    signature start (opening :: (inner ++ tail ++ behind)) =
      (Parameters.read start inner).map fun others => (opening, others, tail, behind) := by
  obtain ⟨cut, colon, -, isOpening, close, atColon, read, rfl, rfl⟩ := signature_eq_ok found
  rw [Parameters.tokens_read read] at same
  have again := Cut.atClose_of_code close same
  have tokens : inner ++ (cut.token :: colon.before ++ [colon.token]) ++ colon.after =
      inner ++ cut.token :: cut.after := by
    rw [← Cut.tokens_atOp atColon]
    simp [Cut.tokens]
  rw [tokens]
  simp only [signature, isOpening, again, atColon]
  cases Parameters.read start inner <;> rfl

/-- Only the parameters change with what stands between their parentheses. -/
theorem read_of_code {first : Token} {more others behind inner : List Token} {header : Header}
    (found : read first more = .ok (header, behind))
    (line : first :: others = header.head ++ inner ++ header.tail ++ behind)
    (same : Token.code inner = Token.code header.parameters.tokens) :
    read first others = (Parameters.read first.start inner).map fun parameters =>
      ({ header with parameters := parameters }, behind) := by
  obtain ⟨name, rest, types, list, opening, split, isName, foundTypes, foundSignature, parts⟩ :=
    read_eq_ok found
  obtain rfl := tokens_signature foundSignature
  have readTypes := typeParameters_append foundTypes (inner ++ header.tail ++ behind)
  have readSignature := signature_of_code foundSignature same
  rw [List.append_assoc] at readTypes readSignature
  -- The keywords are the same, and behind them only the parameters are others.
  have front : (if first.isName "async" then first :: others.take 1 else [first]) =
      (if first.isName "async" then first :: more.take 1 else [first]) ∧
      (if first.isName "async" then others.drop 1 else others) =
        name :: (types ++ opening :: (inner ++ (header.tail ++ behind))) := by
    rw [parts] at line
    cases isAsync : first.isName "async" with
    | false => simpa [isAsync] using line
    | true =>
      rw [isAsync, if_pos rfl] at split
      cases more with
      | nil => cases split
      | cons second more =>
        simp only [isAsync, if_true, List.cons_append, List.nil_append, List.append_assoc,
          List.take_succ_cons, List.take_zero, List.cons.injEq, true_and] at line
        simp [line]
  simp only [read, front]
  rw [if_neg (not_not.2 isName), readTypes]
  simp only [bind, Except.bind]
  rw [readSignature, parts]
  cases Parameters.read first.start inner <;> rfl

end Header

end DeferredDefaults
