import DeferredDefaults.LateBinding
import DeferredDefaults.Proofs.Success
import DeferredDefaults.Tree.Reader

/-!
Reading a header loses no token. The tokens of a parameter list, of its items and of a marker call
concatenate to those they have been read from, and deferring defaults keeps them.
-/

set_option autoImplicit false
set_option relaxedAutoImplicit false

namespace DeferredDefaults

namespace MarkerCall

theorem tokens_arguments (pieces : Pieces) :
    (arguments pieces).1.flatMap Argument.tokens ++ (arguments pieces).2 = pieces.tokens := by
  have ended : (pieces.ended.map fun piece => (⟨piece.value, some piece.comma⟩ : Argument)).flatMap
      Argument.tokens = pieces.ended.flatMap Piece.tokens := by
    rw [List.flatMap_map]
    rfl
  simp only [arguments]
  split
  · rw [ended, Pieces.tokens]
  · rw [List.flatMap_append, ended, Pieces.tokens]
    simp [Argument.tokens]

theorem tokens_ofTokens? {marker : String} {tokens : List Token} {call : MarkerCall}
    (found : ofTokens? marker tokens = some call) : call.tokens = tokens := by
  cases tokens with
  | nil => cases found
  | cons name rest =>
    simp only [ofTokens?] at found
    split at found
    · split at found
      · cases found
      · next opening inner split =>
        split at found
        · split at found
          · next body closing close =>
            cases found
            have whole := List.takeWhile_append_dropWhile (p := Token.isTrivia) (l := rest)
            have cut := Cut.tokens_atClose close
            simp only [tokens, MarkerCall.inner]
            rw [tokens_arguments, Pieces.tokens_ofTokens]
            conv => rhs; rw [← whole, split, ← cut]
            simp [Cut.tokens]
          · cases found
        · cases found
    · cases found

/-- The parts of a marker call are what they are called. -/
structure Whole (call : MarkerCall) : Prop where
  name : call.name.kind = .name
  gap : ∀ token ∈ call.gap, token.isTrivia = true
  opening : call.opening.isOp "(" = true
  comma : ∀ argument ∈ call.args, ∀ comma ∈ argument.comma, comma.isOp "," = true
  trailing : ∀ token ∈ call.trailing, token.isTrivia = true
  closing : call.closing.closesBracket = true

theorem closesBracket_atClose {depth : Nat} {list : List Token} {cut : Cut}
    (found : Cut.atClose depth list = some cut) : cut.token.closesBracket = true := by
  induction list generalizing depth cut with
  | nil => cases found
  | cons token rest ih =>
    rw [Cut.atClose_cons] at found
    split at found
    · next here =>
      cases found
      exact here.2
    · obtain ⟨tail, tailFound, rfl⟩ := Option.map_eq_some_iff.1 found
      change tail.token.closesBracket = true
      exact ih tailFound

theorem isOp_comma (splitter : Splitter) (list : List Token) :
    ∀ piece ∈ (Pieces.ofTokens splitter list).ended, piece.comma.isOp "," = true := by
  induction list generalizing splitter with
  | nil => exact List.forall_mem_nil _
  | cons token rest ih =>
    rw [Pieces.ofTokens]
    split
    · next separates =>
      simp only [Splitter.separates, Bool.and_eq_true] at separates
      simp only [Pieces.separate, List.forall_mem_cons]
      exact ⟨separates.2, ih _⟩
    · have others := ih (splitter.after token)
      generalize Pieces.ofTokens (splitter.after token) rest = pieces at others
      obtain ⟨ended, last⟩ := pieces
      cases ended with
      | nil => exact List.forall_mem_nil _
      | cons piece ended =>
        simp only [List.forall_mem_cons] at others
        simp only [Pieces.push, List.forall_mem_cons]
        exact others

theorem whole_ofTokens? {marker : String} {tokens : List Token} {call : MarkerCall}
    (found : ofTokens? marker tokens = some call) : call.Whole := by
  cases tokens with
  | nil => cases found
  | cons name rest =>
    simp only [ofTokens?] at found
    split at found
    · next isName =>
      split at found
      · cases found
      · split at found
        · next isOpening =>
          split at found
          · next body closing close =>
            cases found
            rw [Token.isName, Bool.and_eq_true, beq_iff_eq] at isName
            refine ⟨isName.1, List.all_eq_true.1 List.all_takeWhile, isOpening, ?_, ?_,
              closesBracket_atClose close⟩
            · have commas := isOp_comma {} body
              intro argument member comma isComma
              simp only [arguments] at member
              split at member
              · rw [List.mem_map] at member
                obtain ⟨piece, member, rfl⟩ := member
                cases isComma
                exact commas piece member
              · rw [List.mem_append, List.mem_map, List.mem_singleton] at member
                rcases member with ⟨piece, member, rfl⟩ | rfl
                · cases isComma
                  exact commas piece member
                · cases isComma
            · simp only [arguments]
              split
              · next allTrivia => exact List.all_eq_true.1 allTrivia
              · exact List.forall_mem_nil _
          · cases found
        · cases found
    · cases found

end MarkerCall

namespace Parameters

theorem splitTrailing_eq (tokens : List Token) : splitTrailing tokens =
    ((tokens.reverse.dropWhile Token.isTrivia).reverse,
      (tokens.reverse.takeWhile Token.isTrivia).reverse) := by
  have whole := List.takeWhile_append_dropWhile (p := Token.isTrivia) (l := tokens.reverse)
  have back : tokens = (tokens.reverse.dropWhile Token.isTrivia).reverse ++
      (tokens.reverse.takeWhile Token.isTrivia).reverse := by
    rw [← List.reverse_append, whole, List.reverse_reverse]
  have front : ∀ before after : List Token, tokens = before ++ after →
      tokens.take (tokens.length - after.length) = before := by
    rintro before after rfl
    simp
  simp only [splitTrailing]
  rw [front _ _ back]

theorem append_splitTrailing (tokens : List Token) :
    (splitTrailing tokens).1 ++ (splitTrailing tokens).2 = tokens := by
  rw [splitTrailing_eq, ← List.reverse_append, List.takeWhile_append_dropWhile,
    List.reverse_reverse]

private theorem tokens_rawItems (last : List Token) (pieces : List Piece) :
    (rawItems last pieces).1 ++
        (rawItems last pieces).2.flatMap (fun raw => raw.tokens ++ raw.suffix) =
      pieces.flatMap Piece.tokens ++ last := by
  have whole : ∀ tokens : List Token,
      tokens.takeWhile Token.isTrivia ++ ((splitTrailing (tokens.dropWhile Token.isTrivia)).1 ++
        (splitTrailing (tokens.dropWhile Token.isTrivia)).2) = tokens := by
    intro tokens
    rw [append_splitTrailing, List.takeWhile_append_dropWhile]
  induction pieces with
  | nil =>
    have core := whole last
    simp only [rawItems, List.flatMap_nil, List.nil_append]
    split
    · next empty =>
      rw [List.isEmpty_iff] at empty
      rw [empty] at core
      simpa [splitTrailing] using core
    · simpa using core
  | cons piece rest ih =>
    have core := whole piece.value
    rw [List.flatMap_cons, List.append_assoc, ← ih, Piece.tokens]
    conv => rhs; rw [← core]
    simp [rawItems]

private theorem tokens_beforeSlash (items : List ParameterItem) :
    (items.map ParameterItem.beforeSlash).flatMap ParameterItem.tokens =
      items.flatMap ParameterItem.tokens := by
  have same : ∀ item : ParameterItem, item.beforeSlash.tokens = item.tokens := by
    intro item
    cases item <;> rfl
  rw [List.flatMap_map]
  simp only [same]

private theorem append_stars (reading : Reading) (tokens : List Token) :
    (reading.stars tokens).2.1 ++ (reading.stars tokens).2.2 = tokens := by
  unfold Reading.stars
  split
  · rfl
  · split
    · rfl
    · split <;> rfl

private theorem append_splitDefault (tokens : List Token) :
    (splitDefault tokens).1 ++ ((splitDefault tokens).2.map fun found =>
      found.1 :: found.2).getD [] = tokens := by
  unfold splitDefault
  split
  · next cut found => exact Cut.tokens_atOp found
  · simp

private theorem tokens_readDefault {kind : Parameter.Kind} {found : Option (Token × List Token)}
    {default : Option ParameterDefault} (read : readDefault kind found = .ok default) :
    (default.map ParameterDefault.tokens).getD [] =
      (found.map fun found => found.1 :: found.2).getD [] := by
  cases found with
  | none =>
    cases read
    rfl
  | some found =>
    simp only [readDefault] at read
    split at read
    · cases read
    · split at read
      · cases read
      · cases read
        rfl

theorem tokens_parameter {reading : Reading} {raw : RawItem} {position : Position}
    {parameter : Parameter} (read : reading.parameter raw position = .ok parameter) :
    parameter.tokens = raw.tokens ++ raw.suffix := by
  have stars := append_stars reading raw.tokens
  simp only [Reading.parameter] at read
  split at read
  · cases read
  · next name rest split =>
    rw [split] at stars
    split at read
    · cases read
    · split at read
      · cases read
      · obtain ⟨default, readDefault, read⟩ := bind_eq_ok.1 read
        split at read
        · cases read
        · cases read
          simp only [Parameter.tokens]
          rw [tokens_readDefault readDefault]
          conv => rhs; rw [← stars, ← append_splitDefault rest]
          simp

/-- All that reading one item can do: it is a `/`, a bare `*`, or a parameter. -/
theorem step_eq_ok {function : Position} {reading next : Reading} {raw : RawItem}
    (read : reading.step function raw = .ok next) :
    (reading.keywordOnly = false ∧ ∃ token, raw.tokens = [token] ∧ token.isOp "/" = true ∧
      next = { reading with
        items := reading.items.map ParameterItem.beforeSlash ++
          [.separator ⟨.positionalOnly, token, raw.suffix⟩] }) ∨
    (∃ token, raw.tokens = [token] ∧ token.isOp "*" = true ∧
      next = { reading with
        keywordOnly := true
        items := reading.items ++ [.separator ⟨.keywordOnly, token, raw.suffix⟩] }) ∨
    (∃ position parameter, reading.parameter raw position = .ok parameter ∧ next = {
      keywordOnly := reading.keywordOnly || parameter.kind == .varPositional
      defaulted := reading.defaulted ||
        (parameter.kind.isPositional && parameter.default.isSome)
      items := reading.items ++ [.parameter parameter] }) := by
  simp only [Reading.step] at read
  split at read
  · cases read
  · next first more split =>
    split at read
    · next slash =>
      rw [Bool.and_eq_true, List.isEmpty_iff] at slash
      obtain ⟨rfl, slash⟩ := slash
      split at read
      · cases read
      · next leads =>
        cases read
        exact .inl ⟨by simpa using leads, first, split, slash, rfl⟩
    · split at read
      · next star =>
        rw [Bool.and_eq_true, List.isEmpty_iff] at star
        obtain ⟨rfl, star⟩ := star
        cases read
        exact .inr (.inl ⟨first, split, star, rfl⟩)
      · obtain ⟨parameter, found, read⟩ := bind_eq_ok.1 read
        cases read
        exact .inr (.inr ⟨_, parameter, found, rfl⟩)

private theorem tokens_step {function : Position} {reading next : Reading} {raw : RawItem}
    (read : reading.step function raw = .ok next) :
    next.items.flatMap ParameterItem.tokens =
      reading.items.flatMap ParameterItem.tokens ++ (raw.tokens ++ raw.suffix) := by
  rcases step_eq_ok read with ⟨-, token, slash, -, rfl⟩ | ⟨token, star, -, rfl⟩ |
    ⟨position, parameter, found, rfl⟩
  · simp [tokens_beforeSlash, ParameterItem.tokens, slash]
  · simp [ParameterItem.tokens, star]
  · simp [ParameterItem.tokens, tokens_parameter found]

private theorem tokens_foldlM {function : Position} {items : List RawItem} {reading next : Reading}
    (read : items.foldlM (Reading.step function) reading = .ok next) :
    next.items.flatMap ParameterItem.tokens =
      reading.items.flatMap ParameterItem.tokens ++
        items.flatMap fun raw => raw.tokens ++ raw.suffix := by
  induction items generalizing reading with
  | nil =>
    cases read
    simp
  | cons raw rest ih =>
    rw [List.foldlM_cons, bind_eq_ok] at read
    obtain ⟨middle, step, read⟩ := read
    rw [ih read, tokens_step step, List.flatMap_cons, List.append_assoc]

/-- Reading a parameter list leaves every default an expression, and none to variadic
parameters. -/
def Plain : ParameterItem → Prop
  | .parameter value => ∀ default ∈ value.default,
    value.kind.isVariadic = false ∧ ∃ tokens, default.value = .expression tokens
  | .separator _ => True

theorem readDefault_eq_ok {kind : Parameter.Kind} {found : Option (Token × List Token)}
    {default : Option ParameterDefault} (read : readDefault kind found = .ok default) :
    ∀ slot ∈ default, kind.isVariadic = false ∧
      ∃ value, found = some (slot.eq, value) ∧ slot.value = .expression value := by
  cases found with
  | none =>
    cases read
    intro slot member
    cases member
  | some found =>
    simp only [readDefault] at read
    split at read
    · cases read
    · split at read
      · cases read
      · next plain =>
        cases read
        intro slot member
        cases member
        exact ⟨by simpa using plain, found.2, rfl, rfl⟩

/-- What a parameter is read from: a name, and the default behind it. -/
theorem parameter_eq_ok {reading : Reading} {raw : RawItem} {position : Position}
    {parameter : Parameter} (read : reading.parameter raw position = .ok parameter) :
    parameter.name.kind = .name ∧
      ∃ rest, readDefault parameter.kind (splitDefault rest).2 = .ok parameter.default := by
  simp only [Reading.parameter] at read
  split at read
  · cases read
  · next rest _ =>
    split at read
    · cases read
    · next isName =>
      split at read
      · cases read
      · obtain ⟨default, found, read⟩ := bind_eq_ok.1 read
        split at read
        · cases read
        · cases read
          exact ⟨by simpa using isName, _, found⟩

/-- What holds of every parameter that is read, and of every item in front of a slash that it holds
of. -/
structure Kept (holds : ParameterItem → Prop) : Prop where
  separator : ∀ value, holds (.separator value)
  beforeSlash : ∀ item, holds item → holds item.beforeSlash
  parameter : ∀ {reading : Reading} {raw : RawItem} {position : Position} {parameter : Parameter},
    reading.parameter raw position = .ok parameter → holds (.parameter parameter)

namespace Kept

variable {holds : ParameterItem → Prop} (kept : Kept holds)
include kept

private theorem step {function : Position} {reading next : Reading} {raw : RawItem}
    (before : ∀ item ∈ reading.items, holds item) (read : reading.step function raw = .ok next) :
    ∀ item ∈ next.items, holds item := by
  rcases step_eq_ok read with ⟨-, token, -, -, rfl⟩ | ⟨token, -, -, rfl⟩ |
    ⟨position, parameter, found, rfl⟩
  · rw [List.forall_mem_append, List.forall_mem_map, List.forall_mem_singleton]
    exact ⟨fun item member => kept.beforeSlash item (before item member), kept.separator _⟩
  · rw [List.forall_mem_append, List.forall_mem_singleton]
    exact ⟨before, kept.separator _⟩
  · rw [List.forall_mem_append, List.forall_mem_singleton]
    exact ⟨before, kept.parameter found⟩

private theorem foldlM {function : Position} {items : List RawItem} {reading next : Reading}
    (before : ∀ item ∈ reading.items, holds item)
    (read : items.foldlM (Reading.step function) reading = .ok next) :
    ∀ item ∈ next.items, holds item :=
  foldlM_keeps (fun _ _ _ _ before step => kept.step before step) before read

theorem read {function : Position} {inner : List Token} {parameters : Parameters}
    (found : Parameters.read function inner = .ok parameters) :
    ∀ item ∈ parameters.items, holds item := by
  simp only [Parameters.read] at found
  obtain ⟨reading, items, found⟩ := bind_eq_ok.1 found
  cases found
  exact kept.foldlM (List.forall_mem_nil _) items

end Kept

private theorem kept_plain : Kept Plain where
  separator := fun _ => trivial
  beforeSlash := by
    rintro (value | value) plain
    · exact fun default member => ⟨rfl, (plain default member).2⟩
    · trivial
  parameter := by
    intro reading raw position parameter read default member
    obtain ⟨-, rest, found⟩ := parameter_eq_ok read
    obtain ⟨plain, value, -, isValue⟩ := readDefault_eq_ok found default member
    exact ⟨plain, value, isValue⟩

private theorem plain_read {function : Position} {inner : List Token} {parameters : Parameters}
    (found : read function inner = .ok parameters) : ∀ item ∈ parameters.items, Plain item :=
  kept_plain.read found

theorem tokens_read {function : Position} {inner : List Token} {parameters : Parameters}
    (found : read function inner = .ok parameters) : parameters.tokens = inner := by
  simp only [read] at found
  obtain ⟨reading, items, found⟩ := bind_eq_ok.1 found
  cases found
  simp only [tokens]
  rw [tokens_foldlM items]
  simp only [List.flatMap_nil, List.nil_append]
  rw [tokens_rawItems]
  exact Pieces.tokens_ofTokens {} inner

end Parameters

namespace Header

private theorem append_typeParameters {start : Position} {list types rest : List Token}
    (found : typeParameters start list = .ok (types, rest)) : types ++ rest = list := by
  unfold typeParameters at found
  split at found
  · cases found
    rfl
  · split at found
    · split at found
      · next cut close =>
        cases found
        rw [← Cut.tokens_atClose close]
        simp [Cut.tokens]
      · cases found
    · cases found
      rfl

theorem signature_eq_ok {start : Position} {list : List Token} {opening : Token}
    {parameters : Parameters} {tail behind : List Token}
    (found : signature start list = .ok (opening, parameters, tail, behind)) :
    ∃ cut colon : Cut, list = opening :: cut.tokens ∧ opening.isOp "(" = true ∧
      Cut.atClose 0 cut.tokens = some cut ∧ Cut.atOp ":" 0 cut.after = some colon ∧
      Parameters.read start cut.before = .ok parameters ∧
      tail = cut.token :: colon.before ++ [colon.token] ∧ behind = colon.after := by
  unfold signature at found
  split at found
  · cases found
  · next first rest =>
    split at found
    · next isOpening =>
      split at found
      · cases found
      · next cut close =>
        split at found
        · cases found
        · next colon op =>
          obtain ⟨parameters, read, found⟩ := bind_eq_ok.1 found
          cases found
          have whole := Cut.tokens_atClose close
          exact ⟨cut, colon, by rw [whole], isOpening, by rw [whole, close], op, read, rfl, rfl⟩
    · cases found

theorem tokens_signature {start : Position} {list : List Token} {opening : Token}
    {parameters : Parameters} {tail behind : List Token}
    (found : signature start list = .ok (opening, parameters, tail, behind)) :
    opening :: parameters.tokens ++ tail ++ behind = list := by
  obtain ⟨cut, colon, rfl, -, -, op, read, rfl, rfl⟩ := signature_eq_ok found
  rw [Parameters.tokens_read read, Cut.tokens, ← Cut.tokens_atOp op]
  simp [Cut.tokens]

theorem read_eq_ok {first : Token} {more behind : List Token} {header : Header}
    (found : read first more = .ok (header, behind)) :
    ∃ name rest types list opening,
      (if first.isName "async" then more.drop 1 else more) = name :: rest ∧ name.kind = .name ∧
      typeParameters first.start rest = .ok (types, list) ∧
      signature first.start list = .ok (opening, header.parameters, header.tail, behind) ∧
      header = { header with
        name := name.text
        isAsync := first.isName "async"
        head := (if first.isName "async" then first :: more.take 1 else [first]) ++
          name :: types ++ [opening] } := by
  simp only [read] at found
  split at found
  · cases found
  · next name rest split =>
    split at found
    · cases found
    · next isName =>
      obtain ⟨⟨types, list⟩, readTypes, found⟩ := bind_eq_ok.1 found
      obtain ⟨⟨opening, parameters, tail, after⟩, readSignature, found⟩ := bind_eq_ok.1 found
      cases found
      exact ⟨name, rest, types, list, opening, split, Decidable.not_not.1 isName, readTypes,
        readSignature, rfl⟩

/-- A header and the tokens behind it are the line it has been read from. -/
theorem tokens_read {first : Token} {more behind : List Token} {header : Header}
    (found : read first more = .ok (header, behind)) :
    header.tokens ++ behind = first :: more := by
  have front : (if first.isName "async" = true then first :: more.take 1 else [first]) ++
      (if first.isName "async" = true then more.drop 1 else more) = first :: more := by
    split
    · rw [List.cons_append, List.take_append_drop]
    · rfl
  obtain ⟨name, rest, types, list, opening, line, -, readTypes, readSignature, parts⟩ :=
    read_eq_ok found
  rw [parts, ← front, line, ← append_typeParameters readTypes, ← tokens_signature readSignature]
  simp [tokens]

/-- A header that takes the tokens behind it into its tail is the whole line. -/
theorem tokens_read_tail {first : Token} {more behind : List Token} {header : Header}
    (found : read first more = .ok (header, behind)) :
    { header with tail := header.tail ++ behind }.tokens = first :: more := by
  rw [← tokens_read found]
  simp [tokens]

theorem parameters_read {first : Token} {more behind : List Token} {header : Header}
    (found : read first more = .ok (header, behind)) :
    Parameters.read first.start header.parameters.tokens = .ok header.parameters := by
  obtain ⟨_, _, _, _, _, -, -, -, readSignature, -⟩ := read_eq_ok found
  obtain ⟨_, _, -, -, -, -, read, -⟩ := signature_eq_ok readSignature
  rwa [Parameters.tokens_read read]

/-- A header that has been read has all its parts, and every default is an expression. -/
theorem plain_read {first : Token} {more behind : List Token} {header : Header}
    (found : read first more = .ok (header, behind)) :
    header.head ≠ [] ∧ header.tail ≠ [] ∧
      ∀ item ∈ header.parameters.items, Parameters.Plain item := by
  obtain ⟨_, _, _, _, _, -, -, -, readSignature, parts⟩ := read_eq_ok found
  obtain ⟨_, _, -, -, -, -, -, tail, -⟩ := signature_eq_ok readSignature
  refine ⟨?_, ?_, Parameters.plain_read (parameters_read found)⟩
  · rw [parts]
    simp
  · rw [tail]
    simp

end Header

/-- A late default holds the marker call that it has been read from. -/
theorem Deferred.ofTokens?_eq_some {marker name : String} {dependencies : List String}
    {tokens : List Token} {deferred : Deferred}
    (found : ofTokens? marker name dependencies tokens = .ok (some deferred)) :
    MarkerCall.ofTokens? marker tokens = some deferred.call := by
  unfold ofTokens? at found
  split at found
  · split at found
    · split at found <;> cases found
    · cases found
  · next call isCall =>
    split at found
    · cases found
    · split at found
      · cases found
      · cases found
        exact isCall

def ParameterDefault.Whole (default : ParameterDefault) : Prop :=
  match default.value with
  | .expression _ => True
  | .deferred value => value.call.Whole

def ParameterItem.Whole : ParameterItem → Prop
  | .parameter value => ∀ default ∈ value.default, default.Whole
  | .separator _ => True

theorem Parameters.Plain.whole {item : ParameterItem} (plain : Plain item) : item.Whole := by
  cases item with
  | separator value => trivial
  | parameter value =>
    intro default member
    obtain ⟨_, tokens, expression⟩ := plain default member
    rw [ParameterDefault.Whole, expression]
    trivial

namespace LateBinding

private theorem tokens_parameter {marker : String} {scope : Scope} {passed : Scope.Passed}
    {value next : Parameter} {resolutions : List Resolution}
    (found : parameter marker scope passed value = .ok (next, resolutions)) :
    next.tokens = value.tokens := by
  unfold parameter at found
  split at found
  · next eq tokens default =>
    split at found
    · cases found
      rfl
    · obtain ⟨deferred, read, found⟩ := bind_eq_ok.1 found
      split at found
      · cases found
        rfl
      · next late =>
        cases found
        simp [Parameter.tokens, default, ParameterDefault.tokens, DefaultValue.tokens,
          MarkerCall.tokens_ofTokens? (Deferred.ofTokens?_eq_some read)]
  · cases found
    rfl

theorem tokens_items {marker : String} {scope : Scope} {list next : List ParameterItem}
    {passed : Scope.Passed} {resolutions : List Resolution}
    (found : items marker scope passed list = .ok (next, resolutions)) :
    next.flatMap ParameterItem.tokens = list.flatMap ParameterItem.tokens := by
  induction list generalizing passed next resolutions with
  | nil =>
    cases found
    rfl
  | cons item rest ih =>
    cases item with
    | separator value =>
      obtain ⟨⟨others, own⟩, rest, found⟩ := bind_eq_ok.1 found
      cases found
      rw [List.flatMap_cons, List.flatMap_cons, ih rest]
    | parameter value =>
      obtain ⟨⟨first, own⟩, read, found⟩ := bind_eq_ok.1 found
      obtain ⟨⟨others, more⟩, rest, found⟩ := bind_eq_ok.1 found
      cases found
      rw [List.flatMap_cons, List.flatMap_cons, ih rest]
      simp only [ParameterItem.tokens, tokens_parameter read]

theorem tokens_header {marker : String} {first next : Header} {resolutions : List Resolution}
    (found : header marker first = .ok (next, resolutions)) : next.tokens = first.tokens := by
  obtain ⟨⟨list, own⟩, read, found⟩ := bind_eq_ok.1 found
  cases found
  simp only [Header.tokens, Parameters.tokens, tokens_items read]

theorem mem_insertAt {index : Nat} {added stmt : Stmt} {body : List Stmt} :
    stmt ∈ insertAt index added body ↔ stmt = added ∨ stmt ∈ body := by
  rw [insertAt, List.mem_append, List.mem_cons, or_left_comm, ← List.mem_append,
    List.take_append_drop]

end LateBinding

end DeferredDefaults
