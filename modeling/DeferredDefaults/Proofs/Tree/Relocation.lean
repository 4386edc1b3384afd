import Mathlib.Data.List.Forall2
import DeferredDefaults.Tree.Reader

/-!
Places do not matter to the tree. When every token is moved, its kind and text kept, a list of
tokens is read as the same tree with its tokens moved, or both lists are refused.
-/

set_option autoImplicit false
set_option relaxedAutoImplicit false

namespace DeferredDefaults

/-- A change of tokens that keeps their kinds and texts. -/
structure Relocates (move : Token → Token) : Prop where
  kind : ∀ token, (move token).kind = token.kind
  text : ∀ token, (move token).text = token.text

namespace Relocates

variable {move : Token → Token} (relocates : Relocates move)
include relocates

theorem isOp (token : Token) (op : String) : (move token).isOp op = token.isOp op := by
  rw [Token.isOp, relocates.kind, relocates.text, Token.isOp]

theorem isName (token : Token) (name : String) : (move token).isName name = token.isName name := by
  rw [Token.isName, relocates.kind, relocates.text, Token.isName]

theorem isTrivia (token : Token) : (move token).isTrivia = token.isTrivia := by
  rw [Token.isTrivia, relocates.kind, Token.isTrivia]

theorem isLayout (token : Token) : (move token).isLayout = token.isLayout := by
  rw [Token.isLayout, relocates.kind, Token.isLayout]

theorem isBreak (token : Token) : (move token).isBreak = token.isBreak := by
  rw [Token.isBreak, relocates.kind, Token.isBreak]

theorem isSignificant (token : Token) : (move token).isSignificant = token.isSignificant := by
  rw [Token.isSignificant, relocates.isTrivia, relocates.kind, relocates.isLayout,
    Token.isSignificant]

private theorem opensBracket (token : Token) : (move token).opensBracket = token.opensBracket := by
  simp only [Token.opensBracket, relocates.isOp]

private theorem closesBracket (token : Token) :
    (move token).closesBracket = token.closesBracket := by
  simp only [Token.closesBracket, relocates.isOp]

private theorem depthAfter (depth : Nat) (token : Token) :
    (move token).depthAfter depth = token.depthAfter depth := by
  rw [Token.depthAfter, relocates.opensBracket, relocates.closesBracket, Token.depthAfter]

end Relocates

theorem toOption_bind {α β : Type} (first : Except Fault α) (next : α → Except Fault β) :
    (first >>= next).toOption = first.toOption.bind fun value => (next value).toOption := by
  cases first <;> rfl

theorem toOption_ok {α : Type} (value : α) :
    (Except.ok value : Except Fault α).toOption = some value := rfl

theorem toOption_error {α : Type} (fault : Fault) :
    (Except.error fault : Except Fault α).toOption = none := rfl

namespace Cut

def map (move : Token → Token) (cut : Cut) : Cut :=
  ⟨cut.before.map move, move cut.token, cut.after.map move⟩

variable {move : Token → Token} (relocates : Relocates move)
include relocates

private theorem atClose_map (depth : Nat) (list : List Token) :
    atClose depth (list.map move) = (atClose depth list).map (Cut.map move) := by
  induction list generalizing depth with
  | nil => rfl
  | cons token rest ih =>
    rw [List.map_cons, atClose_cons, atClose_cons, relocates.closesBracket, relocates.depthAfter,
      ih]
    split
    · rfl
    · cases atClose (token.depthAfter depth) rest <;> rfl

private theorem atOp_map (op : String) (depth : Nat) (list : List Token) :
    atOp op depth (list.map move) = (atOp op depth list).map (Cut.map move) := by
  induction list generalizing depth with
  | nil => rfl
  | cons token rest ih =>
    rw [List.map_cons, atOp, atOp, relocates.isOp, relocates.depthAfter, ih]
    split
    · rfl
    · cases atOp op (token.depthAfter depth) rest <;> rfl

end Cut

namespace Pieces

def map (move : Token → Token) (pieces : Pieces) : Pieces :=
  ⟨pieces.ended.map fun piece => ⟨piece.value.map move, move piece.comma⟩, pieces.last.map move⟩

variable {move : Token → Token} (relocates : Relocates move)
include relocates

private theorem ofTokens_map (splitter : Splitter) (list : List Token) :
    ofTokens splitter (list.map move) = (ofTokens splitter list).map move := by
  induction list generalizing splitter with
  | nil => rfl
  | cons token rest ih =>
    have separates : splitter.separates (move token) = splitter.separates token := by
      rw [Splitter.separates, relocates.isOp, Splitter.separates]
    have after : splitter.after (move token) = splitter.after token := by
      simp only [Splitter.after, relocates.opensBracket, relocates.closesBracket,
        relocates.depthAfter, relocates.isName, relocates.isOp]
    rw [List.map_cons, ofTokens, ofTokens, separates, after, ih]
    split
    · rfl
    · generalize ofTokens (splitter.after token) rest = others
      obtain ⟨ended, last⟩ := others
      cases ended <;> rfl

end Pieces

namespace Argument

def map (move : Token → Token) (argument : Argument) : Argument :=
  ⟨argument.value.map move, argument.comma.map move⟩

end Argument

private theorem takeWhile_isTrivia_map {move : Token → Token} (relocates : Relocates move)
    (tokens : List Token) :
    (tokens.map move).takeWhile Token.isTrivia = (tokens.takeWhile Token.isTrivia).map move := by
  rw [List.takeWhile_map]
  simp only [Function.comp_def, relocates.isTrivia]

private theorem dropWhile_isTrivia_map {move : Token → Token} (relocates : Relocates move)
    (tokens : List Token) :
    (tokens.map move).dropWhile Token.isTrivia = (tokens.dropWhile Token.isTrivia).map move := by
  rw [List.dropWhile_map]
  simp only [Function.comp_def, relocates.isTrivia]

private theorem all_isTrivia_map {move : Token → Token} (relocates : Relocates move)
    (tokens : List Token) : (tokens.map move).all Token.isTrivia = tokens.all Token.isTrivia := by
  rw [List.all_map]
  simp only [Function.comp_def, relocates.isTrivia]

namespace MarkerCall

def map (move : Token → Token) (call : MarkerCall) : MarkerCall :=
  ⟨move call.name, call.gap.map move, move call.opening, call.args.map (Argument.map move),
    call.trailing.map move, move call.closing⟩

variable {move : Token → Token} (relocates : Relocates move)
include relocates

private theorem arguments_map (pieces : Pieces) :
    arguments (pieces.map move) =
      ((arguments pieces).1.map (Argument.map move), (arguments pieces).2.map move) := by
  simp only [arguments, Pieces.map, all_isTrivia_map relocates]
  split
  · simp [Argument.map]
  · simp [Argument.map]

theorem ofTokens?_map (marker : String) (tokens : List Token) :
    ofTokens? marker (tokens.map move) = (ofTokens? marker tokens).map (MarkerCall.map move) := by
  cases tokens with
  | nil => rfl
  | cons name rest =>
    simp only [List.map_cons, ofTokens?, relocates.isName, dropWhile_isTrivia_map relocates,
      takeWhile_isTrivia_map relocates]
    split
    · cases rest.dropWhile Token.isTrivia with
      | nil => rfl
      | cons opening inner =>
        simp only [List.map_cons, relocates.isOp, Cut.atClose_map relocates]
        split
        · cases Cut.atClose 0 inner with
          | none => rfl
          | some cut =>
            obtain ⟨body, closing, after⟩ := cut
            cases after with
            | nil =>
              simp only [Option.map_some, Cut.map, List.map_nil, Pieces.ofTokens_map relocates,
                arguments_map relocates]
              rfl
            | cons _ _ => rfl
        · rfl
    · rfl

end MarkerCall

def Deferred.map (move : Token → Token) (deferred : Deferred) : Deferred :=
  ⟨deferred.dependencies, deferred.call.map move⟩

def ParameterDefault.map (move : Token → Token) : ParameterDefault → ParameterDefault
  | ⟨eq, .expression tokens⟩ => ⟨move eq, .expression (tokens.map move)⟩
  | ⟨eq, .deferred deferred⟩ => ⟨move eq, .deferred (deferred.map move)⟩

def Parameter.map (move : Token → Token) (parameter : Parameter) : Parameter :=
  ⟨parameter.kind, parameter.stars.map move, move parameter.name, parameter.hint.map move,
    parameter.default.map (ParameterDefault.map move), parameter.suffix.map move⟩

def ParameterItem.map (move : Token → Token) : ParameterItem → ParameterItem
  | .parameter value => .parameter (value.map move)
  | .separator value => .separator ⟨value.kind, move value.token, value.suffix.map move⟩

namespace Parameters

def map (move : Token → Token) (parameters : Parameters) : Parameters :=
  ⟨parameters.leading.map move, parameters.items.map (ParameterItem.map move)⟩

def RawItem.map (move : Token → Token) (raw : RawItem) : RawItem :=
  ⟨raw.tokens.map move, raw.suffix.map move⟩

def Reading.map (move : Token → Token) (reading : Reading) : Reading :=
  { reading with items := reading.items.map (ParameterItem.map move) }

variable {move : Token → Token} (relocates : Relocates move)
include relocates

private theorem splitTrailing_map (tokens : List Token) :
    splitTrailing (tokens.map move) =
      ((splitTrailing tokens).1.map move, (splitTrailing tokens).2.map move) := by
  simp only [splitTrailing, ← List.map_reverse, takeWhile_isTrivia_map relocates, List.length_map,
    List.map_take]

private theorem rawItems_map (last : List Token) (pieces : List Piece) :
    rawItems (last.map move)
        (pieces.map fun piece => (⟨piece.value.map move, move piece.comma⟩ : Piece)) =
      ((rawItems last pieces).1.map move, (rawItems last pieces).2.map (RawItem.map move)) := by
  induction pieces with
  | nil =>
    simp only [List.map_nil, rawItems, takeWhile_isTrivia_map relocates,
      dropWhile_isTrivia_map relocates, splitTrailing_map relocates, List.isEmpty_map]
    split <;> rfl
  | cons piece rest ih =>
    simp only [List.map_cons, rawItems, ih, takeWhile_isTrivia_map relocates,
      dropWhile_isTrivia_map relocates, splitTrailing_map relocates]
    simp [RawItem.map]

private theorem stars_map (reading : Reading) (tokens : List Token) :
    (reading.map move).stars (tokens.map move) =
      ((reading.stars tokens).1, (reading.stars tokens).2.1.map move,
        (reading.stars tokens).2.2.map move) := by
  cases tokens with
  | nil => rfl
  | cons first rest =>
    simp only [List.map_cons, Reading.stars, relocates.isOp]
    split
    · rfl
    · split <;> rfl

private theorem splitDefault_map (tokens : List Token) :
    splitDefault (tokens.map move) = ((splitDefault tokens).1.map move,
      (splitDefault tokens).2.map fun found => (move found.1, found.2.map move)) := by
  simp only [splitDefault, Cut.atOp_map relocates]
  cases Cut.atOp "=" 0 tokens <;> rfl

private theorem readDefault_map (kind : Parameter.Kind) (found : Option (Token × List Token)) :
    (readDefault kind (found.map fun found => (move found.1, found.2.map move))).toOption =
      (readDefault kind found).toOption.map (Option.map (ParameterDefault.map move)) := by
  cases found with
  | none => rfl
  | some found =>
    simp only [Option.map_some, readDefault, all_isTrivia_map relocates]
    split
    · rfl
    · split <;> rfl

private theorem parameter_map (reading : Reading) (raw : RawItem) (here there : Position) :
    ((reading.map move).parameter (raw.map move) there).toOption =
      (reading.parameter raw here).toOption.map (Parameter.map move) := by
  simp only [Reading.parameter, RawItem.map, stars_map relocates]
  generalize reading.stars raw.tokens = parts
  obtain ⟨kind, stars, rest⟩ := parts
  cases rest with
  | nil => rfl
  | cons name rest =>
    simp only [List.map_cons, relocates.kind, splitDefault_map relocates]
    split
    · rfl
    · have head : ((splitDefault rest).1.map move).head?.any (fun first => !first.isOp ":") =
          (splitDefault rest).1.head?.any fun first => !first.isOp ":" := by
        rw [List.head?_map, Option.any_map]
        simp only [relocates.isOp]
      rw [head]
      split
      · rfl
      · have default := readDefault_map relocates kind (splitDefault rest).2
        rw [toOption_bind, toOption_bind, default]
        cases readDefault kind (splitDefault rest).2 with
        | error fault => rfl
        | ok default =>
          simp only [toOption_ok, Option.map_some, Option.bind_some, Option.isNone_map, Reading.map]
          split <;> rfl

omit relocates in
private theorem beforeSlash_map (items : List ParameterItem) :
    (items.map (ParameterItem.map move)).map ParameterItem.beforeSlash =
      (items.map ParameterItem.beforeSlash).map (ParameterItem.map move) := by
  have same : ∀ item : ParameterItem, (item.map move).beforeSlash = item.beforeSlash.map move := by
    intro item
    cases item <;> rfl
  simp [same]

private theorem step_map (reading : Reading) (raw : RawItem) (here there : Position) :
    ((reading.map move).step there (raw.map move)).toOption =
      (reading.step here raw).toOption.map (Reading.map move) := by
  unfold Reading.step
  simp only [RawItem.map]
  cases split : raw.tokens with
  | nil => rfl
  | cons first more =>
    have parameter := parameter_map relocates reading raw first.start (move first).start
    simp only [RawItem.map] at parameter
    rw [split, List.map_cons] at parameter
    simp only [List.map_cons, List.isEmpty_map, relocates.isOp]
    split
    · cases star : reading.keywordOnly with
      | true => simp only [Reading.map, star, if_true, toOption_error, Option.map_none]
      | false =>
        simp only [Reading.map, star, Bool.false_eq_true, if_false, toOption_ok, Option.map_some,
          beforeSlash_map, List.map_append]
        rfl
    · split
      · simp [toOption_ok, Reading.map, ParameterItem.map]
      · rw [toOption_bind, toOption_bind, parameter]
        cases reading.parameter raw first.start with
        | error fault => rfl
        | ok value =>
          simp [toOption_ok, Reading.map, ParameterItem.map, Parameter.map, pure, Except.pure]

private theorem foldlM_step_map (items : List RawItem) (reading : Reading) (here there : Position) :
    ((items.map (RawItem.map move)).foldlM (Reading.step there) (reading.map move)).toOption =
      (items.foldlM (Reading.step here) reading).toOption.map (Reading.map move) := by
  induction items generalizing reading with
  | nil => rfl
  | cons raw rest ih =>
    rw [List.map_cons, List.foldlM_cons, List.foldlM_cons, toOption_bind, toOption_bind,
      step_map relocates reading raw here there]
    cases reading.step here raw with
    | error fault => rfl
    | ok next => exact ih next

private theorem read_map (inner : List Token) (here there : Position) :
    (read there (inner.map move)).toOption =
      (read here inner).toOption.map (Parameters.map move) := by
  simp only [read, Pieces.ofTokens_map relocates, Pieces.map, rawItems_map relocates]
  have items := foldlM_step_map relocates
    (rawItems (Pieces.ofTokens {} inner).last (Pieces.ofTokens {} inner).ended).2 {} here there
  rw [toOption_bind, toOption_bind]
  rw [show Reading.map move {} = {} from rfl] at items
  rw [items]
  cases List.foldlM (Reading.step here) {}
    (rawItems (Pieces.ofTokens {} inner).last (Pieces.ofTokens {} inner).ended).2 <;> rfl

end Parameters

namespace Header

def map (move : Token → Token) (header : Header) : Header :=
  ⟨header.name, header.isAsync, header.head.map move, header.parameters.map move,
    header.tail.map move⟩

variable {move : Token → Token} (relocates : Relocates move)
include relocates

private theorem typeParameters_map (list : List Token) (here there : Position) :
    (typeParameters there (list.map move)).toOption = (typeParameters here list).toOption.map
      fun found => (found.1.map move, found.2.map move) := by
  cases list with
  | nil => rfl
  | cons opening rest =>
    simp only [List.map_cons, typeParameters, relocates.isOp, Cut.atClose_map relocates]
    split
    · cases Cut.atClose 0 rest with
      | none => rfl
      | some cut => simp [toOption_ok, Cut.map]
    · rfl

private theorem signature_map (list : List Token) (here there : Position) :
    (signature there (list.map move)).toOption = (signature here list).toOption.map
      fun found => (move found.1, found.2.1.map move, found.2.2.1.map move,
        found.2.2.2.map move) := by
  cases list with
  | nil => rfl
  | cons opening rest =>
    simp only [List.map_cons, signature, relocates.isOp, Cut.atClose_map relocates]
    split
    · cases Cut.atClose 0 rest with
      | none => rfl
      | some list =>
        simp only [Option.map_some, Cut.map, Cut.atOp_map relocates]
        cases Cut.atOp ":" 0 list.after with
        | none => rfl
        | some tail =>
          simp only [Option.map_some, Cut.map]
          rw [toOption_bind, toOption_bind, Parameters.read_map relocates list.before here there]
          cases Parameters.read here list.before with
          | error fault => rfl
          | ok parameters =>
            simp [toOption_ok, pure, Except.pure]
    · rfl

private theorem read_map (first : Token) (more : List Token) :
    (read (move first) (more.map move)).toOption =
      (read first more).toOption.map fun found => (found.1.map move, found.2.map move) := by
  have drop : (if first.isName "async" = true then (more.map move).drop 1 else more.map move) =
      (if first.isName "async" = true then more.drop 1 else more).map move := by
    split
    · rw [List.map_drop]
    · rfl
  simp only [read, relocates.isName, drop]
  cases (if first.isName "async" = true then more.drop 1 else more) with
  | nil => rfl
  | cons name rest =>
    simp only [List.map_cons, relocates.kind, relocates.text]
    split
    · rfl
    · rw [toOption_bind, toOption_bind, typeParameters_map relocates rest first.start]
      cases typeParameters first.start rest with
      | error fault => rfl
      | ok types =>
        simp only [toOption_ok, Option.map_some, Option.bind_some]
        rw [toOption_bind, toOption_bind, signature_map relocates types.2 first.start]
        cases signature first.start types.2 with
        | error fault => rfl
        | ok found =>
          simp only [toOption_ok, Option.map_some, Option.bind_some, pure, Except.pure, map]
          cases first.isName "async" <;> simp

end Header

namespace Line

variable {move : Token → Token} (relocates : Relocates move)
include relocates

private theorem startsFunction_map (line : List Token) :
    startsFunction (line.map move) = startsFunction line := by
  cases line with
  | nil => rfl
  | cons first rest =>
    simp only [List.map_cons, startsFunction, relocates.isName, List.head?_map, Option.any_map]

private theorem endsWithColon_map (line : List Token) :
    endsWithColon (line.map move) = endsWithColon line := by
  simp only [endsWithColon, ← List.map_reverse, List.find?_map, Function.comp_def,
    relocates.isTrivia, relocates.kind, Option.any_map, relocates.isOp]

private theorem significant_map (line : List Token) :
    significant (line.map move) = (significant line).map move := by
  simp only [significant, List.filter_map, Function.comp_def, relocates.isSignificant]

private theorem unwrap?_map (tokens : List Token) :
    unwrap? (tokens.map move) = (unwrap? tokens).map (List.map move) := by
  cases tokens with
  | nil => rfl
  | cons first rest =>
    simp only [List.map_cons, unwrap?, relocates.isOp, List.getLast?_map, Option.any_map]
    split
    · simp
    · rfl

private theorem unwrapped_map (limit : Nat) (tokens : List Token) :
    unwrapped limit (tokens.map move) = (unwrapped limit tokens).map move := by
  induction limit generalizing tokens with
  | zero => rfl
  | succ limit ih =>
    simp only [unwrapped, unwrap?_map relocates]
    cases unwrap? tokens with
    | none => rfl
    | some inner => exact ih inner

theorem isDocstring_map (line : List Token) : isDocstring (line.map move) = isDocstring line := by
  have literal : ∀ token, isTextLiteral (move token) = isTextLiteral token := by
    intro token
    rw [isTextLiteral, relocates.kind, relocates.text, isTextLiteral]
  simp only [isDocstring, significant_map relocates, List.length_map, unwrapped_map relocates,
    List.isEmpty_map, List.all_map, Function.comp_def, literal]

theorem isFutureImport_map (line : List Token) :
    isFutureImport (line.map move) = isFutureImport line := by
  simp only [isFutureImport, significant_map relocates]
  match significant line with
  | [] => rfl
  | [_] => rfl
  | [_, _] => rfl
  | first :: second :: third :: rest => simp only [List.map_cons, relocates.isName]

end Line

def Margin.map (move : Token → Token) (margin : Margin) : Margin :=
  ⟨margin.leading.map move, margin.indent.map move⟩

mutual

def Stmt.map (move : Token → Token) : Stmt → Stmt
  | .trivia tokens => .trivia (tokens.map move)
  | .simple line => .simple (line.map move)
  | .compound header margin body =>
    .compound (header.map move) (margin.map move) (bodyMap move body)
  | .function header margin body =>
    .function (header.map move) (margin.map move) (bodyMap move body)
  | .inlineFunction header line => .inlineFunction (header.map move) (line.map move)
  | .prologue resolutions => .prologue resolutions
  | .runtimeImport => .runtimeImport

def bodyMap (move : Token → Token) : List Stmt → List Stmt
  | [] => []
  | stmt :: rest => stmt.map move :: bodyMap move rest

end

theorem bodyMap_eq (move : Token → Token) (body : List Stmt) :
    bodyMap move body = body.map (Stmt.map move) := by
  induction body with
  | nil => rfl
  | cons stmt rest ih => rw [bodyMap, ih, List.map_cons]

/-- Two rows that differ in the places of their tokens. -/
inductive Row.Moved (move : Token → Token) : Row → Row → Prop
  | trivia (first : Token) (more : List Token) :
      Moved move (.trivia first more) (.trivia (move first) (more.map move))
  | line (first : Token) (more : List Token) :
      Moved move (.line first more) (.line (move first) (more.map move))
  | indent (token : Token) : Moved move (.indent token) (.indent (move token))
  | dedent (token : Token) : Moved move (.dedent token) (.dedent (move token))
  | stop (token : Token) : Moved move (.stop token) (.stop (move token))
  | broken (first other : Token) (fault fault' : Fault) :
      Moved move (.broken first fault) (.broken other fault')

namespace Row

def Begun.map (move : Token → Token) : Begun → Begun
  | .nothing => .nothing
  | .trivia first reversed => .trivia (move first) (reversed.map move)
  | .line first reversed => .line (move first) (reversed.map move)

variable {move : Token → Token}

private theorem ended_map (begun : Begun) :
    List.Forall₂ (Moved move) begun.ended (begun.map move).ended := by
  cases begun with
  | nothing => exact .nil
  | line first reversed => exact .nil
  | trivia first reversed =>
    simp only [Begun.ended, Begun.map, ← List.map_reverse]
    exact .cons (.trivia first _) .nil

def Begun.isBetween : Begun → Bool
  | .line _ _ => false
  | _ => true

theorem gather_of_isBetween {begun : Begun} (between : begun.isBetween = true) (token : Token)
    (rest : List Token) : gather begun (token :: rest) = match token.kind with
      | .comment | .nl => gather (begun.addTrivia token) rest
      | .indent => begun.ended ++ .indent token :: gather .nothing rest
      | .dedent => begun.ended ++ .dedent token :: gather .nothing rest
      | .endMarker => begun.ended ++ [.stop token]
      | .newline => begun.ended ++ .line token [] :: gather .nothing rest
      | _ => begun.ended ++ gather (.line token []) rest := by
  cases begun with
  | nothing => rfl
  | trivia first reversed => rfl
  | line first reversed => cases between

private theorem addTrivia_map (begun : Begun) (token : Token) :
    (begun.map move).addTrivia (move token) = (begun.addTrivia token).map move := by
  cases begun <;> rfl

private theorem gather_map (relocates : Relocates move) (tokens : List Token) (begun : Begun) :
    List.Forall₂ (Moved move) (gather begun tokens) (gather (begun.map move) (tokens.map move)) := by
  induction tokens generalizing begun with
  | nil =>
    cases begun with
    | line first reversed => exact .cons (.broken _ _ _ _) .nil
    | nothing => exact ended_map .nothing
    | trivia first reversed => exact ended_map (.trivia first reversed)
  | cons token rest ih =>
    have between : ∀ begun : Begun, begun.isBetween = true →
        List.Forall₂ (Moved move) (gather begun (token :: rest))
          (gather (begun.map move) (move token :: rest.map move)) := by
      intro begun isBetween
      have isBetween' : (begun.map move).isBetween = true := by
        cases begun with
        | nothing => rfl
        | trivia first reversed => rfl
        | line first reversed => cases isBetween
      rw [gather_of_isBetween isBetween, gather_of_isBetween isBetween', relocates.kind]
      have ended : List.Forall₂ (Moved move) begun.ended (begun.map move).ended := ended_map begun
      cases token.kind with
      | comment | nl =>
        simp only [addTrivia_map]
        exact ih _
      | indent => exact List.rel_append ended (.cons (.indent _) (ih .nothing))
      | dedent => exact List.rel_append ended (.cons (.dedent _) (ih .nothing))
      | endMarker => exact List.rel_append ended (.cons (.stop _) .nil)
      | newline => exact List.rel_append ended (.cons (.line _ []) (ih .nothing))
      | name | number | string | op | stray => exact List.rel_append ended (ih (.line token []))
    cases begun with
    | nothing => exact between .nothing rfl
    | trivia first reversed => exact between (.trivia first reversed) rfl
    | line first reversed =>
      simp only [List.map_cons, Begun.map, gather, relocates.kind]
      cases token.kind with
      | newline =>
        have more : (move token :: reversed.map move).reverse =
            (token :: reversed).reverse.map move := by rw [← List.map_cons, List.map_reverse]
        simp only [more]
        exact .cons (.line _ _) (ih .nothing)
      | indent | dedent | endMarker => exact .cons (.broken _ _ _ _) .nil
      | name | number | string | op | comment | nl | stray => exact ih (.line first (token :: reversed))

end Row

def Opener.map (move : Token → Token) : Opener → Opener
  | .compound header => .compound (header.map move)
  | .function header => .function (header.map move)

def Frame.map (move : Token → Token) (frame : Frame) : Frame :=
  ⟨frame.opener.map move, frame.margin.map move, bodyMap move frame.before⟩

namespace Reader

def map (move : Token → Token) (last : Position) (reader : Reader) : Reader :=
  ⟨reader.frames.map (Frame.map move), bodyMap move reader.body,
    reader.waiting.map fun waiting => (waiting.1.map move, waiting.2.map move), last⟩

private theorem bodyMap_append (move : Token → Token) (front back : List Stmt) :
    bodyMap move (front ++ back) = bodyMap move front ++ bodyMap move back := by
  simp only [bodyMap_eq, List.map_append]

variable {move : Token → Token} (relocates : Relocates move)
include relocates

private theorem line_map (reader : Reader) (last : Position) (first : Token) (more : List Token) :
    ((reader.map move last).line (move first) (more.map move)).toOption =
      (reader.line first more).toOption.map (Reader.map move last) := by
  have starts := Line.startsFunction_map relocates (first :: more)
  have ends := Line.endsWithColon_map relocates (first :: more)
  rw [List.map_cons] at starts ends
  simp only [line, starts, ends]
  split
  · rw [toOption_bind, toOption_bind, Header.read_map relocates]
    cases Header.read first more with
    | error fault => rfl
    | ok found =>
      obtain ⟨header, behind⟩ := found
      have code : (behind.map move).any (fun token => !token.isTrivia && token.kind != .newline) =
          behind.any fun token => !token.isTrivia && token.kind != .newline := by
        rw [List.any_map]
        simp only [Function.comp_def, relocates.isTrivia, relocates.kind]
      simp only [toOption_ok, Option.map_some, Option.bind_some, code]
      split
      · simp only [pure, Except.pure, toOption_ok, Option.map_some, push, map, bodyMap_append]
        rfl
      · simp [pure, Except.pure, toOption_ok, map, Opener.map, Header.map]
  · split
    · rfl
    · simp only [toOption_ok, Option.map_some, push, map, bodyMap_append]
      rfl

private theorem statement_map (reader : Reader) (last : Position) {row row' : Row}
    (moved : Row.Moved move row row') :
    ((reader.map move last).statement row').toOption =
      (reader.statement row).toOption.map (Reader.map move last) := by
  cases moved with
  | trivia first more =>
    simp only [statement, toOption_ok, Option.map_some, push, map, bodyMap_append]
    rfl
  | line first more => exact line_map relocates reader last first more
  | indent token => rfl
  | dedent token =>
    simp only [statement, map]
    cases reader.frames with
    | nil => rfl
    | cons frame frames =>
      simp only [List.map_cons, toOption_ok, Option.map_some, map, bodyMap_append]
      obtain ⟨opener, margin, before⟩ := frame
      cases opener <;> rfl
  | stop token => rfl
  | broken first other fault fault' => rfl

omit relocates in
private theorem block_map (reader : Reader) (last : Position) (opener : Opener)
    (leading : List Token) {row row' : Row} (moved : Row.Moved move row row') :
    ((reader.map move last).block (opener.map move) (leading.map move) row').toOption =
      (reader.block opener leading row).toOption.map (Reader.map move last) := by
  cases moved with
  | trivia first more => simp [block, toOption_ok, map]
  | indent token => rfl
  | line | dedent | stop | broken => rfl

private theorem step_map (reader : Reader) (last : Position) {row row' : Row}
    (moved : Row.Moved move row row') :
    ((reader.map move last).step row').toOption =
      (reader.step row).toOption.map (Reader.map move row'.lastStart) := by
  have next : ∀ x : Except Fault Reader, ∀ y : Except Fault Reader,
      x.toOption = y.toOption.map (Reader.map move last) →
      (x >>= fun next => pure { next with last := row'.lastStart } : Except Fault Reader).toOption =
        (y >>= fun next => pure { next with last := row.lastStart } :
          Except Fault Reader).toOption.map (Reader.map move row'.lastStart) := by
    intro x y same
    rw [toOption_bind, toOption_bind, same]
    cases y <;> rfl
  simp only [step]
  cases waiting : reader.waiting with
  | none =>
    have none : (reader.map move last).waiting = none := by rw [map, waiting]; rfl
    rw [none]
    exact next _ _ (statement_map relocates reader last moved)
  | some opened =>
    have some : (reader.map move last).waiting = some (opened.1.map move, opened.2.map move) := by
      rw [map, waiting]
      rfl
    rw [some]
    exact next _ _ (block_map reader last opened.1 opened.2 moved)

private theorem run_map {rows rows' : List Row} (moved : List.Forall₂ (Row.Moved move) rows rows')
    (reader : Reader) (last : Position) :
    ((reader.map move last).run rows').toOption =
      (reader.run rows).toOption.map (bodyMap move) := by
  induction moved generalizing reader last with
  | nil =>
    obtain ⟨frames, body, waiting, here⟩ := reader
    cases waiting with
    | some opened => rfl
    | none => cases frames <;> rfl
  | @cons row row' rows rows' first _ ih =>
    have stops : (reader.map move last).atStop row' = reader.atStop row := by
      cases first <;> simp [atStop, map]
    rw [run, run, stops]
    split
    · rfl
    · rw [toOption_bind, toOption_bind, step_map relocates reader last first]
      cases reader.step row with
      | error fault => rfl
      | ok next => exact ih next _

end Reader

def Program.map (move : Token → Token) (program : Program) : Program :=
  ⟨bodyMap move program.body⟩

theorem Program.ofTokens_map {move : Token → Token} (relocates : Relocates move)
    (tokens : List Token) :
    (Program.ofTokens (tokens.map move)).toOption =
      (Program.ofTokens tokens).toOption.map (Program.map move) := by
  have rows := Row.gather_map relocates tokens .nothing
  have ran := Reader.run_map relocates rows {} Position.origin
  simp only [ofTokens, Row.ofTokens]
  rw [toOption_bind, toOption_bind]
  rw [show Row.Begun.map move .nothing = .nothing from rfl,
    show Reader.map move Position.origin {} = {} from rfl] at ran
  rw [ran]
  cases Reader.run {} (Row.gather .nothing tokens) <;> rfl

end DeferredDefaults
