import DeferredDefaults.Fault
import DeferredDefaults.Tree.MarkerCall

/-!
Parameter lists. Every token of the list is kept: in front of the first item, in an item, or behind
it with its comma. Reading goes through the items from left to right and keeps which kind of
parameter comes next and whether a default has been seen.
-/

set_option autoImplicit false
set_option relaxedAutoImplicit false

namespace DeferredDefaults

inductive Parameter.Kind where
  | positionalOnly
  | positionalOrKeyword
  | varPositional
  | keywordOnly
  | varKeyword
deriving DecidableEq, Repr

/-- Arguments reach the parameter by position. -/
def Parameter.Kind.isPositional : Parameter.Kind → Bool
  | positionalOnly | positionalOrKeyword => true
  | _ => false

def Parameter.Kind.isVariadic : Parameter.Kind → Bool
  | varPositional | varKeyword => true
  | _ => false

/-- A late default: the names it may read, and the marker call that holds its expression. -/
structure Deferred where
  dependencies : List String
  call : MarkerCall
deriving DecidableEq, Repr

def Deferred.isTuple (deferred : Deferred) : Bool := 1 < deferred.call.args.length

inductive DefaultValue where
  /-- An ordinary default. -/
  | expression (tokens : List Token)
  | deferred (value : Deferred)
deriving DecidableEq, Repr

def DefaultValue.tokens : DefaultValue → List Token
  | expression tokens => tokens
  | deferred value => value.call.tokens

structure ParameterDefault where
  eq : Token
  value : DefaultValue
deriving DecidableEq, Repr

def ParameterDefault.tokens (default : ParameterDefault) : List Token :=
  default.eq :: default.value.tokens

structure Parameter where
  kind : Parameter.Kind
  /-- The `*` or `**` of a variadic parameter. -/
  stars : List Token
  name : Token
  /-- The `:` and the annotation. -/
  hint : List Token
  default : Option ParameterDefault
  /-- The comma and the trivia around it. -/
  suffix : List Token
deriving DecidableEq, Repr

def Parameter.tokens (parameter : Parameter) : List Token :=
  parameter.stars ++ parameter.name :: parameter.hint ++
    (parameter.default.map ParameterDefault.tokens).getD [] ++ parameter.suffix

/-- What a separator says about the parameters around it. -/
inductive Separator.Kind where
  /-- `/` ends the positional-only parameters. -/
  | positionalOnly
  /-- A bare `*` begins the keyword-only parameters. -/
  | keywordOnly
deriving DecidableEq, Repr

structure Separator where
  kind : Separator.Kind
  token : Token
  suffix : List Token
deriving DecidableEq, Repr

inductive ParameterItem where
  | parameter (value : Parameter)
  | separator (value : Separator)
deriving DecidableEq, Repr

namespace ParameterItem

def tokens : ParameterItem → List Token
  | parameter value => value.tokens
  | separator value => value.token :: value.suffix

def parameter? : ParameterItem → Option Parameter
  | parameter value => some value
  | separator _ => none

def beforeSlash : ParameterItem → ParameterItem
  | parameter value => parameter { value with kind := .positionalOnly }
  | separator value => separator value

end ParameterItem

/-- The parameter list of a function. -/
structure Parameters where
  /-- Trivia behind the opening parenthesis. -/
  leading : List Token
  items : List ParameterItem
deriving DecidableEq, Repr

namespace Parameters

def tokens (parameters : Parameters) : List Token :=
  parameters.leading ++ parameters.items.flatMap ParameterItem.tokens

def list (parameters : Parameters) : List Parameter :=
  parameters.items.filterMap ParameterItem.parameter?

def names (parameters : Parameters) (select : Parameter.Kind → Bool) : List String :=
  (parameters.list.filter fun parameter => select parameter.kind).map (·.name.text)

/-- An item before it is read: its tokens, then its comma and the trivia around it. -/
structure RawItem where
  tokens : List Token
  suffix : List Token
deriving DecidableEq, Repr

def splitTrailing (tokens : List Token) : List Token × List Token :=
  let trailing := (tokens.reverse.takeWhile Token.isTrivia).reverse
  (tokens.take (tokens.length - trailing.length), trailing)

/-- The items of a list cut at its commas. Trivia before an item goes to the comma in front of it,
and the trivia in front of the first item comes back on its own. -/
def rawItems (last : List Token) : List Piece → List Token × List RawItem
  | [] =>
    let body := last.dropWhile Token.isTrivia
    let (core, trailing) := splitTrailing body
    (last.takeWhile Token.isTrivia, if body.isEmpty then [] else [⟨core, trailing⟩])
  | piece :: rest =>
    let (behind, items) := rawItems last rest
    let (core, trailing) := splitTrailing (piece.value.dropWhile Token.isTrivia)
    (piece.value.takeWhile Token.isTrivia,
      ⟨core, trailing ++ piece.comma :: behind⟩ :: items)

/-- What reading a parameter list knows between two items. -/
structure Reading where
  /-- A `*` has appeared: plain parameters are keyword-only from now on. -/
  keywordOnly : Bool := false
  /-- A parameter that is filled by position has a default. -/
  defaulted : Bool := false
  items : List ParameterItem := []
deriving DecidableEq, Repr

def Reading.plainKind (reading : Reading) : Parameter.Kind :=
  if reading.keywordOnly then .keywordOnly else .positionalOrKeyword

def Reading.stars (reading : Reading) :
    List Token → Parameter.Kind × List Token × List Token
  | [] => (reading.plainKind, [], [])
  | first :: rest =>
    if first.isOp "*" then (.varPositional, [first], rest)
    else if first.isOp "**" then (.varKeyword, [first], rest)
    else (reading.plainKind, [], first :: rest)

/-- The annotation behind a parameter's name, and the `=` with what follows it. -/
def splitDefault (tokens : List Token) : List Token × Option (Token × List Token) :=
  match Cut.atOp "=" 0 tokens with
  | some cut => (cut.before, some (cut.token, cut.after))
  | none => (tokens, none)

/-- Reads the default of a parameter. It must hold an expression, and a variadic parameter has
none. -/
def readDefault (kind : Parameter.Kind) :
    Option (Token × List Token) → Except Fault (Option ParameterDefault)
  | none => .ok none
  | some (eq, value) =>
    if value.all Token.isTrivia then .error (.parse .expectedDefault eq.start)
    else if kind.isVariadic then .error (.parse .variadicDefault eq.start)
    else .ok (some ⟨eq, .expression value⟩)

/-- Reads one parameter that begins at `position`. -/
def Reading.parameter (reading : Reading) (raw : RawItem) (position : Position) :
    Except Fault Parameter := do
  let (kind, stars, rest) := reading.stars raw.tokens
  match rest with
  | [] => .error (.parse .expectedParameterName position)
  | name :: rest =>
    if name.kind ≠ .name then .error (.parse .expectedParameterName position)
    else
      let (hint, default) := splitDefault rest
      if hint.head?.any fun first => !first.isOp ":" then
        .error (.parse .expectedParameterEnd name.start)
      else
        let default ← readDefault kind default
        if kind.isPositional && default.isNone && reading.defaulted then
          .error (.parse .requiredAfterDefault name.start)
        else return ⟨kind, stars, name, hint, default, raw.suffix⟩

/-- Reads one item of the list of a function that begins at `function`. -/
def Reading.step (function : Position) (reading : Reading) (raw : RawItem) :
    Except Fault Reading :=
  match raw.tokens with
  | [] => .error (.parse .emptyParameter ((raw.suffix.head?.map Token.start).getD function))
  | first :: more =>
    if more.isEmpty && first.isOp "/" then
      if reading.keywordOnly then .error (.parse .misplacedSlash first.start)
      else .ok { reading with
        items := reading.items.map ParameterItem.beforeSlash ++
          [.separator ⟨.positionalOnly, first, raw.suffix⟩] }
    else if more.isEmpty && first.isOp "*" then
      .ok { reading with
        keywordOnly := true
        items := reading.items ++ [.separator ⟨.keywordOnly, first, raw.suffix⟩] }
    else do
      let parameter ← reading.parameter raw first.start
      return {
        keywordOnly := reading.keywordOnly || parameter.kind == .varPositional
        defaulted := reading.defaulted ||
          (parameter.kind.isPositional && parameter.default.isSome)
        items := reading.items ++ [.parameter parameter] }

/-- Reads the tokens between the parentheses of a function that begins at `function`. -/
def read (function : Position) (inner : List Token) : Except Fault Parameters := do
  let pieces := Pieces.ofTokens {} inner
  let (leading, items) := rawItems pieces.last pieces.ended
  let reading ← items.foldlM (Reading.step function) {}
  return ⟨leading, reading.items⟩

end Parameters

end DeferredDefaults
