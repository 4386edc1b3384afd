import DeferredDefaults.Tree

/-!
Late binding turns every default that is a call of the marker into a deferred one, which records
the names it may read: the positional parameters before it, and for a keyword-only parameter all
positional ones and the keyword-only ones before it. Every function gets a prologue that resolves
its deferred defaults in declaration order, and the program gets one import.
-/

set_option autoImplicit false
set_option relaxedAutoImplicit false

namespace DeferredDefaults

def Argument.isKeyword (argument : Argument) : Bool :=
  match argument.value.filter fun token => !token.isTrivia with
  | first :: second :: _ => first.kind == .name && second.isOp "="
  | _ => false

namespace Deferred

/-- Reads the default of the parameter `name`. Nothing comes back for a default that does not begin
with the marker; one that does must be a whole call of it, with arguments and no keyword ones. -/
def ofTokens? (marker name : String) (dependencies : List String) (tokens : List Token) :
    Except Fault (Option Deferred) :=
  match MarkerCall.ofTokens? marker tokens with
  | none => match tokens.head? with
    | some first =>
      if first.isName marker then .error (.lateDefault name .notParenthesized first.start)
      else .ok none
    | none => .ok none
  | some call =>
    if call.args.isEmpty then .error (.lateDefault name .noExpression call.position)
    else match call.args.find? Argument.isKeyword with
      | some argument =>
        let position := (argument.value.head?.map Token.start).getD call.position
        .error (.lateDefault name .keywordArgument position)
      | none => .ok (some ⟨dependencies, call⟩)

end Deferred

/-- The names of a parameter list that late defaults may read. -/
structure Scope where
  positional : List String
  keywordOnly : List String
  /-- The number of positional parameters without a default. -/
  required : Nat
deriving DecidableEq, Repr

namespace Scope

def ofParameters (parameters : Parameters) : Scope where
  positional := parameters.names Parameter.Kind.isPositional
  keywordOnly := parameters.names (· == .keywordOnly)
  required := parameters.list.countP fun parameter =>
    parameter.kind.isPositional && parameter.default.isNone

/-- How many parameters of each sort have been passed. -/
structure Passed where
  /-- Positional parameters with a default. -/
  defaulted : Nat := 0
  /-- Keyword-only parameters. -/
  keywordOnly : Nat := 0
deriving DecidableEq, Repr

/-- The count behind one more parameter. -/
def Passed.next (passed : Passed) (parameter : Parameter) : Passed where
  defaulted := passed.defaulted +
    (if parameter.kind.isPositional && parameter.default.isSome then 1 else 0)
  keywordOnly := passed.keywordOnly + (if parameter.kind == .keywordOnly then 1 else 0)

/-- The names that the default of a parameter may read. -/
def visible (scope : Scope) (passed : Passed) (kind : Parameter.Kind) : List String :=
  if kind.isPositional then scope.positional.take (scope.required + passed.defaulted)
  else (scope.positional ++ scope.keywordOnly).take
    (scope.positional.length + passed.keywordOnly)

end Scope

namespace LateBinding

/-- A parameter whose default is deferred if it is a call of the marker, and how to resolve it. -/
def parameter (marker : String) (scope : Scope) (passed : Scope.Passed) (parameter : Parameter) :
    Except Fault (Parameter × List Resolution) :=
  match parameter.default with
  | some ⟨eq, .expression tokens⟩ =>
    if parameter.kind.isVariadic then .ok (parameter, [])
    else do
      let dependencies := scope.visible passed parameter.kind
      let name := parameter.name.text
      match ← Deferred.ofTokens? marker name dependencies tokens with
      | none => return (parameter, [])
      | some deferred =>
        return ({ parameter with default := some ⟨eq, .deferred deferred⟩ },
          [⟨name, dependencies⟩])
  | _ => .ok (parameter, [])

/-- The items of a parameter list with their defaults deferred, and how to resolve those. -/
def items (marker : String) (scope : Scope) (passed : Scope.Passed) :
    List ParameterItem → Except Fault (List ParameterItem × List Resolution)
  | [] => .ok ([], [])
  | .separator value :: rest => do
    let (others, resolutions) ← items marker scope passed rest
    return (.separator value :: others, resolutions)
  | .parameter value :: rest => do
    let (value', own) ← parameter marker scope passed value
    let (others, resolutions) ← items marker scope (passed.next value) rest
    return (.parameter value' :: others, own ++ resolutions)

/-- A header with its defaults deferred, and how to resolve those. -/
def header (marker : String) (header : Header) : Except Fault (Header × List Resolution) := do
  let scope := Scope.ofParameters header.parameters
  let (items, resolutions) ← items marker scope {} header.parameters.items
  return ({ header with parameters := { header.parameters with items := items } }, resolutions)

def insertAt (index : Nat) (stmt : Stmt) (body : List Stmt) : List Stmt :=
  body.take index ++ stmt :: body.drop index

/-- The prologue goes before the first statement that is not trivia, or behind it if it is a
docstring. -/
def prologueIndex (body : List Stmt) : Nat :=
  let first := body.findIdx fun stmt => !stmt.isTrivia
  if body[first]?.any Stmt.isDocstring then first + 1 else first

/-- The number of statements up to the last import from `__future__` at the front, trivia
included. -/
def futureLength : List Stmt → Nat
  | [] => 0
  | stmt :: rest =>
    if stmt.isFutureImport then futureLength rest + 1
    else if stmt.isTrivia then
      match futureLength rest with
      | 0 => 0
      | length + 1 => length + 2
    else 0

/-- The import goes where a prologue would, and then behind the imports from `__future__`. -/
def importIndex (body : List Stmt) : Nat :=
  let index := prologueIndex body
  index + futureLength (body.drop index)

def addPrologue (resolutions : List Resolution) (body : List Stmt) : List Stmt :=
  insertAt (prologueIndex body) (.prologue resolutions) body

mutual

/-- A statement with its defaults deferred. The defaults of a function come before those of the
functions in its body. -/
def statement (marker : String) : Stmt → Except Fault Stmt
  | .compound first margin body => do
    return .compound first margin (← statements marker body)
  | .function first margin body => do
    let (first', resolutions) ← header marker first
    return .function first' margin (addPrologue resolutions (← statements marker body))
  | .inlineFunction first line => do
    let (first', resolutions) ← header marker first
    return .function first' .inline (addPrologue resolutions [.simple line])
  | .trivia tokens => .ok (.trivia tokens)
  | .simple line => .ok (.simple line)
  | .prologue resolutions => .ok (.prologue resolutions)
  | .runtimeImport => .ok .runtimeImport

def statements (marker : String) : List Stmt → Except Fault (List Stmt)
  | [] => .ok []
  | stmt :: rest => do
    let stmt ← statement marker stmt
    return stmt :: (← statements marker rest)

end

end LateBinding

/-- The program with all defaults deferred that call `marker`. -/
def Program.bindLate (marker : String) (program : Program) : Except Fault Program := do
  let body ← LateBinding.statements marker program.body
  return ⟨LateBinding.insertAt (LateBinding.importIndex body) .runtimeImport body⟩

end DeferredDefaults
