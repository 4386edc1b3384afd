import DeferredDefaults.Call.Bindings

/-!
Signatures: the parameters of a function with their defaults, and how a call fills them. Positional
parameters come before keyword-only ones, and a late default reads all parameters before its own.
-/

set_option autoImplicit false
set_option relaxedAutoImplicit false

namespace DeferredDefaults.Call

universe u

inductive Kind where
  | positionalOnly
  | positionalOrKeyword
  | keywordOnly
deriving DecidableEq, Repr

namespace Kind

/-- Arguments reach the parameter by position. -/
def isPositional : Kind → Bool
  | keywordOnly => false
  | _ => true

def rank : Kind → Nat
  | positionalOnly => 0
  | positionalOrKeyword => 1
  | keywordOnly => 2

end Kind

/-- What a parameter has when its argument is left out. -/
inductive Default (V : Type u) where
  | required
  | eager (value : V)
  /-- The body computes the value on every call. -/
  | late (body : List V → Except Fault V)

/-- One parameter as it is declared. -/
structure Declaration (V : Type u) where
  name : String
  kind : Kind
  default : Default V

/-- How a parameter is filled when its argument is left out. -/
inductive Fill (V : Type u) where
  | required
  | eager (value : V)
  | late (computation : Computation V)

structure Param (V : Type u) where
  name : String
  kind : Kind
  fill : Fill V

/-- The parameters of a function. -/
structure Signature (V : Type u) where
  name : String
  params : List (Param V)

variable {V : Type u}

namespace Default

def isRequired : Default V → Bool
  | required => true
  | _ => false

def fill (before : List String) : Default V → Fill V
  | required => .required
  | eager value => .eager value
  | late body => .late ⟨before, body⟩

end Default

/-- What checking declarations knows between two of them. -/
structure Checked where
  names : List String := []
  kind : Kind := .positionalOnly
  /-- A positional parameter has a default. -/
  defaulted : Bool := false
deriving DecidableEq, Repr

namespace Checked

/-- Checks one declaration: first its name, then its kind, then its default. -/
def step (checked : Checked) (declaration : Declaration V) : Except SignatureFault Checked :=
  let name := declaration.name
  if name ∈ checked.names then .error (.duplicate name)
  else if declaration.kind.rank < checked.kind.rank then .error (.outOfOrder name)
  else if declaration.kind.isPositional && declaration.default.isRequired && checked.defaulted then
    .error (.requiredAfterDefault name)
  else .ok {
    names := checked.names ++ [name]
    kind := declaration.kind
    defaulted := checked.defaulted ||
      (declaration.kind.isPositional && !declaration.default.isRequired) }

end Checked

namespace Signature

def paramsFrom (before : List String) : List (Declaration V) → List (Param V)
  | [] => []
  | declaration :: rest =>
    ⟨declaration.name, declaration.kind, declaration.default.fill before⟩ ::
      paramsFrom (before ++ [declaration.name]) rest

/-- The signature of a list of declarations. -/
def build (name : String) (declarations : List (Declaration V)) :
    Except Fault (Signature V) :=
  match declarations.foldlM Checked.step {} with
  | .error cause => .error (.invalidSignature name cause)
  | .ok _ => .ok ⟨name, paramsFrom [] declarations⟩

/-- The names that the late default of a parameter reads. -/
def dependencies? (signature : Signature V) (name : String) : Option (List String) :=
  match signature.params.find? fun param => param.name == name with
  | some ⟨_, _, .late computation⟩ => some computation.dependencies
  | _ => none

/-- The number of parameters that arguments reach by position. -/
def positionalCount (signature : Signature V) : Nat :=
  signature.params.countP fun param => param.kind.isPositional

/-- The parameters with the arguments given by position. -/
def place : List (Param V) → List V → List (Param V × Option V)
  | [], _ => []
  | param :: params, [] => (param, none) :: place params []
  | param :: params, argument :: arguments => (param, some argument) :: place params arguments

def supply (function keyword : String) (value : V) :
    List (Param V × Option V) → Except Fault (List (Param V × Option V))
  | [] => .error (.unexpectedKeyword function keyword)
  | (param, supplied) :: rest =>
    if param.name = keyword ∧ param.kind ≠ .positionalOnly then
      match supplied with
      | some _ => .error (.duplicateArgument function keyword)
      | none => .ok ((param, some value) :: rest)
    else do return (param, supplied) :: (← supply function keyword value rest)

/-- The slot of a parameter: its argument, else its default. -/
def slot (function : String) (param : Param V) (supplied : Option V) : Except Fault (Slot V) :=
  match supplied, param.fill with
  | some value, _ => .ok (.value value)
  | none, .eager value => .ok (.value value)
  | none, .late computation => .ok (.deferred (computation.defer param.name))
  | none, .required => .error (.missingArgument function param.name)

/-- The bindings of parameters with their arguments. -/
def slots (function : String) (bindings : Bindings V) :
    List (Param V × Option V) → Except Fault (Bindings V)
  | [] => .ok bindings
  | (param, supplied) :: rest => do
    let slot ← slot function param supplied
    slots function (bindings.insert param.name slot) rest

/-- Binds the arguments of a call. Late defaults that are left out wait in their slots. -/
def bind (signature : Signature V) (arguments : List V) (keywords : List (String × V)) :
    Except Fault (Bindings V) :=
  if signature.positionalCount < arguments.length then
    .error (.tooManyPositional signature.name signature.positionalCount arguments.length)
  else do
    let supplied ← keywords.foldlM
      (fun supplied keyword => supply signature.name keyword.1 keyword.2 supplied)
      (place signature.params arguments)
    slots signature.name .empty supplied

/-- Binds the arguments of a call and resolves its late defaults. -/
def call (signature : Signature V) (arguments : List V) (keywords : List (String × V)) :
    Outcome V :=
  match signature.bind arguments keywords with
  | .error fault => ⟨[], .error fault⟩
  | .ok bindings => bindings.evaluate

end Signature

end DeferredDefaults.Call
