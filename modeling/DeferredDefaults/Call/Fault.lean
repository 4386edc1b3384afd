/-!
Everything that can go wrong when a signature is built, a call is bound, or late defaults are
resolved.
-/

set_option autoImplicit false
set_option relaxedAutoImplicit false

namespace DeferredDefaults.Call

/-- Why declarations form no signature. The name is that of the first declaration at fault. -/
inductive SignatureFault where
  | duplicate (name : String)
  | outOfOrder (name : String)
  | requiredAfterDefault (name : String)
deriving DecidableEq, Repr

def SignatureFault.message : SignatureFault → String
  | duplicate name => "duplicate parameter `" ++ name ++ "`"
  | outOfOrder name => "parameter `" ++ name ++ "` is out of order"
  | requiredAfterDefault name =>
    "required parameter `" ++ name ++ "` follows a parameter with a default"

inductive Fault where
  /-- A late default was called with another number of arguments than it reads names. -/
  | arity (name : String) (expected given : Nat)
  | unboundName (name : String)
  | tooManyPositional (function : String) (expected given : Nat)
  | unexpectedKeyword (function keyword : String)
  | duplicateArgument (function parameter : String)
  | missingArgument (function parameter : String)
  | invalidSignature (function : String) (cause : SignatureFault)
  /-- The value of a slot was asked for before it was resolved. -/
  | unresolved (name : String)
  /-- The body of a late default failed. -/
  | failed (message : String)
deriving DecidableEq, Repr

def Fault.message : Fault → String
  | arity name expected given =>
    "late-bound default `" ++ name ++ "` takes " ++ toString expected ++ " argument(s) but " ++
      toString given ++ " were given"
  | unboundName name => "name `" ++ name ++ "` is not defined"
  | tooManyPositional function expected given =>
    function ++ "() takes " ++ toString expected ++ " positional argument(s) but " ++
      toString given ++ " were given"
  | unexpectedKeyword function keyword =>
    function ++ "() got an unexpected keyword argument `" ++ keyword ++ "`"
  | duplicateArgument function parameter =>
    function ++ "() got multiple values for argument `" ++ parameter ++ "`"
  | missingArgument function parameter =>
    function ++ "() missing required argument `" ++ parameter ++ "`"
  | invalidSignature function cause =>
    "invalid signature for " ++ function ++ "(): " ++ cause.message
  | unresolved name => "binding `" ++ name ++ "` still holds an unevaluated late-bound default"
  | failed message => message

end DeferredDefaults.Call
