import DeferredDefaults.Fault
import DeferredDefaults.Text.Utf8

/-!
Everything that can go wrong between the bytes of a file and its expanded text.
-/

set_option autoImplicit false
set_option relaxedAutoImplicit false

namespace DeferredDefaults

inductive FileFault where
  | notFound
  | isDirectory
deriving DecidableEq, Repr

def FileFault.message : FileFault → String
  | notFound => "no such file"
  | isDirectory => "is a directory"

inductive Failure where
  /-- The text itself is at fault. -/
  | source (fault : Fault)
  /-- The bytes are not UTF-8. -/
  | encoding (fault : Text.Utf8.Fault)
  /-- The header names a codec that is not registered. -/
  | unknownCodec (name : String)
  | file (fault : FileFault)
deriving DecidableEq, Repr

def Failure.message : Failure → String
  | source fault => fault.message
  | encoding fault => "source is not valid UTF-8: " ++ fault.message
  | unknownCodec name => "unknown source codec `" ++ name ++ "`"
  | file fault => fault.message

def decodeText (bytes : List UInt8) : Except Failure String :=
  match Text.Utf8.decode bytes with
  | .ok text => .ok (String.ofList text)
  | .error fault => .error (.encoding fault)

def Failure.ofFault {α : Type} : Except Fault α → Except Failure α
  | .ok value => .ok value
  | .error fault => .error (.source fault)

end DeferredDefaults
