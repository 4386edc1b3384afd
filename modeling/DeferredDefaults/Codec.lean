import DeferredDefaults.Coding
import DeferredDefaults.Expansion
import DeferredDefaults.Failure
import DeferredDefaults.Text.Blank

/-!
Codecs turn the bytes of a source into its expanded text. A registry holds at most one codec for a
name, whatever the spelling of the name, and picks the one that the header of a source declares.
-/

set_option autoImplicit false
set_option relaxedAutoImplicit false

namespace DeferredDefaults

/-- A codec: its name in normal form, and the options of the expansion. -/
structure Codec where
  name : String
  options : Options
deriving DecidableEq, Repr

namespace Codec

def normalChar (c : Char) : Char := if c = '_' ∨ c = ' ' then '-' else c.toLower

/-- The normal form of a name: no white space at its ends, ASCII letters in lower case, and a
hyphen for every underscore and space. -/
def normalize (name : String) : String :=
  String.ofList ((Text.Blank.trim name.toList).map normalChar)

def isUtf8Name (name : String) : Bool := normalize name == "utf-8" || normalize name == "utf8"

def named (name : String) (options : Options) : Codec := ⟨normalize name, options⟩

def standardName : String := "experimental-late-bound-defaults"

def standard (options : Options) : Codec := named standardName options

def decode (codec : Codec) (bytes : List UInt8) : Except Failure String := do
  let source ← decodeText bytes
  Failure.ofFault (Expansion.throughText codec.options source)

end Codec

/-- The codecs that headers may declare. -/
structure Registry where
  codecs : List Codec := []
deriving DecidableEq, Repr

namespace Registry

def find? (registry : Registry) (name : String) : Option Codec :=
  registry.codecs.find? fun codec => codec.name == name

def without (registry : Registry) (name : String) : Registry :=
  ⟨registry.codecs.filter fun codec => codec.name != name⟩

/-- The codec with any spelling of its name. -/
def lookup? (registry : Registry) (name : String) : Option Codec :=
  registry.find? (Codec.normalize name)

/-- Adds a codec. The one of the same name, if there is one, is replaced and comes back. -/
def register (registry : Registry) (codec : Codec) : Option Codec × Registry :=
  (registry.find? codec.name, ⟨codec :: (registry.without codec.name).codecs⟩)

def unregister (registry : Registry) (name : String) : Option Codec × Registry :=
  (registry.lookup? name, registry.without (Codec.normalize name))

/-- The text of a source: expanded by the codec that its header declares, or plain UTF-8 when it
declares that or nothing. -/
def decodeSource (registry : Registry) (source : List UInt8) : Except Failure String :=
  match Coding.declaration? source with
  | none => decodeText source
  | some name =>
    if Codec.isUtf8Name name then decodeText source
    else match registry.lookup? name with
      | some codec => codec.decode source
      | none => .error (.unknownCodec name)

end Registry

end DeferredDefaults
