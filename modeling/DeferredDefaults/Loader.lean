import DeferredDefaults.Codec

/-!
Loading source files. A loader expands the files whose names end with one of its suffixes; other
files are only decoded by the codec that their header declares.
-/

set_option autoImplicit false
set_option relaxedAutoImplicit false

namespace DeferredDefaults

namespace Path

def parts (path : String) : List String :=
  ((path.toList.splitOn '/').map String.ofList).filter fun part => part != "" && part != "."

def fileName? (path : String) : Option String :=
  (parts path).getLast?.filter fun part => part != ".."

end Path

structure Files where
  entries : List (List String × List UInt8) := []
deriving DecidableEq, Repr

namespace Files

def write (files : Files) (path : String) (bytes : List UInt8) : Files :=
  let place := Path.parts path
  ⟨(place, bytes) :: files.entries.filter fun entry => entry.1 != place⟩

/-- The bytes of a file. A path above a file is a directory. -/
def read (files : Files) (path : String) : Except FileFault (List UInt8) :=
  let place := Path.parts path
  match files.entries.find? fun entry => entry.1 == place with
  | some entry => .ok entry.2
  | none =>
    if place.isEmpty || files.entries.any fun entry => place.isPrefixOf entry.1 then
      .error .isDirectory
    else .error .notFound

end Files

structure CompiledFile where
  path : String
  program : Program
  code : String
deriving Repr

structure Loader where
  options : Options := {}
  suffixes : List String := [".py"]
deriving DecidableEq, Repr

namespace Loader

def hasSuffix (name suffix : String) : Bool :=
  suffix.toList.isSuffixOf name.toList && suffix.toList.length < name.toList.length

def handles (loader : Loader) (path : String) : Bool :=
  (Path.fileName? path).any fun name => loader.suffixes.any (hasSuffix name)

def compile (loader : Loader) (path : String) (bytes : List UInt8) :
    Except Failure CompiledFile := do
  let source ← decodeText bytes
  let expanded ← Failure.ofFault (Expansion.throughTokens loader.options source)
  return ⟨path, expanded.program, expanded.code⟩

def bytesOf (files : Files) (path : String) : Except Failure (List UInt8) :=
  match files.read path with
  | .ok bytes => .ok bytes
  | .error fault => .error (.file fault)

def load (loader : Loader) (files : Files) (path : String) : Except Failure CompiledFile := do
  loader.compile path (← bytesOf files path)

/-- The text of a file: expanded if there is a loader that handles it, else decoded as its header
declares. -/
def textOf (loader : Option Loader) (registry : Registry) (files : Files) (path : String) :
    Except Failure String :=
  match loader.filter fun loader => loader.handles path with
  | some loader => do return (← loader.load files path).code
  | none => do registry.decodeSource (← bytesOf files path)

end Loader

end DeferredDefaults
