import DeferredDefaults.Failure
import DeferredDefaults.Options
import DeferredDefaults.Toml.Document

/-!
Options from a TOML document. Keys that are missing keep their defaults, and other keys are passed
over.
-/

set_option autoImplicit false
set_option relaxedAutoImplicit false

namespace DeferredDefaults

inductive OptionsFault where
  /-- The file is not UTF-8. -/
  | notText
  /-- The text is no TOML document, or a key has a value of the wrong kind. -/
  | malformed
deriving DecidableEq, Repr

namespace PrologueStyle

def ofName? (name : String) : Option PrologueStyle :=
  if name = "assignments" then some .assignments
  else if name = "evaluator" then some .evaluator
  else none

def name : PrologueStyle → String
  | assignments => "assignments"
  | evaluator => "evaluator"

end PrologueStyle

namespace Options

def isHollow : Toml.Node → Bool
  | .array items => items.isEmpty
  | .table _ entries => entries.isEmpty
  | _ => false

def nameOf? (entries : Toml.Entries) (key default : String) : Option String :=
  match entries.find? key with
  | none => some default
  | some (.string text) => some text
  | some _ => none

/-- The style under a key, or a default. It is written as a string, or as the only key of a table
over nothing. -/
def styleOf? (entries : Toml.Entries) (key : String) (default : PrologueStyle) :
    Option PrologueStyle :=
  match entries.find? key with
  | none => some default
  | some (.string text) => PrologueStyle.ofName? text
  | some (.table _ [(name, node)]) => if isHollow node then PrologueStyle.ofName? name else none
  | some _ => none

def ofEntries? (entries : Toml.Entries) : Option Options := do
  let base : Options := {}
  return {
    markerName := ← nameOf? entries "marker-name" base.markerName
    runtimeModule := ← nameOf? entries "runtime-module" base.runtimeModule
    wrapperName := ← nameOf? entries "wrapper-name" base.wrapperName
    evaluatorName := ← nameOf? entries "evaluator-name" base.evaluatorName
    prologue := ← styleOf? entries "prologue" base.prologue }

def ofText (text : String) : Except OptionsFault Options :=
  match (Toml.read? text.toList).bind ofEntries? with
  | some options => .ok options
  | none => .error .malformed

def ofBytes (bytes : List UInt8) : Except OptionsFault Options :=
  match decodeText bytes with
  | .ok text => ofText text
  | .error _ => .error .notText

end Options

end DeferredDefaults
