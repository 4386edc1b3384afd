/-!
The names and the style that generated code uses.
-/

set_option autoImplicit false
set_option relaxedAutoImplicit false

namespace DeferredDefaults

/-- How late defaults are resolved when a function is entered. -/
inductive PrologueStyle where
  /-- One conditional assignment for each late default. -/
  | assignments
  /-- One call that hands all local names to the evaluator. -/
  | evaluator
deriving DecidableEq, Repr, Inhabited

/-- The names and the style that generated code uses. -/
structure Options where
  /-- The name that stands for the sigil. -/
  markerName : String := "_PEP671_MARKER"
  /-- The module from which generated code imports. -/
  runtimeModule : String := "experimental_late_bound_defaults"
  /-- The name that wraps a late default. -/
  wrapperName : String := "_defer"
  /-- The name that resolves all late defaults of a call. -/
  evaluatorName : String := "_evaluate_late_binding"
  prologue : PrologueStyle := .assignments
deriving DecidableEq, Repr, Inhabited

namespace Options

/-- The line that imports the names generated code uses. -/
def importLine (options : Options) : String :=
  "from " ++ options.runtimeModule ++ " import " ++ options.wrapperName ++ ", " ++
    options.evaluatorName

end Options

end DeferredDefaults
