import DeferredDefaults.LateBinding
import DeferredDefaults.Page
import DeferredDefaults.Sigil
import DeferredDefaults.Token.Layout
import DeferredDefaults.Token.SourceText
import DeferredDefaults.Tree.Reader

/-!
Expansion of late defaults, from source text to source text. Sigils are marked on the tokens; the
tree is then read either from the marked tokens or from the tokens of the marked text.
-/

set_option autoImplicit false
set_option relaxedAutoImplicit false

namespace DeferredDefaults.Expansion

/-- A tree with its defaults deferred, and its text. -/
structure Expanded where
  program : Program
  code : String
deriving Repr

/-- The tokens of a text with its sigils marked. -/
def markedTokens (options : Options) (source : String) : Except Fault (List Token) :=
  (tokenize source).map (Sigil.mark options.markerName)

def markedText (options : Options) (source : String) : Except Fault String := do
  sourceText (← markedTokens options source)

/-- Reads tokens that have been marked, defers the marked defaults and prints the tree. -/
def ofMarked (options : Options) (tokens : List Token) : Except Fault Expanded := do
  let program ← (← Program.ofTokens tokens).bindLate options.markerName
  return ⟨program, program.render options⟩

/-- Expands a text: the tree is read from the tokens of the marked text. -/
def throughText (options : Options) (source : String) : Except Fault String := do
  let tokens ← tokenize (← markedText options source)
  return (← ofMarked options tokens).code

/-- Expands a text: the tree is read from the marked tokens. -/
def throughTokens (options : Options) (source : String) : Except Fault Expanded := do
  ofMarked options (← markedTokens options source)

end DeferredDefaults.Expansion
