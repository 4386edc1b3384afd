/-!
Character classes of the Unicode standard are kept as tables of closed code point ranges.
-/

set_option autoImplicit false
set_option relaxedAutoImplicit false

namespace DeferredDefaults.Text

abbrev Ranges := List (Nat × Nat)

namespace Ranges

/-- Some range of the table holds the code point of `c`. -/
def holds (ranges : Ranges) (c : Char) : Bool :=
  ranges.any fun range => range.1 ≤ c.toNat && c.toNat ≤ range.2

end Ranges

end DeferredDefaults.Text
