import DeferredDefaults.Text.Ranges

/-!
White space of the Unicode standard, and texts without white space at their ends.
-/

set_option autoImplicit false
set_option relaxedAutoImplicit false

namespace DeferredDefaults.Text.Blank

/-- Code points with the `White_Space` property. -/
def blankRanges : Ranges :=
  [ (0x9, 0xD), (0x20, 0x20), (0x85, 0x85), (0xA0, 0xA0), (0x1680, 0x1680), (0x2000, 0x200A), (0x2028, 0x2029),
    (0x202F, 0x202F), (0x205F, 0x205F), (0x3000, 0x3000) ]

def isBlank (c : Char) : Bool := blankRanges.holds c

def trim (text : List Char) : List Char :=
  ((text.dropWhile isBlank).reverse.dropWhile isBlank).reverse

end DeferredDefaults.Text.Blank
