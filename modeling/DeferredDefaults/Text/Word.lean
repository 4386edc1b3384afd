import DeferredDefaults.Text.Identifier

/-!
Word characters: alphabetic characters, marks, decimal digits, connecting punctuation and the
two join controls. The class differs from the letters of an identifier in two short tables.
-/

set_option autoImplicit false
set_option relaxedAutoImplicit false

namespace DeferredDefaults.Text.Word

def addedRanges : Ranges :=
  [ (0x37A, 0x37A), (0x488, 0x489), (0x1ABE, 0x1ABE), (0x20DD, 0x20E0), (0x20E2, 0x20E4),
    (0x24B6, 0x24E9), (0x2E2F, 0x2E2F), (0xA670, 0xA672), (0xFC5E, 0xFC63), (0xFDFA, 0xFDFB),
    (0xFE70, 0xFE70), (0xFE72, 0xFE72), (0xFE74, 0xFE74), (0xFE76, 0xFE76), (0xFE78, 0xFE78),
    (0xFE7A, 0xFE7A), (0xFE7C, 0xFE7C), (0xFE7E, 0xFE7E), (0x1F130, 0x1F149), (0x1F150, 0x1F169),
    (0x1F170, 0x1F189) ]

def removedRanges : Ranges :=
  [ (0xB7, 0xB7), (0x387, 0x387), (0x1369, 0x1371), (0x19DA, 0x19DA), (0x2118, 0x2118),
    (0x212E, 0x212E), (0x30FB, 0x30FB), (0xFF65, 0xFF65) ]

def isWord (c : Char) : Bool :=
  (Identifier.isInner c && !removedRanges.holds c) || addedRanges.holds c

end DeferredDefaults.Text.Word
