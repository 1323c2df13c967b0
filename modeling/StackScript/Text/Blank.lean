import StackScript.Text.RangeTable

/-!
# Blank characters

The Unicode property White_Space, and text without blanks at its ends.
-/

namespace StackScript
namespace Text

/-- The ranges of the property White_Space. -/
def blanks : RangeTable :=
  [(0x9, 0xD), (0x20, 0x20), (0x85, 0x85), (0xA0, 0xA0), (0x1680, 0x1680), (0x2000, 0x200A),
    (0x2028, 0x2029), (0x202F, 0x202F), (0x205F, 0x205F), (0x3000, 0x3000)]

def isBlank (c : Char) : Bool :=
  blanks.holds c

def trim (text : List Char) : List Char :=
  ((text.dropWhile isBlank).reverse.dropWhile isBlank).reverse

end Text
end StackScript
