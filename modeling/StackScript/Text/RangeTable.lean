/-!
# Range tables

A class of characters given by the ranges of its code points.  The tables of
this folder are sorted and their ranges do not touch, so each is the shortest
one for its class.
-/

namespace StackScript
namespace Text

/-- Ranges of code points, both ends included. -/
abbrev RangeTable := List (Nat × Nat)

def RangeTable.holds (table : RangeTable) (c : Char) : Bool :=
  table.any fun range => range.1 ≤ c.toNat && c.toNat ≤ range.2

end Text
end StackScript
