/-!
# Numbers in columns

Numbers and words filled up to a least width.  A longer text is kept whole.
-/

namespace StackScript
namespace Text

def zeroPadded (width n : Nat) : String :=
  let digits := toString n
  "".pushn '0' (width - digits.length) ++ digits

def spacePadded (width : Nat) (word : String) : String :=
  word.pushn ' ' (width - word.length)

def hexadecimal (n : Nat) : String :=
  String.ofList (Nat.toDigits 16 n)

def hexByte (b : UInt8) : String :=
  let digits := hexadecimal b.toNat
  "".pushn '0' (2 - digits.length) ++ digits

end Text
end StackScript
