import StackScript.Bytecode.Bytes
import StackScript.Bytecode.Chunk

/-!
# The structured form

What tools read: a program with the names of its chunks, and without the limits
of the binary form.  Lengths and kinds are numbers in groups of seven bits, the
lowest first, with the high bit of a byte set when more follow.  A signed number
goes by its distance from zero, doubled, with the sign in the lowest bit.
-/

namespace StackScript
namespace Structured

/-!
## Writing
-/

/-- A number in groups of seven bits. -/
def varint (n : Nat) : List UInt8 :=
  if n < 128 then
    [UInt8.ofNat n]
  else
    UInt8.ofNat (n % 128 + 128) :: varint (n / 128)

def zigzag (n : Int32) : Nat :=
  if n.toInt < 0 then
    (-2 * n.toInt - 1).toNat
  else
    (2 * n.toInt).toNat

def text (s : String) : List UInt8 :=
  let bytes := utf8 s
  varint bytes.length ++ bytes

def constant : Constant -> List UInt8
  | .int n => varint 0 ++ varint (zigzag n)
  | .string s => varint 1 ++ text s
  | .function id => varint 2 ++ [id]

def name : Option String -> List UInt8
  | none => [0]
  | some s => 1 :: text s

def chunk (c : Chunk) : List UInt8 :=
  name c.name ++ varint c.constants.length ++ c.constants.flatMap constant
    ++ varint c.code.length ++ c.code

def encode (program : Bytecode) : List UInt8 :=
  varint program.chunks.length ++ program.chunks.flatMap chunk

/-!
## Reading
-/

inductive ReadError where
  | unexpectedEnd
  | badVarint
  | badOption
  | badUtf8
  | badKind
  deriving DecidableEq, Repr

def ReadError.message : ReadError -> String
  | unexpectedEnd => "Hit the end of buffer, expected more data"
  | badVarint =>
      "Found a varint that didn't terminate. Is the usize too big for this platform?"
  | badOption => "Found an Option discriminant that wasn't 0 or 1"
  | badUtf8 => "Tried to parse invalid utf-8"
  | badKind => "Serde Deserialization Error"

abbrev Reader (α : Type) := ByteReader ReadError α

def take (count : Nat) : Reader (List UInt8) :=
  ByteReader.take (fun _ => .unexpectedEnd) count

def byte : Reader UInt8 :=
  ByteReader.byte fun _ => .unexpectedEnd

/-- A number of at most `more + 1` groups, of which the last possible one is at
most `last`. -/
def readVarint (last : Nat) : Nat -> Reader Nat
  | 0 => do
      let b ← byte
      if b.toNat ≤ last then
        return b.toNat
      else
        throw .badVarint
  | more + 1 => do
      let b ← byte
      if b.toNat < 128 then
        return b.toNat
      else
        let high ← readVarint last more
        return b.toNat - 128 + 128 * high

def readWord : Reader Nat := readVarint 15 4

def readLength : Reader Nat := readVarint 1 9

def ofZigzag (n : Nat) : Int32 :=
  if n % 2 = 0 then
    Int32.ofInt (n / 2 : Nat)
  else
    Int32.ofInt (-(n / 2 : Nat) - 1)

def readText : Reader String := do
  let length ← readLength
  let bytes ← take length
  match ofUtf8? bytes with
  | some s => return s
  | none => throw .badUtf8

def readConstant : Reader Constant := do
  match ← readWord with
  | 0 => return .int (ofZigzag (← readWord))
  | 1 => return .string (← readText)
  | 2 => return .function (← byte)
  | _ => throw .badKind

def readName : Reader (Option String) := do
  let b ← byte
  if b = 0 then
    return none
  else if b = 1 then
    return some (← readText)
  else
    throw .badOption

def readChunk : Reader Chunk := do
  let name ← readName
  let constants ← ByteReader.times readConstant (← readLength)
  let code ← take (← readLength)
  return { name := name, constants := constants, code := code }

/-- The program of a structured form.  Bytes behind it are left alone. -/
def decode (bytes : List UInt8) : Except ReadError Bytecode := do
  let reader : Reader (List Chunk) := do
    ByteReader.times readChunk (← readLength)
  let (chunks, _) ← reader { rest := bytes }
  return { chunks := chunks }

end Structured
end StackScript
