import StackScript.Bytecode.AssembleError
import StackScript.Bytecode.Bytes
import StackScript.Bytecode.Chunk
import StackScript.Text.Padding

/-!
# The binary form

What the stack machine loads: the chunks of a program one behind the other.  A
chunk is the number of its constants, the constants, the length of its code and
the code.  Names are not part of it.
-/

namespace StackScript

def intTag : UInt8 := 0x00

def stringTag : UInt8 := 0x01

def functionTag : UInt8 := 0x02

/-!
## Writing
-/

def Constant.encode : Constant -> Except AssembleError (List UInt8)
  | int n => .ok (intTag :: littleEndian 4 n.toUInt32.toNat)
  | string s =>
      let bytes := utf8 s
      if bytes.length ≤ maxStringLength then
        .ok (stringTag :: (littleEndian 2 bytes.length ++ bytes))
      else
        .error (.stringTooLong bytes.length)
  | function id => .ok [functionTag, id]

/-- A chunk.  Its numbers are checked before its strings. -/
def Chunk.encode (chunk : Chunk) : Except AssembleError (List UInt8) :=
  if 255 < chunk.constants.length then
    .error (.constantPoolFull chunk.displayName 255)
  else if maxCodeLength < chunk.code.length then
    .error (.codeTooLong chunk.displayName chunk.code.length)
  else do
    let constants ← chunk.constants.mapM Constant.encode
    return UInt8.ofNat chunk.constants.length ::
      (constants.flatten ++ littleEndian 2 chunk.code.length ++ chunk.code)

def Bytecode.encode (program : Bytecode) : Except AssembleError (List UInt8) := do
  let chunks ← program.chunks.mapM Chunk.encode
  return chunks.flatten

/-!
## Reading
-/

/-- Why bytes are no program, and at which of them it shows. -/
inductive DecodeError where
  | unexpectedEnd (position : Nat)
  | unknownTag (tag : UInt8) (position : Nat)
  | invalidUtf8 (position : Nat)
  deriving DecidableEq, Repr

def DecodeError.message : DecodeError -> String
  | unexpectedEnd position => "unexpected end of input at byte " ++ toString position
  | unknownTag tag position =>
      "unknown constant tag 0x" ++ Text.hexByte tag ++ " at byte " ++ toString position
  | invalidUtf8 position =>
      "string constant at byte " ++ toString position ++ " is not valid UTF-8"

namespace Binary

abbrev Reader (α : Type) := ByteReader DecodeError α

def take (count : Nat) : Reader (List UInt8) :=
  ByteReader.take .unexpectedEnd count

def byte : Reader UInt8 :=
  ByteReader.byte .unexpectedEnd

def word : Reader Nat := do
  return ofLittleEndian (← take 2)

def constant : Reader Constant := do
  let start := (← get).position
  let tag ← byte
  if tag = intTag then
    return .int (UInt32.ofNat (ofLittleEndian (← take 4))).toInt32
  else if tag = stringTag then
    let length ← word
    let start := (← get).position
    let bytes ← take length
    match ofUtf8? bytes with
    | some text => return .string text
    | none => throw (.invalidUtf8 start)
  else if tag = functionTag then
    return .function (← byte)
  else
    throw (.unknownTag tag start)

def chunk : Reader Chunk := do
  let count ← byte
  let constants ← ByteReader.times constant count.toNat
  let length ← word
  let code ← take length
  return { name := none, constants := constants, code := code }

/-- Chunks up to the end of the bytes, behind those read before, which are held
in reverse.  Each one uses up a byte, so a bound of the number of bytes left
never cuts the list short. -/
def chunksUpTo : Nat -> List Chunk -> Reader (List Chunk)
  | 0, read => return read.reverse
  | bound + 1, read => do
      if (← get).rest.isEmpty then
        return read.reverse
      else
        let next ← chunk
        chunksUpTo bound (next :: read)

end Binary

def Bytecode.decode (bytes : List UInt8) : Except DecodeError Bytecode := do
  let (chunks, _) ← Binary.chunksUpTo bytes.length [] { rest := bytes }
  return { chunks := chunks }

end StackScript
