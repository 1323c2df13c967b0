/-!
# Bytes

Numbers and text as bytes, and reading from the front of a list of bytes.  A
reader gives a value and what is left, or says why there is no value.
-/

namespace StackScript

/-!
## Numbers and text
-/

def littleEndian : Nat -> Nat -> List UInt8
  | 0, _ => []
  | width + 1, n => UInt8.ofNat n :: littleEndian width (n / 256)

def ofLittleEndian : List UInt8 -> Nat
  | [] => 0
  | b :: rest => b.toNat + 256 * ofLittleEndian rest

def utf8 (text : String) : List UInt8 :=
  text.toUTF8.data.toList

def ofUtf8? (bytes : List UInt8) : Option String :=
  String.fromUTF8? { data := bytes.toArray }

/-!
## Reading
-/

/-- The bytes still to be read, and how many were read before them. -/
structure ByteCursor where
  rest : List UInt8
  position : Nat := 0
  deriving DecidableEq, Repr

abbrev ByteReader (ε α : Type) := StateT ByteCursor (Except ε) α

namespace ByteReader

variable {ε α : Type}

/-- Reads so many bytes.  When there are not so many, the error is made from the
position of the first of them. -/
def take (short : Nat -> ε) (count : Nat) : ByteReader ε (List UInt8) := fun c =>
  let bytes := c.rest.take count
  if bytes.length = count then
    .ok (bytes, { rest := c.rest.drop count, position := c.position + count })
  else
    .error (short c.position)

def byte (short : Nat -> ε) : ByteReader ε UInt8 := fun c =>
  match c.rest with
  | b :: rest => .ok (b, { rest := rest, position := c.position + 1 })
  | [] => .error (short c.position)

/-- Reads so many values, behind those read before, which are held in
reverse. -/
def timesFrom (item : ByteReader ε α) : Nat -> List α -> ByteReader ε (List α)
  | 0, read => return read.reverse
  | count + 1, read => do
      let x ← item
      timesFrom item count (x :: read)

def times (item : ByteReader ε α) (count : Nat) : ByteReader ε (List α) :=
  timesFrom item count []

end ByteReader
end StackScript
