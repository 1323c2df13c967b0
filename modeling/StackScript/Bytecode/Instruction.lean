/-!
# Opcodes

The operations of the stack machine, each with the byte that stands for it.
An operation takes one byte of argument or none: the index of a constant, a
stack slot, a distance in bytes or a number of arguments.
-/

namespace StackScript

inductive Opcode where
  /-- Pushes a constant of the chunk. -/
  | constant
  | null
  | pushTrue
  | pushFalse
  /-- Drops the value on top. -/
  | pop
  /-- Pushes the value of a stack slot. -/
  | getLocal
  /-- Moves the value on top into a stack slot. -/
  | setLocal
  /-- Pushes the global variable with the constant as its name. -/
  | getGlobal
  /-- Moves the value on top into a global variable. -/
  | setGlobal
  /-- Replaces an object by one of its fields. -/
  | getField
  /-- Moves the value on top into a field of the object under it, and drops both. -/
  | setField
  /-- Pushes a new object. -/
  | newInstance
  | equal
  | greater
  | less
  | add
  | subtract
  | multiply
  | divide
  | not
  | negate
  | print
  /-- Goes on so many bytes further. -/
  | jumpForward
  /-- Goes on so many bytes further if the value on top is false; the value stays. -/
  | jumpForwardIfFalse
  /-- Goes on so many bytes back. -/
  | jumpBackward
  /-- Calls a function with so many arguments. -/
  | call
  /-- Leaves the function with the value on top. -/
  | giveBack
  deriving DecidableEq, Repr

namespace Opcode

/-- Every opcode, in the order of their bytes. -/
def all : List Opcode :=
  [constant, null, pushTrue, pushFalse, pop, getLocal, setLocal, getGlobal, setGlobal, getField,
    setField, newInstance, equal, greater, less, add, subtract, multiply, divide, not, negate,
    print, jumpForward, jumpForwardIfFalse, jumpBackward, call, giveBack]

def byte : Opcode -> UInt8
  | constant => 0x00
  | null => 0x01
  | pushTrue => 0x02
  | pushFalse => 0x03
  | pop => 0x04
  | getLocal => 0x05
  | setLocal => 0x06
  | getGlobal => 0x07
  | setGlobal => 0x08
  | getField => 0x09
  | setField => 0x0A
  | newInstance => 0x0B
  | equal => 0x0C
  | greater => 0x0D
  | less => 0x0E
  | add => 0x0F
  | subtract => 0x10
  | multiply => 0x11
  | divide => 0x12
  | not => 0x13
  | negate => 0x14
  | print => 0x15
  | jumpForward => 0x16
  | jumpForwardIfFalse => 0x17
  | jumpBackward => 0x18
  | call => 0x19
  | giveBack => 0x1A

def ofByte? (b : UInt8) : Option Opcode :=
  all[b.toNat]?

def name : Opcode -> String
  | constant => "Constant"
  | null => "Null"
  | pushTrue => "True"
  | pushFalse => "False"
  | pop => "Pop"
  | getLocal => "GetLocal"
  | setLocal => "SetLocal"
  | getGlobal => "GetGlobal"
  | setGlobal => "SetGlobal"
  | getField => "GetField"
  | setField => "SetField"
  | newInstance => "NewInstance"
  | equal => "Equal"
  | greater => "Greater"
  | less => "Less"
  | add => "Add"
  | subtract => "Subtract"
  | multiply => "Multiply"
  | divide => "Divide"
  | not => "Not"
  | negate => "Negate"
  | print => "Print"
  | jumpForward => "JumpForward"
  | jumpForwardIfFalse => "JumpForwardIfFalse"
  | jumpBackward => "JumpBackward"
  | call => "Call"
  | giveBack => "Return"

def takesConstant : Opcode -> Bool
  | constant | getGlobal | setGlobal | getField | setField => true
  | _ => false

def argumentBytes : Opcode -> Nat
  | getLocal | setLocal | jumpForward | jumpForwardIfFalse | jumpBackward | call => 1
  | op => if op.takesConstant then 1 else 0

theorem ofByte?_byte (op : Opcode) : ofByte? op.byte = some op := by
  cases op <;> rfl

end Opcode

/-- An opcode and its argument.  Nothing here says that an argument is there
exactly when the opcode takes one. -/
structure Instruction where
  opcode : Opcode
  argument : Option UInt8 := none
  deriving DecidableEq, Repr

namespace Instruction

/-- The bytes that the opcode calls for. -/
def byteLength (i : Instruction) : Nat :=
  1 + i.opcode.argumentBytes

def encode (i : Instruction) : List UInt8 :=
  i.opcode.byte :: i.argument.toList

/-- Whether an argument is there exactly when the opcode takes one. -/
def WellFormed (i : Instruction) : Prop :=
  i.argument.isSome = (i.opcode.argumentBytes == 1)

instance (i : Instruction) : Decidable i.WellFormed :=
  inferInstanceAs (Decidable (_ = _))

def text (i : Instruction) : String :=
  match i.argument with
  | none => i.opcode.name
  | some arg =>
      if i.opcode.takesConstant then
        i.opcode.name ++ " @" ++ toString arg.toNat
      else
        i.opcode.name ++ " " ++ toString arg.toNat

end Instruction
end StackScript
