import StackScript.Bytecode.Assembler

/-!
# Code fragments

A fragment is a piece of code that has not been put anywhere yet.  Emitting it
adds its instructions to a chunk under construction, and may add whole chunks
to the program around it.  Compound forms decide where the code of their parts
lands, and make the labels for it.
-/

namespace StackScript

mutual

inductive Fragment where
  /-- One instruction. -/
  | instr (instruction : Instruction)
  /-- A constant, and an instruction with its index. -/
  | pooled (opcode : Opcode) (c : PoolConstant)
  /-- A constant without any code. -/
  | store (c : PoolConstant)
  /-- The function whose code this is. -/
  | self
  /-- The position in the chunk, as a number. -/
  | position
  /-- A function by its name, or null if there is none. -/
  | functionOrNull (name : String)
  /-- A function by its name, which has to be there. -/
  | builtin (name : String)
  /-- A new function, whose chunk is built on the spot. -/
  | define (name : String) (arity : UInt8) (body : Fragment)
  /-- A label without a position. -/
  | label (name : Option String)
  /-- The position of a label. -/
  | place (label : Label)
  | jump (target : Label)
  /-- A jump that is taken when the value on top is false. -/
  | jumpIfFalse (target : Label)
  | sequence (parts : List Fragment)
  | call (callee : Fragment) (arguments : List Fragment)
  /-- The left operand if it is false, and the right one otherwise. -/
  | both (left right : Fragment)
  /-- The left operand if it is not false, and the right one otherwise. -/
  | either (left right : Fragment)
  /-- The body of the first branch whose condition holds, or the last part. -/
  | choose (branches : List FragmentBranch) (otherwise : Fragment)
  | loop (condition body : Fragment)

structure FragmentBranch where
  condition : Fragment
  body : Fragment

end

namespace Fragment

/-!
## Simple forms
-/

def empty : Fragment := sequence []

def op (opcode : Opcode) : Fragment :=
  instr { opcode := opcode }

def opWith (opcode : Opcode) (arg : UInt8) : Fragment :=
  instr { opcode := opcode, argument := some arg }

def unary (operand : Fragment) (opcode : Opcode) : Fragment :=
  sequence [operand, op opcode]

def binary (left right : Fragment) (opcode : Opcode) : Fragment :=
  sequence [left, right, op opcode]

def int (n : Int32) : Fragment := pooled .constant (.int n)

def string (text : String) : Fragment := pooled .constant (.string text)

def null : Fragment := op .null

def bool (b : Bool) : Fragment := op (if b then .pushTrue else .pushFalse)

def function (chunk : ChunkRef) : Fragment := pooled .constant (.function chunk)

def pop : Fragment := op .pop

def pops (count : Nat) : Fragment := sequence (List.replicate count pop)

def getLocal (slot : UInt8) : Fragment := opWith .getLocal slot

def setLocal (slot : UInt8) (value : Fragment) : Fragment :=
  sequence [value, opWith .setLocal slot]

def getGlobal (name : String) : Fragment := pooled .getGlobal (.string name)

def setGlobal (name : String) (value : Fragment) : Fragment :=
  sequence [value, pooled .setGlobal (.string name)]

def newInstance : Fragment := op .newInstance

def getField (receiver : Fragment) (field : String) : Fragment :=
  sequence [receiver, pooled .getField (.string field)]

def setField (receiver : Fragment) (field : String) (value : Fragment) : Fragment :=
  sequence [receiver, value, pooled .setField (.string field)]

def not (operand : Fragment) : Fragment := unary operand .not

def negate (operand : Fragment) : Fragment := unary operand .negate

def print (value : Fragment) : Fragment := unary value .print

def giveBack (value : Fragment) : Fragment := unary value .giveBack

def ifThen (condition body : Fragment) : Fragment :=
  choose [{ condition := condition, body := body }] empty

end Fragment

/-!
## Emission
-/

/-- A step of emission: it works on the draft of one chunk, which is lost when
the step fails, and on the program around it, which is not. -/
abbrev Emit := StateT Draft (EStateM AssembleError Assembler)

abbrev Assembly := EStateM AssembleError Assembler

namespace Assembly

/-- Builds a chunk: starts it, lets the body fill its draft, and puts the draft
in its place. -/
def addChunk (name : Option String) (body : Emit Unit) : Assembly ChunkRef := fun a =>
  match a.reserve name with
  | .error e => .error e a
  | .ok (chunk, a) =>
      match body { name := name, self := chunk } a with
      | .error e a => .error e a
      | .ok ((), d) a => .ok chunk (a.complete d)

end Assembly

namespace Emit

def push (directive : Directive) : Emit Unit := fun d =>
  pure ((), d.push directive)

def store (c : PoolConstant) : Emit UInt8 := fun d =>
  match d.store c with
  | .ok (index, d) => pure (index, d)
  | .error e => throw e

def op (opcode : Opcode) : Emit Unit :=
  push (.instr { opcode := opcode })

def pooled (opcode : Opcode) (c : PoolConstant) : Emit Unit := do
  let index ← store c
  push (.instr { opcode := opcode, argument := some index })

def newLabel (name : Option String) : Emit Label := fun d =>
  pure (d.newLabel name)

def place (label : Label) : Emit Unit := fun d =>
  match d.place label with
  | .ok d => pure ((), d)
  | .error e => throw e

def jump (target : Label) : Emit Unit := do
  let here ← newLabel none
  push (.jump target here)
  place here

def jumpIfFalse (target : Label) : Emit Unit := do
  let here ← newLabel none
  push (.jumpIfFalse target here)
  place here

def named? (name : String) : Emit (Option ChunkRef) := fun d => do
  let a ← get
  pure (a.named? name, d)

end Emit

namespace Assembly

/-- Builds a function: its name and the number of its parameters are its first
two constants. -/
def addFunctionChunk (name : String) (arity : UInt8) (body : Emit Unit) : Assembly ChunkRef :=
  addChunk (some name) do
    let _ ← Emit.store (.string name)
    let _ ← Emit.store (.int (Int32.ofNat arity.toNat))
    body

end Assembly

namespace Fragment

def maxCount : Nat := 255

mutual

def emit : Fragment -> Emit Unit
  | instr i => Emit.push (.instr i)
  | pooled opcode c => Emit.pooled opcode c
  | store c => do
      let _ ← Emit.store c
  | self => do
      let d ← get
      Emit.pooled .constant (.function d.self)
  | position => do
      let d ← get
      Emit.pooled .constant (.int (Int32.ofNat d.position))
  | functionOrNull name => do
      match ← Emit.named? name with
      | some chunk => Emit.pooled .constant (.function chunk)
      | none => Emit.op .null
  | builtin name => do
      match ← Emit.named? name with
      | some chunk => Emit.pooled .constant (.function chunk)
      | none => throw (.unknownChunk name)
  | define name arity body => do
      let chunk ← Assembly.addFunctionChunk name arity (emit body)
      Emit.pooled .constant (.function chunk)
  | label name => do
      let _ ← Emit.newLabel name
  | place mark => Emit.place mark
  | jump target => Emit.jump target
  | jumpIfFalse target => Emit.jumpIfFalse target
  | sequence parts => emitAll parts
  | call callee arguments => do
      if arguments.length ≤ maxCount then
        emit callee
        emitAll arguments
        Emit.push
          (.instr { opcode := .call, argument := some (UInt8.ofNat arguments.length) })
      else
        throw (.argumentOutOfRange "argument count" arguments.length)
  | both left right => do
      let after ← Emit.newLabel (some "after and")
      emit left
      Emit.jumpIfFalse after
      Emit.op .pop
      emit right
      Emit.place after
  | either left right => do
      let rightSide ← Emit.newLabel (some "or right")
      let after ← Emit.newLabel (some "after or")
      emit left
      Emit.jumpIfFalse rightSide
      Emit.jump after
      Emit.place rightSide
      Emit.op .pop
      emit right
      Emit.place after
  | choose branches otherwise => do
      let after ← Emit.newLabel (some "after if")
      emitBranches after branches
      emit otherwise
      Emit.place after
  | loop condition body => do
      let before ← Emit.newLabel (some "before loop")
      let after ← Emit.newLabel (some "after body")
      Emit.place before
      emit condition
      Emit.jumpIfFalse after
      Emit.op .pop
      emit body
      Emit.jump before
      Emit.place after
      Emit.op .pop

def emitAll : List Fragment -> Emit Unit
  | [] => pure ()
  | part :: rest => do
      emit part
      emitAll rest

/-- Emits the branches of a choice.  A condition is dropped on both ways out of
it, and each body ends with a jump behind the whole choice. -/
def emitBranches (after : Label) : List FragmentBranch -> Emit Unit
  | [] => pure ()
  | { condition, body } :: rest => do
      let next ← Emit.newLabel (some "next branch")
      emit condition
      Emit.jumpIfFalse next
      Emit.op .pop
      emit body
      Emit.jump after
      Emit.place next
      Emit.op .pop
      emitBranches after rest

end

end Fragment

namespace Assembly

def addMain (body : Fragment) : Assembly ChunkRef :=
  addChunk none body.emit

def addNamed (name : String) (body : Fragment) : Assembly ChunkRef :=
  addChunk (some name) body.emit

def addFunction (name : String) (arity : UInt8) (body : Fragment) : Assembly ChunkRef :=
  addFunctionChunk name arity body.emit

end Assembly
end StackScript
