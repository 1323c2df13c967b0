import StackScript.Bytecode.Chunk
import StackScript.Bytecode.Instruction
import StackScript.Bytecode.Pool

/-!
# Chunks under construction

A draft is a constant pool, a list of directives and the labels that jumps go
to.  The length of each directive is known when it is added, so positions are
known at once; the distance of a jump is worked out when its labels have their
places.
-/

namespace StackScript

/-- A label of a chunk, by the number of labels made before it. -/
abbrev Label := Nat

/-- A label may have a name, and has a position once it is placed. -/
structure LabelEntry where
  name : Option String
  position : Option Nat := none
  deriving DecidableEq, Repr

/-- An entry of a chunk's code.  A jump knows the label that it goes to and the
label behind itself, from which its distance counts. -/
inductive Directive where
  | instr (instruction : Instruction)
  | jump (target here : Label)
  | jumpIfFalse (target here : Label)
  deriving DecidableEq, Repr

def Directive.byteLength : Directive -> Nat
  | instr i => i.byteLength
  | jump _ _ => 2
  | jumpIfFalse _ _ => 2

def maxJump : Nat := 127

structure Draft where
  /-- The main chunk has no name. -/
  name : Option String
  /-- The handle on this chunk. -/
  self : ChunkRef
  pool : Pool := {}
  directives : Array Directive := #[]
  /-- Where the next directive will start. -/
  position : Nat := 0
  labels : Array LabelEntry := #[]
  deriving DecidableEq, Repr

namespace Draft

def displayName (d : Draft) : String :=
  d.name.getD mainName

def store (d : Draft) (c : PoolConstant) : Except AssembleError (UInt8 × Draft) :=
  match d.pool.store c d.displayName with
  | .ok index pool => .ok (index, { d with pool := pool })
  | .error e _ => .error e

def push (d : Draft) (directive : Directive) : Draft :=
  { d with
    directives := d.directives.push directive
    position := d.position + directive.byteLength }

/-!
## Labels
-/

def newLabel (d : Draft) (name : Option String) : Label × Draft :=
  (d.labels.size, { d with labels := d.labels.push { name := name } })

/-- The name of a label and its number, or its number alone. -/
def labelName (d : Draft) (label : Label) : String :=
  match d.labels[label]?.bind (·.name) with
  | some name => name ++ " " ++ toString label
  | none => "L" ++ toString label

def place (d : Draft) (label : Label) : Except AssembleError Draft :=
  match d.labels[label]? with
  | none => .error (.labelNotPlaced (d.labelName label))
  | some entry =>
      match entry.position with
      | some first => .error (.labelPlacedTwice (d.labelName label) first d.position)
      | none =>
          .ok { d with
            labels := d.labels.setIfInBounds label { entry with position := some d.position } }

def labelPosition (d : Draft) (label : Label) : Except AssembleError Nat :=
  match d.labels[label]?.bind (·.position) with
  | some position => .ok position
  | none => .error (.labelNotPlaced (d.labelName label))

def jumpInstruction (d : Draft) (opcode : Opcode) (target : Label) (distance : Nat) :
    Except AssembleError Instruction :=
  if distance ≤ maxJump then
    .ok { opcode := opcode, argument := some (UInt8.ofNat distance) }
  else
    .error (.jumpOutOfRange (d.labelName target) distance)

def resolve (d : Draft) : Directive -> Except AssembleError Instruction
  | .instr i => .ok i
  | .jump target here => do
      let there ← d.labelPosition target
      let behind ← d.labelPosition here
      if behind < there then
        d.jumpInstruction .jumpForward target (there - behind)
      else
        d.jumpInstruction .jumpBackward target (behind - there)
  | .jumpIfFalse target here => do
      let there ← d.labelPosition target
      let behind ← d.labelPosition here
      if there < behind then
        .error (.jumpNotForward (d.labelName target))
      else
        d.jumpInstruction .jumpForwardIfFalse target (there - behind)

def code (d : Draft) : Except AssembleError (List UInt8) :=
  if d.position ≤ maxCodeLength then do
    let instructions ← d.directives.toList.mapM d.resolve
    return instructions.flatMap Instruction.encode
  else
    .error (.codeTooLong d.displayName d.position)

def finishConstant (chunkId : ChunkRef -> Except AssembleError UInt8) :
    PoolConstant -> Except AssembleError Constant
  | .int n => .ok (.int n)
  | .string s => .ok (.string s)
  | .function chunk => (chunkId chunk).map .function

def finish (d : Draft) (chunkId : ChunkRef -> Except AssembleError UInt8) :
    Except AssembleError Chunk := do
  let constants ← d.pool.constants.mapM (finishConstant chunkId)
  let code ← d.code
  return { name := d.name, constants := constants, code := code }

end Draft
end StackScript
