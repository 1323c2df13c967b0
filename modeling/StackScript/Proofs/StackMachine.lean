import StackScript.Proofs.Evaluation
import StackScript.Proofs.FinishedCode

/-!
# The stack machine

The machine that the bytes of a chunk are made for.  It has a stack, whose
lowest cell is taken, and the globals; it reads one instruction after the other
from the code.  Calls, fields and output are left out: the code of a program
without them does without these instructions.
-/

namespace StackScript

/-!
## Memory
-/

/-- What the machine works on.  The top of the stack comes first. -/
structure Memory (V : Type) where
  stack : List V
  globals : Globals V

structure Machine (V : Type) where
  /-- The offset of the next instruction. -/
  offset : Nat
  memory : Memory V

def Machine.start {V : Type} (callee : V) : Machine V where
  offset := 0
  memory := { stack := [callee], globals := fun _ => none }

namespace Memory

variable {V : Type}

def push (m : Memory V) (v : V) : Memory V :=
  { m with stack := v :: m.stack }

def pop? (m : Memory V) : Option (Memory V) :=
  match m.stack with
  | [] => none
  | _ :: rest => some { m with stack := rest }

def slot? (m : Memory V) (slot : Nat) : Option V :=
  m.stack.reverse[slot]?

def setSlot? (m : Memory V) (slot : Nat) : Option (Memory V) :=
  match m.stack with
  | [] => none
  | v :: rest =>
      if slot < rest.length then
        some { m with stack := (rest.reverse.set slot v).reverse }
      else
        none

def setGlobal? (m : Memory V) (name : String) : Option (Memory V) :=
  match m.stack with
  | [] => none
  | v :: rest => some { stack := rest, globals := m.globals.set name v }

def unary? (m : Memory V) (f : V -> Option V) : Option (Memory V) :=
  match m.stack with
  | v :: rest => (f v).map fun result => { m with stack := result :: rest }
  | _ => none

def binary? (m : Memory V) (f : V -> V -> Option V) : Option (Memory V) :=
  match m.stack with
  | right :: left :: rest => (f left right).map fun result => { m with stack := result :: rest }
  | _ => none

end Memory

/-!
## Steps
-/

namespace Interpretation

variable {V : Type}

def constant? (I : Interpretation V) : Constant -> Option V
  | .int n => some (I.int n)
  | .string text => some (I.string text)
  | .function _ => none

def effect? (I : Interpretation V) (constants : List Constant) (i : Instruction) (m : Memory V) :
    Option (Memory V) :=
  match i.opcode with
  | .constant => (constants[i.operand]?.bind I.constant?).map m.push
  | .null => some (m.push I.null)
  | .pushTrue => some (m.push (I.bool true))
  | .pushFalse => some (m.push (I.bool false))
  | .pop => m.pop?
  | .getLocal => (m.slot? i.operand).map m.push
  | .setLocal => m.setSlot? i.operand
  | .getGlobal =>
      match constants[i.operand]? with
      | some (.string name) => (m.globals name).map m.push
      | _ => none
  | .setGlobal =>
      match constants[i.operand]? with
      | some (.string name) => m.setGlobal? name
      | _ => none
  | .equal => m.binary? I.equal
  | .greater => m.binary? I.greater
  | .less => m.binary? I.less
  | .add => m.binary? I.add
  | .subtract => m.binary? I.subtract
  | .multiply => m.binary? I.multiply
  | .divide => m.binary? I.divide
  | .not => m.unary? I.not
  | .negate => m.unary? I.negate
  | _ => none

theorem effect?_getGlobal (I : Interpretation V) {constants : List Constant} {index : UInt8}
    {name : String} (h : constants[index.toNat]? = some (.string name)) (m : Memory V) :
    I.effect? constants { opcode := .getGlobal, argument := some index } m =
      (m.globals name).map m.push := by
  change (match constants[index.toNat]? with
    | some (.string name) => (m.globals name).map m.push
    | _ => none) = _
  rw [h]

theorem effect?_setGlobal (I : Interpretation V) {constants : List Constant} {index : UInt8}
    {name : String} (h : constants[index.toNat]? = some (.string name)) (m : Memory V) :
    I.effect? constants { opcode := .setGlobal, argument := some index } m =
      m.setGlobal? name := by
  change (match constants[index.toNat]? with
    | some (.string name) => m.setGlobal? name
    | _ => none) = _
  rw [h]

def execute (I : Interpretation V) (constants : List Constant) (i : Instruction) (m : Machine V) :
    Option (Machine V) :=
  let next := m.offset + i.byteLength
  match i.opcode with
  | .jumpForward => some { m with offset := next + i.operand }
  | .jumpForwardIfFalse =>
      -- the condition stays on the stack
      m.memory.stack.head?.map fun v =>
        { m with offset := if I.isFalse v then next + i.operand else next }
  | .jumpBackward => some { m with offset := next - i.operand }
  | _ => (I.effect? constants i m.memory).map fun memory => { offset := next, memory }

def step (I : Interpretation V) (chunk : Chunk) (m : Machine V) : Option (Machine V) :=
  (fetch chunk.code m.offset).bind fun i => I.execute chunk.constants i m

def steps (I : Interpretation V) (chunk : Chunk) : Nat -> Machine V -> Option (Machine V)
  | 0, m => some m
  | count + 1, m => (I.step chunk m).bind (I.steps chunk count)

def HaltsWith (I : Interpretation V) (chunk : Chunk) (m : Machine V) (memory : Memory V) : Prop :=
  ∃ count, I.steps chunk count m = some { offset := chunk.code.length, memory }

def GetsStuck (I : Interpretation V) (chunk : Chunk) (m : Machine V) : Prop :=
  ∃ count m', I.steps chunk count m = some m' ∧ m'.offset ≠ chunk.code.length ∧
    I.step chunk m' = none

def RunsForever (I : Interpretation V) (chunk : Chunk) (m : Machine V) : Prop :=
  ∀ count, ∃ m', I.steps chunk count m = some m'

/-!
## Runs
-/

variable {I : Interpretation V} {chunk : Chunk} {m m' m'' : Machine V}

theorem steps_add (count count' : Nat) (m : Machine V) :
    I.steps chunk (count + count') m = (I.steps chunk count m).bind (I.steps chunk count') := by
  induction count generalizing m with
  | zero =>
      rw [Nat.zero_add]
      rfl
  | succ count ih =>
      rw [Nat.add_right_comm, steps, steps, Option.bind_assoc]
      congr 1
      funext next
      exact ih next

/-- Steps lead to the end of the code once only. -/
theorem eq_of_steps {count count' : Nat} (h : I.steps chunk count m = some m')
    (h' : I.steps chunk count' m = some m'') (hend : I.step chunk m' = none)
    (hend' : I.step chunk m'' = none) : m' = m'' := by
  have hlast : ∀ {count count' : Nat} {m' m'' : Machine V}, count ≤ count' ->
      I.steps chunk count m = some m' -> I.steps chunk count' m = some m'' ->
      I.step chunk m' = none -> m' = m'' := by
    intro count count' m' m'' hle h h' hend
    rcases Nat.exists_eq_add_of_le hle with ⟨more, rfl⟩
    rw [steps_add, h, Option.bind_some] at h'
    cases more with
    | zero => exact Option.some.inj h'
    | succ more =>
        rw [steps, hend] at h'
        cases h'
  rcases Nat.le_total count count' with hle | hle
  · exact hlast hle h h' hend
  · exact (hlast hle h' h hend').symm

theorem step_end (memory : Memory V) :
    I.step chunk { offset := chunk.code.length, memory } = none := by
  rw [step, fetch_length]
  rfl

theorem HaltsWith.unique {memory memory' : Memory V} (h : I.HaltsWith chunk m memory)
    (h' : I.HaltsWith chunk m memory') : memory = memory' := by
  rcases h with ⟨count, h⟩
  rcases h' with ⟨count', h'⟩
  cases eq_of_steps h h' (step_end memory) (step_end memory')
  rfl

theorem HaltsWith.not_getsStuck {memory : Memory V} (h : I.HaltsWith chunk m memory) :
    ¬ I.GetsStuck chunk m := by
  rintro ⟨count', stuck, h', hinside, hstuck⟩
  rcases h with ⟨count, h⟩
  cases eq_of_steps h h' (step_end memory) hstuck
  exact hinside rfl

theorem not_runsForever_of_steps {count : Nat} (h : I.steps chunk count m = some m')
    (hend : I.step chunk m' = none) : ¬ I.RunsForever chunk m := by
  intro hforever
  rcases hforever (count + 1) with ⟨next, hnext⟩
  rw [steps_add, h, Option.bind_some, steps, hend] at hnext
  cases hnext

theorem HaltsWith.not_runsForever {memory : Memory V} (h : I.HaltsWith chunk m memory) :
    ¬ I.RunsForever chunk m := by
  rcases h with ⟨count, h⟩
  exact not_runsForever_of_steps h (step_end memory)

theorem GetsStuck.not_runsForever (h : I.GetsStuck chunk m) : ¬ I.RunsForever chunk m := by
  rcases h with ⟨count, stuck, h, _, hend⟩
  exact not_runsForever_of_steps h hend

end Interpretation

end StackScript
