import StackScript.Proofs.Emission

/-!
# Routines that fill chunks

The code of a chunk can come from more than a fragment: from anything that adds
to a draft step by step, builds functions on the way, and looks at what came out
of each step before it takes the next.  A step that failed need not be the last:
the error may be passed on, or dropped.  This module gives such routines as
trees, a fragment as one of them, and the calls that build chunks by routines.
-/

namespace StackScript

namespace Emit

variable {α β γ : Type}

/-- Goes on from what came out of a step, be it an error.  It is meant for steps
that leave the draft as it was when they fail. -/
def followed (step : Emit α) (next : Except AssembleError α -> Draft -> Assembler -> γ)
    (d : Draft) (a : Assembler) : γ :=
  match step d a with
  | .ok (x, d') a' => next (.ok x) d' a'
  | .error e a' => next (.error e) d a'

def observed (step : Emit α) (next : Except AssembleError α -> Emit β) : Emit β :=
  step.followed next

theorem followed_of_forall {P : γ -> Prop} {step : Emit α}
    {next : Except AssembleError α -> Draft -> Assembler -> γ}
    (h : ∀ outcome d a, P (next outcome d a)) (d : Draft) (a : Assembler) :
    P (step.followed next d a) := by
  unfold followed
  cases step d a with
  | ok p a' => exact h (.ok p.1) p.2 a'
  | error e a' => exact h (.error e) d a'

theorem bind_eq_observed (step : Emit α) (next : α -> Emit β) :
    step >>= next = step.observed fun
      | .ok x => next x
      | .error e => throw e := by
  funext d a
  show EStateM.bind (step d) (fun p => next p.1 p.2) a = _
  unfold observed followed EStateM.bind
  cases step d a with
  | ok p a' => rfl
  | error e a' => rfl

end Emit

/-!
## Routines
-/

/-- What fills a chunk, step by step.  What comes next depends on what the last
step gave. -/
inductive Routine where
  | done
  | fail (e : AssembleError)
  /-- Looks at the draft. -/
  | look (next : Draft -> Routine)
  /-- Looks for the chunk with a name. -/
  | find (name : String) (next : Option ChunkRef -> Routine)
  | instr (i : Instruction) (next : Routine)
  | store (c : PoolConstant) (next : Except AssembleError UInt8 -> Routine)
  | newLabel (name : Option String) (next : Label -> Routine)
  | place (label : Label) (next : Except AssembleError Unit -> Routine)
  | jump (target : Label) (next : Except AssembleError Unit -> Routine)
  | jumpIfFalse (target : Label) (next : Except AssembleError Unit -> Routine)
  /-- Builds a function by a routine of its own. -/
  | function (name : String) (arity : UInt8) (body : Routine)
      (next : Except AssembleError ChunkRef -> Routine)

namespace Routine

def run : Routine -> Emit Unit
  | done => pure ()
  | fail e => throw e
  | look next => do
      let d ← get
      (next d).run
  | find name next => do
      let chunk? ← Emit.named? name
      (next chunk?).run
  | instr i next => do
      Emit.push (.instr i)
      next.run
  | store c next => (Emit.store c).observed fun outcome => (next outcome).run
  | newLabel name next => do
      let label ← Emit.newLabel name
      (next label).run
  | place label next => (Emit.place label).observed fun outcome => (next outcome).run
  | jump target next => (Emit.jump target).observed fun outcome => (next outcome).run
  | jumpIfFalse target next =>
      (Emit.jumpIfFalse target).observed fun outcome => (next outcome).run
  | function name arity body next =>
      Emit.observed (liftM (Assembly.addFunctionChunk name arity body.run)) fun outcome =>
        (next outcome).run

def onSuccess {α : Type} (next : α -> Routine) : Except AssembleError α -> Routine
  | .ok x => next x
  | .error e => fail e

theorem observed_onSuccess {α : Type} (step : Emit α) (next : α -> Routine) :
    (step.observed fun outcome => (onSuccess next outcome).run) =
      step >>= fun x => (next x).run := by
  rw [Emit.bind_eq_observed]
  congr 1
  funext outcome
  cases outcome with
  | ok x => rfl
  | error e => rfl

def andThen (next : Routine) : Except AssembleError Unit -> Routine :=
  onSuccess fun _ => next

def pooled (opcode : Opcode) (c : PoolConstant) (next : Routine) : Routine :=
  store c (onSuccess fun index => instr { opcode := opcode, argument := some index } next)

def op (opcode : Opcode) (next : Routine) : Routine :=
  instr { opcode := opcode } next

section Run

variable (next : Routine)

theorem observed_andThen (step : Emit Unit) :
    (step.observed fun outcome => (andThen next outcome).run) = step >>= fun _ => next.run :=
  observed_onSuccess step _

theorem run_pooled (opcode : Opcode) (c : PoolConstant) :
    (pooled opcode c next).run = Emit.pooled opcode c >>= fun _ => next.run := by
  rw [pooled, run, observed_onSuccess, Emit.pooled, bind_assoc]
  rfl

theorem run_op (opcode : Opcode) :
    (op opcode next).run = Emit.op opcode >>= fun _ => next.run := rfl

end Run

end Routine

/-!
## Fragments as routines
-/

namespace Fragment

open Routine

mutual

def routine : Fragment -> Routine -> Routine
  | instr i, next => .instr i next
  | pooled opcode c, next => .pooled opcode c next
  | store c, next => .store c (onSuccess fun _ => next)
  | self, next => .look fun d => .pooled .constant (.function d.self) next
  | position, next => .look fun d => .pooled .constant (.int (Int32.ofNat d.position)) next
  | functionOrNull name, next => .find name fun
      | some chunk => .pooled .constant (.function chunk) next
      | none => .op .null next
  | builtin name, next => .find name fun
      | some chunk => .pooled .constant (.function chunk) next
      | none => .fail (.unknownChunk name)
  | define name arity body, next =>
      .function name arity (body.routine .done)
        (onSuccess fun chunk => .pooled .constant (.function chunk) next)
  | label name, next => .newLabel name fun _ => next
  | place mark, next => .place mark (andThen next)
  | jump target, next => .jump target (andThen next)
  | jumpIfFalse target, next => .jumpIfFalse target (andThen next)
  | sequence parts, next => routineOfAll parts next
  | call callee arguments, next =>
      if arguments.length ≤ maxCount then
        callee.routine (routineOfAll arguments
          (.instr { opcode := .call, argument := some (UInt8.ofNat arguments.length) } next))
      else
        .fail (.argumentOutOfRange "argument count" arguments.length)
  | both left right, next =>
      .newLabel (some "after and") fun after =>
        left.routine (.jumpIfFalse after (andThen (.op .pop
          (right.routine (.place after (andThen next))))))
  | either left right, next =>
      .newLabel (some "or right") fun rightSide => .newLabel (some "after or") fun after =>
        left.routine (.jumpIfFalse rightSide (andThen (.jump after (andThen
          (.place rightSide (andThen (.op .pop
            (right.routine (.place after (andThen next))))))))))
  | choose branches otherwise, next =>
      .newLabel (some "after if") fun after =>
        routineOfBranches after branches (otherwise.routine (.place after (andThen next)))
  | loop condition body, next =>
      .newLabel (some "before loop") fun before => .newLabel (some "after body") fun after =>
        .place before (andThen (condition.routine (.jumpIfFalse after (andThen (.op .pop
          (body.routine (.jump before (andThen (.place after (andThen (.op .pop next)))))))))))

def routineOfAll : List Fragment -> Routine -> Routine
  | [], next => next
  | part :: rest, next => part.routine (routineOfAll rest next)

def routineOfBranches (after : Label) : List FragmentBranch -> Routine -> Routine
  | [], next => next
  | { condition, body } :: rest, next =>
      .newLabel (some "next branch") fun other =>
        condition.routine (.jumpIfFalse other (andThen (.op .pop (body.routine
          (.jump after (andThen (.place other (andThen (.op .pop
            (routineOfBranches after rest next))))))))))

end

mutual

theorem run_routine : ∀ (f : Fragment) (next : Routine),
    (f.routine next).run = f.emit >>= fun _ => next.run
  | instr i, next => rfl
  | pooled opcode c, next => by
      rw [routine, run_pooled, emit]
  | store c, next => by
      simp only [routine, Routine.run, observed_onSuccess, emit, bind_assoc, pure_bind]
  | self, next => by
      simp only [routine, Routine.run, run_pooled, emit, bind_assoc]
  | position, next => by
      simp only [routine, Routine.run, run_pooled, emit, bind_assoc]
  | functionOrNull name, next => by
      simp only [routine, Routine.run, emit, bind_assoc]
      congr 1
      funext chunk?
      cases chunk? with
      | some chunk => exact run_pooled next _ _
      | none => rfl
  | builtin name, next => by
      simp only [routine, Routine.run, emit, bind_assoc]
      congr 1
      funext chunk?
      cases chunk? with
      | some chunk => exact run_pooled next _ _
      | none => rfl
  | define name arity body, next => by
      have hbody : (body.routine .done).run = body.emit :=
        (run_routine body .done).trans (bind_pure _)
      simp only [routine, Routine.run, observed_onSuccess, hbody, run_pooled, emit, bind_assoc]
  | label name, next => by
      simp only [routine, Routine.run, emit, bind_assoc, pure_bind]
  | place mark, next => by
      rw [routine, Routine.run, observed_andThen, emit]
  | jump target, next => by
      rw [routine, Routine.run, observed_andThen, emit]
  | jumpIfFalse target, next => by
      rw [routine, Routine.run, observed_andThen, emit]
  | sequence parts, next => by
      rw [routine, emit, run_routineOfAll parts next]
  | call callee arguments, next => by
      rw [routine, emit]
      by_cases hcount : arguments.length ≤ maxCount
      · rw [if_pos hcount, if_pos hcount, run_routine callee, run_routineOfAll arguments]
        simp only [bind_assoc]
        rfl
      · rw [if_neg hcount, if_neg hcount]
        rfl
  | both left right, next => by
      simp only [routine, Routine.run, run_routine left, run_routine right, observed_andThen,
        run_op, emit, bind_assoc]
  | either left right, next => by
      simp only [routine, Routine.run, run_routine left, run_routine right, observed_andThen,
        run_op, emit, bind_assoc]
  | choose branches otherwise, next => by
      simp only [routine, Routine.run, run_routineOfBranches, run_routine otherwise,
        observed_andThen, emit, bind_assoc]
  | loop condition body, next => by
      simp only [routine, Routine.run, run_routine condition, run_routine body, observed_andThen,
        run_op, emit, bind_assoc]

theorem run_routineOfAll : ∀ (parts : List Fragment) (next : Routine),
    (routineOfAll parts next).run = emitAll parts >>= fun _ => next.run
  | [], next => rfl
  | part :: rest, next => by
      rw [routineOfAll, run_routine part, run_routineOfAll rest next, emitAll, bind_assoc]

theorem run_routineOfBranches : ∀ (after : Label) (branches : List FragmentBranch)
    (next : Routine),
    (routineOfBranches after branches next).run = emitBranches after branches >>= fun _ => next.run
  | _, [], next => rfl
  | after, { condition, body } :: rest, next => by
      simp only [routineOfBranches, Routine.run, run_routine condition, run_routine body,
        run_routineOfBranches after rest next, observed_andThen, run_op, emitBranches, bind_assoc]

end

theorem run_routine_done (f : Fragment) : (f.routine .done).run = f.emit :=
  (run_routine f .done).trans (bind_pure _)

end Fragment

/-!
## Calls from outside
-/

inductive BuildCall where
  | main (body : Routine)
  | named (name : String) (body : Routine)
  | function (name : String) (arity : UInt8) (body : Routine)

namespace BuildCall

def run : BuildCall -> Assembly ChunkRef
  | main body => Assembly.addChunk none body.run
  | named name body => Assembly.addChunk (some name) body.run
  | function name arity body => Assembly.addFunctionChunk name arity body.run

def body : BuildCall -> Routine
  | main body | named _ body | function _ _ body => body

def name : BuildCall -> Option String
  | main _ => none
  | named name _ | function name _ _ => some name

def start : BuildCall -> ChunkRef -> Draft
  | main _, ref => { name := none, self := ref }
  | named name _, ref => { name := some name, self := ref }
  | function name arity _, ref => Assembly.functionDraft name arity ref

variable (f : Fragment)

theorem run_main : (main (f.routine .done)).run = Assembly.addMain f := by
  rw [run, f.run_routine_done]
  rfl

theorem run_named (name : String) :
    (named name (f.routine .done)).run = Assembly.addNamed name f := by
  rw [run, f.run_routine_done]
  rfl

theorem run_function (name : String) (arity : UInt8) :
    (function name arity (f.routine .done)).run = Assembly.addFunction name arity f := by
  rw [run, f.run_routine_done]
  rfl

end BuildCall

def Assembly.final {α : Type} : EStateM.Result AssembleError Assembler α -> Assembler
  | .ok _ a | .error _ a => a

def Assembler.built (a : Assembler) : List BuildCall -> Assembler
  | [] => a
  | call :: rest => (Assembly.final (call.run a)).built rest

theorem Assembler.built_append (a : Assembler) (before later : List BuildCall) :
    a.built (before ++ later) = (a.built before).built later := by
  induction before generalizing a with
  | nil => rfl
  | cons call rest ih => exact ih _

end StackScript
