import StackScript.Program

/-!
# The meaning of programs

What a program without functions, calls and fields does, whatever the operations
on values are.  Expressions are evaluated from left to right, and a block has
locals of its own.  A loop may run forever, so that the evaluator is given a
bound on the rounds of a loop and says so when it does not get to the end.
-/

namespace StackScript

/-!
## Values
-/

/-- The meaning of literals and operators.  An operation may have no result. -/
structure Interpretation (V : Type) where
  int : Int32 -> V
  string : String -> V
  bool : Bool -> V
  null : V
  add : V -> V -> Option V
  subtract : V -> V -> Option V
  multiply : V -> V -> Option V
  divide : V -> V -> Option V
  equal : V -> V -> Option V
  greater : V -> V -> Option V
  less : V -> V -> Option V
  not : V -> Option V
  negate : V -> Option V
  isFalse : V -> Bool

/-- Why an evaluation has no result: an operation has none, or the bound on the
rounds of a loop was too small. -/
inductive Stop where
  | wrong
  | unfinished
  deriving DecidableEq, Repr

/-- Under some bound there is a result, or something goes wrong, or no bound is
large enough. -/
theorem outcome_cases {α : Type} (run : Nat -> Except Stop α) :
    (∃ bound a, run bound = .ok a) ∨ (∃ bound, run bound = .error .wrong) ∨
      ∀ bound, run bound = .error .unfinished := by
  by_cases hopen : ∀ bound, run bound = .error .unfinished
  · exact Or.inr (Or.inr hopen)
  · rcases Classical.not_forall.mp hopen with ⟨bound, hbound⟩
    match hrun : run bound with
    | .ok a => exact Or.inl ⟨bound, a, hrun⟩
    | .error .wrong => exact Or.inr (Or.inl ⟨bound, hrun⟩)
    | .error .unfinished => exact absurd hrun hbound

def orWrong {α : Type} : Option α -> Except Stop α
  | some a => .ok a
  | none => .error .wrong

namespace Interpretation

variable {V : Type}

def unary (I : Interpretation V) (v : V) : UnaryOp -> Except Stop V
  | .not => orWrong (I.not v)
  | .negate => orWrong (I.negate v)

/-- An operator between the value of its left operand and the evaluation of its
right one, which is not always needed. -/
def binary (I : Interpretation V) (left : V) (right : Except Stop V) : BinaryOp -> Except Stop V
  | .add => do orWrong (I.add left (← right))
  | .subtract => do orWrong (I.subtract left (← right))
  | .multiply => do orWrong (I.multiply left (← right))
  | .divide => do orWrong (I.divide left (← right))
  | .greater => do orWrong (I.greater left (← right))
  | .less => do orWrong (I.less left (← right))
  | .equal => do orWrong (I.equal left (← right))
  | .greaterEqual => do orWrong (I.not (← orWrong (I.less left (← right))))
  | .lessEqual => do orWrong (I.not (← orWrong (I.greater left (← right))))
  | .notEqual => do orWrong (I.not (← orWrong (I.equal left (← right))))
  | .and => if I.isFalse left then .ok left else right
  | .or => if I.isFalse left then right else .ok left

end Interpretation

/-!
## Variables
-/

abbrev Globals (V : Type) := String -> Option V

def Globals.set {V : Type} (globals : Globals V) (name : String) (v : V) : Globals V :=
  fun other => if other = name then some v else globals other

structure Store (V : Type) where
  /-- The locals of the open blocks, the innermost block first, and in each block
  the latest local first. -/
  locals : List (List (String × V))
  globals : Globals V

namespace Store

variable {V : Type}

def empty : Store V where
  locals := []
  globals := fun _ => none

/-- The value that a name stands for: that of the latest local, or else that of
the global. -/
def get? (s : Store V) (name : String) : Option V :=
  (s.locals.flatten.lookup name).or (s.globals name)

/-- A new variable, which is a global outside of all blocks. -/
def declare (s : Store V) (name : String) (v : V) : Store V :=
  match s.locals with
  | [] => { s with globals := s.globals.set name v }
  | block :: rest => { s with locals := ((name, v) :: block) :: rest }

def replaceIn (name : String) (v : V) : List (String × V) -> Option (List (String × V))
  | [] => none
  | (other, old) :: rest =>
      if other = name then
        some ((other, v) :: rest)
      else
        (replaceIn name v rest).map ((other, old) :: ·)

def replace (name : String) (v : V) : List (List (String × V)) -> Option (List (List (String × V)))
  | [] => none
  | block :: rest =>
      match replaceIn name v block with
      | some block => some (block :: rest)
      | none => (replace name v rest).map (block :: ·)

def assign? (s : Store V) (name : String) (v : V) : Option (Store V) :=
  match replace name v s.locals with
  | some locals => some { s with locals := locals }
  | none =>
      if (s.globals name).isSome then
        some { s with globals := s.globals.set name v }
      else
        none

def openBlock (s : Store V) : Store V :=
  { s with locals := [] :: s.locals }

def closeBlock (s : Store V) : Store V :=
  { s with locals := s.locals.tail }

end Store

/-!
## Programs without functions, calls and fields
-/

def Expr.callFree : Expr -> Bool
  | .call _ _ _ | .field _ _ => false
  | .unary _ operand _ => operand.callFree
  | .binary _ left right _ => left.callFree && right.callFree
  | .string _ | .number _ | .bool _ | .null | .ident _ => true

mutual

def Stmt.callFree : Stmt -> Bool
  | .declare _ value => value.callFree
  | .assign _ value => value.callFree
  | .choose branches otherwise =>
      callFreeBranches branches &&
        match otherwise with
        | none => true
        | some body => body.callFree
  | .loop condition body => condition.callFree && body.callFree
  | .evaluate value => value.callFree
  | .block body => body.callFree
  | .assignField _ _ _ | .function _ _ _ | .giveBack _ _ => false

def Block.callFree : Block -> Bool
  | { statements, .. } => callFreeStmts statements

def callFreeStmts : List Stmt -> Bool
  | [] => true
  | s :: rest => s.callFree && callFreeStmts rest

def callFreeBranches : List Branch -> Bool
  | [] => true
  | { condition, body } :: rest => condition.callFree && body.callFree && callFreeBranches rest

end

def Program.callFree (program : Program) : Bool :=
  callFreeStmts program.statements

/-!
## Evaluation
-/

namespace Interpretation

variable {V : Type}

def eval (I : Interpretation V) (s : Store V) : Expr -> Except Stop V
  | .string text => .ok (I.string text)
  | .number value => .ok (I.int value)
  | .bool value => .ok (I.bool value)
  | .null => .ok I.null
  | .ident name => orWrong (s.get? name.name)
  | .unary op operand _ => do I.unary (← I.eval s operand) op
  | .binary op left right _ => do I.binary (← I.eval s left) (I.eval s right) op
  | .call _ _ _ | .field _ _ => .error .wrong

/-- Runs the body as long as the condition is not false, but for no more than
the given number of rounds. -/
def whileLoop (I : Interpretation V) (condition : Store V -> Except Stop V)
    (body : Store V -> Except Stop (Store V)) : Nat -> Store V -> Except Stop (Store V)
  | 0, _ => .error .unfinished
  | rounds + 1, s => do
      if I.isFalse (← condition s) then
        return s
      else
        I.whileLoop condition body rounds (← body s)

mutual

def exec (I : Interpretation V) (bound : Nat) : Stmt -> Store V -> Except Stop (Store V)
  | .declare name value => fun s => do
      return s.declare name.name (← I.eval s value)
  | .assign target value => fun s => do
      orWrong (s.assign? target.name (← I.eval s value))
  | .choose branches none => I.execBranches bound (fun s => .ok s) branches
  | .choose branches (some otherwise) =>
      I.execBranches bound (I.execBlock bound otherwise) branches
  | .loop condition body =>
      I.whileLoop (fun s => I.eval s condition) (I.execBlock bound body) bound
  | .evaluate value => fun s => do
      let _ ← I.eval s value
      return s
  | .block body => I.execBlock bound body
  | .assignField _ _ _ | .function _ _ _ | .giveBack _ _ => fun _ => .error .wrong

def execBlock (I : Interpretation V) (bound : Nat) : Block -> Store V -> Except Stop (Store V)
  | { statements, .. } => fun s => do
      return (← I.execAll bound statements s.openBlock).closeBlock

def execAll (I : Interpretation V) (bound : Nat) : List Stmt -> Store V -> Except Stop (Store V)
  | [] => fun s => .ok s
  | first :: rest => fun s => do
      I.execAll bound rest (← I.exec bound first s)

def execBranches (I : Interpretation V) (bound : Nat)
    (otherwise : Store V -> Except Stop (Store V)) :
    List Branch -> Store V -> Except Stop (Store V)
  | [] => otherwise
  | { condition, body } :: rest => fun s => do
      if I.isFalse (← I.eval s condition) then
        I.execBranches bound otherwise rest s
      else
        I.execBlock bound body s

end

def run (I : Interpretation V) (bound : Nat) (program : Program) : Except Stop (Globals V) := do
  return (← I.execAll bound program.statements Store.empty).globals

def Finishes (I : Interpretation V) (program : Program) (globals : Globals V) : Prop :=
  ∃ bound, I.run bound program = .ok globals

def GoesWrong (I : Interpretation V) (program : Program) : Prop :=
  ∃ bound, I.run bound program = .error .wrong

def Diverges (I : Interpretation V) (program : Program) : Prop :=
  ∀ bound, I.run bound program = .error .unfinished

end Interpretation

end StackScript
