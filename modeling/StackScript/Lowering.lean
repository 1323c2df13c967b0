import StackScript.Resolution

/-!
# Code for programs

The fragment of each construct of a program.  An expression leaves one value on
the stack.  A statement leaves the stack as it was, but for the locals that it
declares, which are dropped at the end of their block.
-/

namespace StackScript

inductive CompileError where
  | unresolved (name : String) (span : Span)
  | notAssignable (name : String) (span : Span) (hint : Option String)
  | assemble (error : AssembleError)
  | internal (detail : String)
  deriving DecidableEq, Repr

namespace CompileError

def assignToBuiltin (name : String) (span : Span) : CompileError :=
  notAssignable name span
    (some ("'" ++ name
      ++ "' is a built-in function; declare a new variable with 'var' instead"))

def message : CompileError -> String
  | unresolved name span =>
      "compile error: internal error: identifier '" ++ name ++ "' at " ++ span.text
        ++ " was not resolved"
  | notAssignable name span hint =>
      "compile error: " ++ span.text ++ ": cannot assign to '" ++ name ++ "'"
        ++ hint.elim "" fun text => "\n  hint: " ++ text
  | assemble e => "compile error: " ++ e.message
  | internal detail => "compile error: internal error: " ++ detail

def cause : CompileError -> Option AssembleError
  | assemble e => some e
  | _ => none

end CompileError

def BinaryOp.lower (left right : Fragment) : BinaryOp -> Fragment
  | add => .binary left right .add
  | subtract => .binary left right .subtract
  | multiply => .binary left right .multiply
  | divide => .binary left right .divide
  | greater => .binary left right .greater
  | less => .binary left right .less
  | greaterEqual => .not (.binary left right .less)
  | lessEqual => .not (.binary left right .greater)
  | equal => .binary left right .equal
  | notEqual => .not (.binary left right .equal)
  | and => .both left right
  | or => .either left right

def UnaryOp.lower (operand : Fragment) : UnaryOp -> Fragment
  | not => .not operand
  | negate => .negate operand

namespace Resolution

def storage (r : Resolution) (name : Identifier) : Except CompileError Storage :=
  match r.storage? name with
  | some storage => .ok storage
  | none => .error (.unresolved name.name name.span)

def introduce (r : Resolution) (name : Identifier) (value : Fragment) :
    Except CompileError Fragment := do
  match (← r.storage name).introduce? value with
  | some code => .ok code
  | none => .error (.internal ("'" ++ name.name ++ "' cannot be declared"))

def assign (r : Resolution) (name : Identifier) (value : Fragment) :
    Except CompileError Fragment := do
  match (← r.storage name).write? value with
  | some code => .ok code
  | none => .error (.assignToBuiltin name.name name.span)

/-!
## Expressions
-/

mutual

def lowerExpr (r : Resolution) : Expr -> Except CompileError Fragment
  | .call callee arguments _ => do
      let arguments ← r.lowerExprs arguments
      let callee ← r.lowerExpr callee
      return .call callee arguments
  | .unary op operand _ => do
      let operand ← r.lowerExpr operand
      return op.lower operand
  | .binary op left right _ => do
      let left ← r.lowerExpr left
      let right ← r.lowerExpr right
      return op.lower left right
  | .string text => .ok (.string text)
  | .number value => .ok (.int value)
  | .bool value => .ok (.bool value)
  | .null => .ok .null
  | .ident name => do
      let storage ← r.storage name
      return storage.read
  | .field receiver name => do
      let receiver ← r.lowerExpr receiver
      return .getField receiver name.name

def lowerExprs (r : Resolution) : List Expr -> Except CompileError (List Fragment)
  | [] => .ok []
  | e :: rest => do
      let first ← r.lowerExpr e
      let others ← r.lowerExprs rest
      return first :: others

end

/-!
## Statements
-/

def arity (name : Identifier) (params : List Identifier) : Except CompileError UInt8 :=
  if params.length ≤ 255 then
    .ok (UInt8.ofNat params.length)
  else
    .error (.internal
      ("function '" ++ name.name ++ "' has " ++ toString params.length ++ " parameters"))

def blockSize (r : Resolution) (id : BlockId) : Except CompileError Nat :=
  match r.blockSize? id with
  | some size => .ok size
  | none =>
      .error (.internal ("size of block BlockId(" ++ toString id ++ ") was not calculated"))

mutual

def lowerStmt (r : Resolution) : Stmt -> Except CompileError Fragment
  | .declare name value => do
      let value ← r.lowerExpr value
      r.introduce name value
  | .assign target value => do
      let value ← r.lowerExpr value
      r.assign target value
  | .assignField receiver field value => do
      let value ← r.lowerExpr value
      let receiver ← r.lowerExpr receiver
      return .setField receiver field.name value
  | .function name params body => do
      let arity ← arity name params
      let body ← r.lowerStmts [] body
      -- a function that falls off its end gives back null
      r.introduce name
        (.define name.name arity (.sequence [.sequence body, .giveBack .null]))
  | .choose branches otherwise => do
      let branches ← r.lowerBranches branches
      match otherwise with
      | none => return .choose branches .empty
      | some body => return .choose branches (← r.lowerBlock body)
  | .loop condition body => do
      let condition ← r.lowerExpr condition
      let body ← r.lowerBlock body
      return .loop condition body
  | .giveBack value _ => do
      let value ← r.lowerExpr value
      return .giveBack value
  | .evaluate value => do
      let value ← r.lowerExpr value
      return .sequence [value, .pop]
  | .block body => r.lowerBlock body

def lowerBlock (r : Resolution) : Block -> Except CompileError Fragment
  | { id, statements } => do
      let size ← r.blockSize id
      let body ← r.lowerStmts [] statements
      return .sequence [.sequence body, .pops size]

/-- The code of statements, behind the code of those before them, which is held
in reverse. -/
def lowerStmts (r : Resolution) (done : List Fragment) :
    List Stmt -> Except CompileError (List Fragment)
  | [] => .ok done.reverse
  | s :: rest => do
      let code ← r.lowerStmt s
      r.lowerStmts (code :: done) rest

def lowerBranches (r : Resolution) : List Branch -> Except CompileError (List FragmentBranch)
  | [] => .ok []
  | { condition, body } :: rest => do
      let condition ← r.lowerExpr condition
      let body ← r.lowerBlock body
      let others ← r.lowerBranches rest
      return { condition := condition, body := body } :: others

end

end Resolution

/-!
## Programs
-/

def Assembly.addBuiltins : List Builtin -> Assembly Unit
  | [] => pure ()
  | b :: rest => do
      let _ ← Assembly.addFunction b.name b.arity b.code
      addBuiltins rest

def Assembly.runFrom {α : Type} (a : Assembler) (step : Assembly α) :
    Except CompileError (α × Assembler) :=
  match step a with
  | .ok x a => .ok (x, a)
  | .error e _ => .error (.assemble e)

/-- The chunks of a program: those of the built-in functions, the main chunk,
and those of its own functions, each started where the code reaches it. -/
def Program.generate (program : Program) (builtins : List Builtin) (resolution : Resolution) :
    Except CompileError Assembler := do
  let ((), a) ← Assembly.runFrom {} (Assembly.addBuiltins builtins)
  let body ← resolution.lowerStmts [] program.statements
  let (_, a) ← Assembly.runFrom a (Assembly.addMain (.sequence body))
  return a

end StackScript
