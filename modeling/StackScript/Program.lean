import StackScript.Token

/-!
# Programs

The tree of a script.  Every occurrence of a name has a number of its own, and
so has every block, so that later findings about them can be kept in tables
beside the tree.
-/

namespace StackScript

/-- The number of an occurrence of a name. -/
abbrev IdentId := Nat

abbrev BlockId := Nat

structure Identifier where
  id : IdentId
  name : String
  span : Span
  deriving DecidableEq, Repr

inductive UnaryOp where
  | not
  | negate
  deriving DecidableEq, Repr

namespace UnaryOp

def symbol : UnaryOp -> Symbol
  | not => .bang
  | negate => .minus

def text (op : UnaryOp) : String := op.symbol.text

end UnaryOp

inductive BinaryOp where
  | add
  | subtract
  | multiply
  | divide
  | greater
  | less
  | greaterEqual
  | lessEqual
  | equal
  | notEqual
  | and
  | or
  deriving DecidableEq, Repr

namespace BinaryOp

def symbol : BinaryOp -> Symbol
  | add => .plus
  | subtract => .minus
  | multiply => .star
  | divide => .slash
  | greater => .greater
  | less => .less
  | greaterEqual => .greaterEq
  | lessEqual => .lessEq
  | equal => .eqEq
  | notEqual => .notEq
  | and => .andAnd
  | or => .orOr

def text (op : BinaryOp) : String := op.symbol.text

end BinaryOp

/-- An expression.  The position of a call is that of its parenthesis, the
position of an operation that of its operator. -/
inductive Expr where
  | call (callee : Expr) (arguments : List Expr) (span : Span)
  | unary (op : UnaryOp) (operand : Expr) (span : Span)
  | binary (op : BinaryOp) (left right : Expr) (span : Span)
  | string (text : String)
  | number (value : Int32)
  | bool (value : Bool)
  | null
  | ident (name : Identifier)
  | field (receiver : Expr) (name : Identifier)
  deriving Repr

mutual

inductive Stmt where
  /-- A new variable and its first value. -/
  | declare (name : Identifier) (value : Expr)
  /-- A new value for a variable. -/
  | assign (target : Identifier) (value : Expr)
  /-- A new value for a field of an object. -/
  | assignField (receiver : Expr) (field : Identifier) (value : Expr)
  /-- A new function; its body is no block of its own. -/
  | function (name : Identifier) (params : List Identifier) (body : List Stmt)
  /-- Branches tried in order, and the block to take when none holds. -/
  | choose (branches : List Branch) (otherwise : Option Block)
  | loop (condition : Expr) (body : Block)
  | giveBack (value : Expr) (span : Span)
  /-- An expression whose value is dropped. -/
  | evaluate (value : Expr)
  | block (body : Block)

structure Block where
  id : BlockId
  statements : List Stmt

structure Branch where
  condition : Expr
  body : Block

end

structure Program where
  statements : List Stmt

end StackScript
