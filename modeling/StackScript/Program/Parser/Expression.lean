import StackScript.Program.Parser.State

/-!
# Parsing expressions

Six levels of binary operators, all of them grouping to the left, over prefix
operators, over calls and field accesses, over what stands alone.  Each
operator, call, access and pair of parentheses makes the tree one level deeper,
and `room` is how much deeper it may still get.  The room also is what the
recursion ends by: a step that keeps the room goes on to a tighter form.
-/

namespace StackScript
namespace Parser

abbrev Level := List (Symbol × BinaryOp)

/-- The levels of the binary operators, the loosest first. -/
def precedence : List Level :=
  [[(.orOr, .or)],
    [(.andAnd, .and)],
    [(.eqEq, .equal), (.notEq, .notEqual)],
    [(.less, .less), (.lessEq, .lessEqual), (.greater, .greater), (.greaterEq, .greaterEqual)],
    [(.plus, .add), (.minus, .subtract)],
    [(.star, .multiply), (.slash, .divide)]]

def Level.operator? (level : Level) : Option Token -> Option BinaryOp
  | some (.symbol s) => level.lookup s
  | _ => none

def unaryOperator? : Option Token -> Option UnaryOp
  | some (.symbol .bang) => some .not
  | some (.symbol .minus) => some .negate
  | _ => none

def literal? : Option Token -> Option Expr
  | some (.integer n) => some (.number n)
  | some (.string text) => some (.string text)
  | some (.bool b) => some (.bool b)
  | some .null => some .null
  | _ => none

mutual

def expression (room : Nat) : Parser Expr :=
  match room with
  | 0 => failTooDeep "expression"
  | room + 1 => operand precedence room
termination_by (room, 0)

/-- An operand of the given levels: what they join, and what binds tighter. -/
def operand (levels : List Level) (room : Nat) : Parser Expr :=
  match levels with
  | [] => unary room
  | level :: tighter => do
      let left ← operand tighter room
      chain level tighter room left
termination_by (room, 4 + levels.length)

/-- The operators of a level and their right operands, behind a left one. -/
def chain (level : Level) (tighter : List Level) (room : Nat) (left : Expr) : Parser Expr := do
  let s ← get
  match level.operator? s.token? with
  | none => return left
  | some op =>
      advance
      match room with
      | 0 => failTooDeep "expression"
      | room + 1 =>
          let right ← operand tighter room
          chain level tighter room (.binary op left right s.span)
termination_by (room, 0)

def unary (room : Nat) : Parser Expr := do
  let s ← get
  match unaryOperator? s.token? with
  | none => application room
  | some op =>
      advance
      match room with
      | 0 => failTooDeep "expression"
      | room + 1 =>
          let inner ← unary room
          return .unary op inner s.span
termination_by (room, 3)

def application (room : Nat) : Parser Expr := do
  let head ← primary room
  suffixes room head
termination_by (room, 2)

def suffixes (room : Nat) (head : Expr) : Parser Expr := do
  let s ← get
  match s.token? with
  | some (.symbol .leftParen) =>
      match room with
      | 0 => failTooDeep "expression"
      | room + 1 =>
          advance
          let args ← arguments room
          suffixes room (.call head args s.span)
  | some (.symbol .dot) =>
      match room with
      | 0 => failTooDeep "expression"
      | room + 1 =>
          advance
          let field ← identifier "field name after '.'"
          suffixes room (.field head field)
  | _ => return head
termination_by (room, 0)

/-- The arguments of a call, of which the opening parenthesis is consumed. -/
def arguments (room : Nat) : Parser (List Expr) := do
  let start := (← get).span
  let args ← parenthesized (expression room) "')' after arguments"
  if args.length ≤ maxArguments then
    return args
  else
    throw { span := start, fault := .tooManyArguments args.length }
termination_by (room, 1)

def primary (room : Nat) : Parser Expr := do
  let s ← get
  match s.token? with
  | some (.ident name) =>
      advance
      return .ident (← freshIdentifier name s.span)
  | some (.symbol .leftParen) =>
      advance
      let inner ← expression room
      expect .rightParen "')' after expression"
      return inner
  | t =>
      match literal? t with
      | some e =>
          advance
          return e
      | none => failExpected "expression"
termination_by (room, 1)

end

end Parser
end StackScript
