import StackScript.Program

/-!
# Outlines

A program as a tree of plain items: what each node is called and what stands
under it, in source order.  A field name is a key and no use of a variable, so
it is part of its node's label and not an item of its own.
-/

namespace StackScript

inductive OutlineItem where
  | program
  | block (id : BlockId)
  | identifier (name : Identifier)
  /-- A statement or an expression, under its label. -/
  | construct (label : String)
  deriving DecidableEq, Repr

def OutlineItem.label : OutlineItem -> String
  | program => "Program"
  | block id => "Block #" ++ toString id
  | identifier name => "Identifier '" ++ name.name ++ "'"
  | construct label => label

inductive Outline where
  | node (item : OutlineItem) (children : List Outline)

namespace Outline

def leaf (item : OutlineItem) : Outline := node item []

def construct (label : String) (children : List Outline) : Outline :=
  node (.construct label) children

def identifier (name : Identifier) : Outline := leaf (.identifier name)

/-!
## Outlines of programs
-/

mutual

def ofExpr : Expr -> Outline
  | .call callee arguments _ =>
      construct ("Call/" ++ toString arguments.length) (ofExpr callee :: ofExprs arguments)
  | .unary op operand _ => construct ("Unary " ++ op.text) [ofExpr operand]
  | .binary op left right _ => construct ("Binary " ++ op.text) [ofExpr left, ofExpr right]
  | .string text => construct ("String " ++ Text.quoted text) []
  | .number value => construct ("Number " ++ integerText value) []
  | .bool value => construct ("Boolean " ++ boolText value) []
  | .null => construct "Null" []
  | .ident name => construct "Reference" [identifier name]
  | .field receiver name => construct ("FieldAccess ." ++ name.name) [ofExpr receiver]

def ofExprs : List Expr -> List Outline
  | [] => []
  | e :: rest => ofExpr e :: ofExprs rest

end

mutual

def ofStmt : Stmt -> Outline
  | .declare name value => construct "VariableDeclaration" [identifier name, ofExpr value]
  | .assign target value => construct "Assignment" [identifier target, ofExpr value]
  | .assignField receiver _ value => construct "Assignment" [ofExpr receiver, ofExpr value]
  | .function name params body =>
      construct ("FunctionDeclaration/" ++ toString params.length)
        (identifier name :: (params.map identifier ++ ofStmts body))
  | .choose branches otherwise =>
      construct ("If (" ++ toString branches.length ++ " branches)")
        (ofBranches branches ++
          match otherwise with
          | none => []
          | some body => [ofBlock body])
  | .loop condition body => construct "While" [ofExpr condition, ofBlock body]
  | .giveBack value _ => construct "Return" [ofExpr value]
  | .evaluate value => construct "ExpressionStatement" [ofExpr value]
  | .block body => construct "BlockStatement" [ofBlock body]

def ofBlock : Block -> Outline
  | { id, statements } => node (.block id) (ofStmts statements)

def ofStmts : List Stmt -> List Outline
  | [] => []
  | s :: rest => ofStmt s :: ofStmts rest

def ofBranches : List Branch -> List Outline
  | [] => []
  | { condition, body } :: rest => ofExpr condition :: ofBlock body :: ofBranches rest

end

/-!
## Reading outlines
-/

mutual

def items : Outline -> List OutlineItem
  | node item children => item :: itemsOfAll children

def itemsOfAll : List Outline -> List OutlineItem
  | [] => []
  | outline :: rest => items outline ++ itemsOfAll rest

end

/-- Two spaces for each level. -/
def indentation (level : Nat) : String :=
  "".pushn ' ' (2 * level)

mutual

/-- Writes an outline behind a text, one item to a line, with what stands under
an item indented between braces. -/
def write (level : Nat) (written : String) : Outline -> String
  | node item [] => written ++ indentation level ++ item.label ++ "\n"
  | node item (child :: rest) =>
      writeAll (level + 1)
        (write (level + 1) (written ++ indentation level ++ item.label ++ " \x7b\n") child) rest
        ++ indentation level ++ "\x7d\n"

def writeAll (level : Nat) (written : String) : List Outline -> String
  | [] => written
  | outline :: rest => writeAll level (write level written outline) rest

end

def render (outline : Outline) : String :=
  outline.write 0 ""

end Outline

namespace Program

def outline (program : Program) : Outline :=
  .node .program (Outline.ofStmts program.statements)

/-- The occurrences of names that stand for a variable or a function, in source
order. -/
def bindings (program : Program) : List Identifier :=
  program.outline.items.filterMap fun
    | .identifier name => some name
    | _ => none

def blocks (program : Program) : List BlockId :=
  program.outline.items.filterMap fun
    | .block id => some id
    | _ => none

end Program
end StackScript
