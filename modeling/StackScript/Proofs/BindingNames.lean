import StackScript.Program.Outline

/-!
# The names of a program

The occurrences of names that stand for a variable or a function, by recursion
over the tree.  A field name is a key of its object and not among them.
-/

namespace StackScript

mutual

def Expr.references : Expr -> List Identifier
  | .call callee arguments _ => callee.references ++ referencesOfAll arguments
  | .unary _ operand _ => operand.references
  | .binary _ left right _ => left.references ++ right.references
  | .ident name => [name]
  | .field receiver _ => receiver.references
  | .string _ | .number _ | .bool _ | .null => []

def referencesOfAll : List Expr -> List Identifier
  | [] => []
  | e :: rest => e.references ++ referencesOfAll rest

end

mutual

def Stmt.bindings : Stmt -> List Identifier
  | .declare name value => name :: value.references
  | .assign target value => target :: value.references
  | .assignField receiver _ value => receiver.references ++ value.references
  | .function name params body => name :: (params ++ bindingsOfAll body)
  | .choose branches none => bindingsOfBranches branches
  | .choose branches (some otherwise) => bindingsOfBranches branches ++ otherwise.bindings
  | .loop condition body => condition.references ++ body.bindings
  | .giveBack value _ => value.references
  | .evaluate value => value.references
  | .block body => body.bindings

def Block.bindings : Block -> List Identifier
  | { statements, .. } => bindingsOfAll statements

def bindingsOfAll : List Stmt -> List Identifier
  | [] => []
  | s :: rest => s.bindings ++ bindingsOfAll rest

def bindingsOfBranches : List Branch -> List Identifier
  | [] => []
  | { condition, body } :: rest =>
      condition.references ++ (body.bindings ++ bindingsOfBranches rest)

end

/-!
## Names of outlines
-/

def OutlineItem.identifier? : OutlineItem -> Option Identifier
  | identifier name => some name
  | _ => none

namespace Outline

def names (outline : Outline) : List Identifier :=
  outline.items.filterMap OutlineItem.identifier?

def namesOf (outlines : List Outline) : List Identifier :=
  (itemsOfAll outlines).filterMap OutlineItem.identifier?

@[simp] theorem names_construct (label : String) (children : List Outline) :
    (construct label children).names = namesOf children := rfl

@[simp] theorem names_block (id : BlockId) (children : List Outline) :
    (node (.block id) children).names = namesOf children := rfl

@[simp] theorem names_identifier (name : Identifier) : (identifier name).names = [name] := rfl

@[simp] theorem namesOf_nil : namesOf [] = [] := rfl

@[simp] theorem namesOf_cons (outline : Outline) (rest : List Outline) :
    namesOf (outline :: rest) = outline.names ++ namesOf rest := by
  rw [namesOf, itemsOfAll, List.filterMap_append]
  rfl

@[simp] theorem namesOf_append (outlines outlines' : List Outline) :
    namesOf (outlines ++ outlines') = namesOf outlines ++ namesOf outlines' := by
  induction outlines with
  | nil => rfl
  | cons outline rest ih => simp [ih]

@[simp] theorem namesOf_identifiers (names : List Identifier) :
    namesOf (names.map identifier) = names := by
  induction names with
  | nil => rfl
  | cons name rest ih => simp [ih]

mutual

@[simp] theorem names_ofExpr : ∀ e : Expr, (ofExpr e).names = e.references
  | .call callee arguments _ => by
      simp [ofExpr, Expr.references, names_ofExpr callee, namesOf_ofExprs arguments]
  | .unary op operand _ => by
      simp [ofExpr, Expr.references, names_ofExpr operand]
  | .binary op left right _ => by
      simp [ofExpr, Expr.references, names_ofExpr left, names_ofExpr right]
  | .string _ | .number _ | .bool _ | .null => by
      simp [ofExpr, Expr.references]
  | .ident name => by
      simp [ofExpr, Expr.references]
  | .field receiver _ => by
      simp [ofExpr, Expr.references, names_ofExpr receiver]

theorem namesOf_ofExprs : ∀ es : List Expr, namesOf (ofExprs es) = referencesOfAll es
  | [] => rfl
  | e :: rest => by
      simp [ofExprs, referencesOfAll, names_ofExpr e, namesOf_ofExprs rest]

end

mutual

theorem names_ofStmt : ∀ s : Stmt, (ofStmt s).names = s.bindings
  | .declare name value => by
      simp [ofStmt, Stmt.bindings]
  | .assign target value => by
      simp [ofStmt, Stmt.bindings]
  | .assignField receiver field value => by
      simp [ofStmt, Stmt.bindings]
  | .function name params body => by
      simp [ofStmt, Stmt.bindings, namesOf_ofStmts body]
  | .choose branches none => by
      simp [ofStmt, Stmt.bindings, namesOf_ofBranches branches]
  | .choose branches (some otherwise) => by
      simp [ofStmt, Stmt.bindings, namesOf_ofBranches branches, names_ofBlock otherwise]
  | .loop condition body => by
      simp [ofStmt, Stmt.bindings, names_ofBlock body]
  | .giveBack value _ => by
      simp [ofStmt, Stmt.bindings]
  | .evaluate value => by
      simp [ofStmt, Stmt.bindings]
  | .block body => by
      simp [ofStmt, Stmt.bindings, names_ofBlock body]

theorem names_ofBlock : ∀ b : Block, (ofBlock b).names = b.bindings
  | { id, statements } => by
      simp [ofBlock, Block.bindings, namesOf_ofStmts statements]

theorem namesOf_ofStmts : ∀ statements : List Stmt,
    namesOf (ofStmts statements) = bindingsOfAll statements
  | [] => rfl
  | s :: rest => by
      simp [ofStmts, bindingsOfAll, names_ofStmt s, namesOf_ofStmts rest]

theorem namesOf_ofBranches : ∀ branches : List Branch,
    namesOf (ofBranches branches) = bindingsOfBranches branches
  | [] => rfl
  | { condition, body } :: rest => by
      simp [ofBranches, bindingsOfBranches, names_ofBlock body, namesOf_ofBranches rest]

end

end Outline

theorem Program.bindings_eq (program : Program) :
    program.bindings = bindingsOfAll program.statements := by
  have hbindings : program.bindings = program.outline.names := by
    apply congrArg (List.filterMap · program.outline.items)
    funext item
    cases item <;> rfl
  rw [hbindings, ← Outline.namesOf_ofStmts]
  rfl

end StackScript
