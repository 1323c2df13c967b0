import StackScript.Program.Outline

/-!
# The numbers of blocks

The numbers of the blocks of a tree, each in front of those inside it.
-/

namespace StackScript

mutual

def Stmt.blockIds : Stmt -> List BlockId
  | .function _ _ body => blockIdsOfAll body
  | .choose branches none => blockIdsOfBranches branches
  | .choose branches (some otherwise) => blockIdsOfBranches branches ++ otherwise.blockIds
  | .loop _ body => body.blockIds
  | .block body => body.blockIds
  | _ => []

def Block.blockIds : Block -> List BlockId
  | { id, statements } => id :: blockIdsOfAll statements

def blockIdsOfAll : List Stmt -> List BlockId
  | [] => []
  | s :: rest => s.blockIds ++ blockIdsOfAll rest

def blockIdsOfBranches : List Branch -> List BlockId
  | [] => []
  | { body, .. } :: rest => body.blockIds ++ blockIdsOfBranches rest

end

/-!
## Blocks of outlines
-/

def OutlineItem.block? : OutlineItem -> Option BlockId
  | block id => some id
  | _ => none

namespace Outline

mutual

def blockIds : Outline -> List BlockId
  | node item children => item.block?.toList ++ blockIdsOf children

def blockIdsOf : List Outline -> List BlockId
  | [] => []
  | outline :: rest => outline.blockIds ++ blockIdsOf rest

end

mutual

theorem filterMap_items : ∀ outline : Outline,
    outline.items.filterMap OutlineItem.block? = outline.blockIds
  | node item children => by
      rw [items, List.filterMap_cons, filterMap_itemsOfAll children, blockIds]
      cases item.block? <;> rfl

theorem filterMap_itemsOfAll : ∀ outlines : List Outline,
    (itemsOfAll outlines).filterMap OutlineItem.block? = blockIdsOf outlines
  | [] => rfl
  | outline :: rest => by
      rw [itemsOfAll, List.filterMap_append, filterMap_items outline, filterMap_itemsOfAll rest,
        blockIdsOf]

end

@[simp] theorem blockIds_construct (label : String) (children : List Outline) :
    (construct label children).blockIds = blockIdsOf children := rfl

@[simp] theorem blockIds_identifier (name : Identifier) : (identifier name).blockIds = [] := rfl

@[simp] theorem blockIdsOf_nil : blockIdsOf [] = [] := rfl

@[simp] theorem blockIdsOf_cons (outline : Outline) (rest : List Outline) :
    blockIdsOf (outline :: rest) = outline.blockIds ++ blockIdsOf rest := rfl

@[simp] theorem blockIdsOf_append (outlines outlines' : List Outline) :
    blockIdsOf (outlines ++ outlines') = blockIdsOf outlines ++ blockIdsOf outlines' := by
  induction outlines with
  | nil => rfl
  | cons outline rest ih => simp [ih]

@[simp] theorem blockIdsOf_identifiers (names : List Identifier) :
    blockIdsOf (names.map identifier) = [] := by
  induction names with
  | nil => rfl
  | cons name rest ih => simp [ih]

mutual

@[simp] theorem blockIds_ofExpr : ∀ e : Expr, (ofExpr e).blockIds = []
  | .call callee arguments _ => by
      simp [ofExpr, blockIds_ofExpr callee, blockIds_ofExprs arguments]
  | .unary op operand _ => by
      simp [ofExpr, blockIds_ofExpr operand]
  | .binary op left right _ => by
      simp [ofExpr, blockIds_ofExpr left, blockIds_ofExpr right]
  | .string _ => rfl
  | .number _ => rfl
  | .bool _ => rfl
  | .null => rfl
  | .ident _ => rfl
  | .field receiver _ => by
      simp [ofExpr, blockIds_ofExpr receiver]

theorem blockIds_ofExprs : ∀ es : List Expr, blockIdsOf (ofExprs es) = []
  | [] => rfl
  | e :: rest => by
      simp [ofExprs, blockIds_ofExpr e, blockIds_ofExprs rest]

end

mutual

theorem blockIds_ofStmt : ∀ s : Stmt, (ofStmt s).blockIds = s.blockIds
  | .declare name value => by
      simp [ofStmt, Stmt.blockIds]
  | .assign target value => by
      simp [ofStmt, Stmt.blockIds]
  | .assignField receiver field value => by
      simp [ofStmt, Stmt.blockIds]
  | .function name params body => by
      simp [ofStmt, Stmt.blockIds, blockIds_ofStmts body]
  | .choose branches none => by
      simp [ofStmt, Stmt.blockIds, blockIds_ofBranches branches]
  | .choose branches (some otherwise) => by
      simp [ofStmt, Stmt.blockIds, blockIds_ofBranches branches, blockIds_ofBlock otherwise]
  | .loop condition body => by
      simp [ofStmt, Stmt.blockIds, blockIds_ofBlock body]
  | .giveBack value _ => by
      simp [ofStmt, Stmt.blockIds]
  | .evaluate value => by
      simp [ofStmt, Stmt.blockIds]
  | .block body => by
      simp [ofStmt, Stmt.blockIds, blockIds_ofBlock body]

theorem blockIds_ofBlock : ∀ b : Block, (ofBlock b).blockIds = b.blockIds
  | { id, statements } => by
      rw [ofBlock, blockIds, blockIds_ofStmts statements, Block.blockIds]
      rfl

theorem blockIds_ofStmts : ∀ statements : List Stmt,
    blockIdsOf (ofStmts statements) = blockIdsOfAll statements
  | [] => rfl
  | s :: rest => by
      rw [ofStmts, blockIdsOf_cons, blockIds_ofStmt s, blockIds_ofStmts rest, blockIdsOfAll]

theorem blockIds_ofBranches : ∀ branches : List Branch,
    blockIdsOf (ofBranches branches) = blockIdsOfBranches branches
  | [] => rfl
  | { condition, body } :: rest => by
      rw [ofBranches, blockIdsOf_cons, blockIdsOf_cons, blockIds_ofExpr, blockIds_ofBlock body,
        blockIds_ofBranches rest, blockIdsOfBranches, List.nil_append]

end

end Outline

theorem Program.blocks_eq (program : Program) :
    program.blocks = blockIdsOfAll program.statements := by
  have hblocks : program.blocks = program.outline.items.filterMap OutlineItem.block? := by
    apply congrArg (List.filterMap · program.outline.items)
    funext item
    cases item <;> rfl
  rw [hblocks, Outline.filterMap_items, outline, Outline.blockIds,
    Outline.blockIds_ofStmts program.statements]
  rfl

end StackScript
