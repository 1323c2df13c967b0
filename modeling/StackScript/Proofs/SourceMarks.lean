import StackScript.Proofs.BindingNames
import StackScript.Proofs.BlockNumbers

/-!
# Marks of the source

The names of a source text, and the braces that open blocks and bodies of
functions, are its marks.  A tree has its marks in source order, and so does a
list of tokens, which numbers them as they come.
-/

namespace StackScript

/-!
## Marks of a tree
-/

/-- A name where it stands, or a brace that opens a block or the body of a
function, which has no number. -/
inductive Mark where
  | name (name : Identifier)
  | block (id : BlockId)
  | body

def Mark.name? : Mark -> Option Identifier
  | name x => some x
  | _ => none

def Mark.block? : Mark -> Option BlockId
  | block id => some id
  | _ => none

mutual

def Expr.marks : Expr -> List Mark
  | .call callee arguments _ => callee.marks ++ marksOfExprs arguments
  | .unary _ operand _ => operand.marks
  | .binary _ left right _ => left.marks ++ right.marks
  | .ident name => [.name name]
  | .field receiver field => receiver.marks ++ [.name field]
  | .string _ | .number _ | .bool _ | .null => []

def marksOfExprs : List Expr -> List Mark
  | [] => []
  | e :: rest => e.marks ++ marksOfExprs rest

end

mutual

def Stmt.marks : Stmt -> List Mark
  | .declare name value => .name name :: value.marks
  | .assign target value => .name target :: value.marks
  | .assignField receiver field value => receiver.marks ++ .name field :: value.marks
  | .function name params body =>
      .name name :: (params.map Mark.name ++ .body :: marksOfAll body)
  | .choose branches none => marksOfBranches branches
  | .choose branches (some otherwise) => marksOfBranches branches ++ otherwise.marks
  | .loop condition body => condition.marks ++ body.marks
  | .giveBack value _ => value.marks
  | .evaluate value => value.marks
  | .block body => body.marks

def Block.marks : Block -> List Mark
  | { id, statements } => .block id :: marksOfAll statements

def marksOfAll : List Stmt -> List Mark
  | [] => []
  | s :: rest => s.marks ++ marksOfAll rest

def marksOfBranches : List Branch -> List Mark
  | [] => []
  | { condition, body } :: rest => condition.marks ++ (body.marks ++ marksOfBranches rest)

end

/-!
## Names and blocks among marks
-/

def namesIn (marks : List Mark) : List Identifier :=
  marks.filterMap Mark.name?

def blocksIn (marks : List Mark) : List BlockId :=
  marks.filterMap Mark.block?

section MarksIn

variable (x : Identifier) (id : BlockId) (marks marks' : List Mark)

@[simp] theorem namesIn_nil : namesIn [] = [] := rfl

@[simp] theorem namesIn_name : namesIn (.name x :: marks) = x :: namesIn marks := rfl

@[simp] theorem namesIn_block : namesIn (.block id :: marks) = namesIn marks := rfl

@[simp] theorem namesIn_body : namesIn (.body :: marks) = namesIn marks := rfl

@[simp] theorem namesIn_append : namesIn (marks ++ marks') = namesIn marks ++ namesIn marks' :=
  List.filterMap_append

@[simp] theorem namesIn_names (names : List Identifier) :
    namesIn (names.map Mark.name) = names := by
  rw [namesIn, List.filterMap_map]
  exact List.filterMap_some

@[simp] theorem blocksIn_nil : blocksIn [] = [] := rfl

@[simp] theorem blocksIn_name : blocksIn (.name x :: marks) = blocksIn marks := rfl

@[simp] theorem blocksIn_block : blocksIn (.block id :: marks) = id :: blocksIn marks := rfl

@[simp] theorem blocksIn_body : blocksIn (.body :: marks) = blocksIn marks := rfl

@[simp] theorem blocksIn_append :
    blocksIn (marks ++ marks') = blocksIn marks ++ blocksIn marks' :=
  List.filterMap_append

@[simp] theorem blocksIn_names (names : List Identifier) :
    blocksIn (names.map Mark.name) = [] := by
  induction names with
  | nil => rfl
  | cons name rest ih => exact ih

end MarksIn

mutual

theorem references_sublist : ∀ e : Expr, e.references.Sublist (namesIn e.marks)
  | .call callee arguments _ => by
      rw [Expr.references, Expr.marks, namesIn_append]
      exact (references_sublist callee).append (referencesOfAll_sublist arguments)
  | .unary _ operand _ => by
      rw [Expr.references, Expr.marks]
      exact references_sublist operand
  | .binary _ left right _ => by
      rw [Expr.references, Expr.marks, namesIn_append]
      exact (references_sublist left).append (references_sublist right)
  | .ident name => by
      rw [Expr.references, Expr.marks]
      exact List.Sublist.refl _
  | .field receiver field => by
      rw [Expr.references, Expr.marks, namesIn_append]
      exact (references_sublist receiver).trans (List.sublist_append_left _ _)
  | .string _ | .number _ | .bool _ | .null => by
      rw [Expr.references]
      exact List.nil_sublist _

theorem referencesOfAll_sublist : ∀ es : List Expr,
    (referencesOfAll es).Sublist (namesIn (marksOfExprs es))
  | [] => .slnil
  | e :: rest => by
      rw [referencesOfAll, marksOfExprs, namesIn_append]
      exact (references_sublist e).append (referencesOfAll_sublist rest)

end

mutual

theorem bindings_sublist : ∀ s : Stmt, s.bindings.Sublist (namesIn s.marks)
  | .declare name value => by
      rw [Stmt.bindings, Stmt.marks]
      exact (references_sublist value).cons_cons name
  | .assign target value => by
      rw [Stmt.bindings, Stmt.marks]
      exact (references_sublist value).cons_cons target
  | .assignField receiver field value => by
      rw [Stmt.bindings, Stmt.marks, namesIn_append]
      exact (references_sublist receiver).append ((references_sublist value).cons field)
  | .function name params body => by
      rw [Stmt.bindings, Stmt.marks, namesIn_name, namesIn_append, namesIn_names, namesIn_body]
      exact ((List.Sublist.refl params).append (bindingsOfAll_sublist body)).cons_cons name
  | .choose branches none => by
      rw [Stmt.bindings, Stmt.marks]
      exact bindingsOfBranches_sublist branches
  | .choose branches (some otherwise) => by
      rw [Stmt.bindings, Stmt.marks, namesIn_append]
      exact (bindingsOfBranches_sublist branches).append (blockBindings_sublist otherwise)
  | .loop condition body => by
      rw [Stmt.bindings, Stmt.marks, namesIn_append]
      exact (references_sublist condition).append (blockBindings_sublist body)
  | .giveBack value _ => by
      rw [Stmt.bindings, Stmt.marks]
      exact references_sublist value
  | .evaluate value => by
      rw [Stmt.bindings, Stmt.marks]
      exact references_sublist value
  | .block body => by
      rw [Stmt.bindings, Stmt.marks]
      exact blockBindings_sublist body

theorem blockBindings_sublist : ∀ b : Block, b.bindings.Sublist (namesIn b.marks)
  | { id, statements } => by
      rw [Block.bindings, Block.marks]
      exact bindingsOfAll_sublist statements

theorem bindingsOfAll_sublist : ∀ statements : List Stmt,
    (bindingsOfAll statements).Sublist (namesIn (marksOfAll statements))
  | [] => .slnil
  | s :: rest => by
      rw [bindingsOfAll, marksOfAll, namesIn_append]
      exact (bindings_sublist s).append (bindingsOfAll_sublist rest)

theorem bindingsOfBranches_sublist : ∀ branches : List Branch,
    (bindingsOfBranches branches).Sublist (namesIn (marksOfBranches branches))
  | [] => .slnil
  | { condition, body } :: rest => by
      rw [bindingsOfBranches, marksOfBranches, namesIn_append, namesIn_append]
      exact (references_sublist condition).append
        ((blockBindings_sublist body).append (bindingsOfBranches_sublist rest))

end

mutual

@[simp] theorem blocksIn_expr : ∀ e : Expr, blocksIn e.marks = []
  | .call callee arguments _ => by
      rw [Expr.marks, blocksIn_append, blocksIn_expr callee, blocksIn_exprs arguments]
      rfl
  | .unary _ operand _ => by
      rw [Expr.marks, blocksIn_expr operand]
  | .binary _ left right _ => by
      rw [Expr.marks, blocksIn_append, blocksIn_expr left, blocksIn_expr right]
      rfl
  | .field receiver _ => by
      rw [Expr.marks, blocksIn_append, blocksIn_expr receiver]
      rfl
  | .ident _ | .string _ | .number _ | .bool _ | .null => rfl

theorem blocksIn_exprs : ∀ es : List Expr, blocksIn (marksOfExprs es) = []
  | [] => rfl
  | e :: rest => by
      rw [marksOfExprs, blocksIn_append, blocksIn_expr e, blocksIn_exprs rest]
      rfl

end

mutual

theorem blocksIn_stmt : ∀ s : Stmt, blocksIn s.marks = s.blockIds
  | .declare _ _ | .assign _ _ | .assignField _ _ _ | .giveBack _ _ | .evaluate _ => by
      simp [Stmt.marks, Stmt.blockIds]
  | .function _ _ body => by
      simp [Stmt.marks, Stmt.blockIds, blocksIn_stmts body]
  | .choose branches none => by
      rw [Stmt.marks, Stmt.blockIds, blocksIn_branches branches]
  | .choose branches (some otherwise) => by
      rw [Stmt.marks, Stmt.blockIds, blocksIn_append, blocksIn_branches branches,
        blocksIn_ofBlock otherwise]
  | .loop _ body => by
      simp [Stmt.marks, Stmt.blockIds, blocksIn_ofBlock body]
  | .block body => by
      rw [Stmt.marks, Stmt.blockIds, blocksIn_ofBlock body]

theorem blocksIn_ofBlock : ∀ b : Block, blocksIn b.marks = b.blockIds
  | { id, statements } => by
      rw [Block.marks, Block.blockIds, blocksIn_block, blocksIn_stmts statements]

theorem blocksIn_stmts : ∀ statements : List Stmt,
    blocksIn (marksOfAll statements) = blockIdsOfAll statements
  | [] => rfl
  | s :: rest => by
      rw [marksOfAll, blockIdsOfAll, blocksIn_append, blocksIn_stmt s, blocksIn_stmts rest]

theorem blocksIn_branches : ∀ branches : List Branch,
    blocksIn (marksOfBranches branches) = blockIdsOfBranches branches
  | [] => rfl
  | { condition, body } :: rest => by
      rw [marksOfBranches, blockIdsOfBranches, blocksIn_append, blocksIn_append, blocksIn_expr,
        blocksIn_ofBlock body, blocksIn_branches rest, List.nil_append]

end

/-!
## Marks among tokens
-/

def Token.isMark : Token -> Bool
  | ident _ => true
  | keyword .fnWord => true
  | symbol .leftBrace => true
  | _ => false

/-- The marks among tokens, numbered from the given numbers on.  The first brace
behind the keyword of a function opens its body; `header` says that this brace is
still to come. -/
def numberMarks (nextIdent : IdentId) (nextBlock : BlockId) (header : Bool) :
    List Located -> List Mark
  | [] => []
  | { token := .ident name, span } :: rest =>
      .name { id := nextIdent, name, span } :: numberMarks (nextIdent + 1) nextBlock header rest
  | { token := .keyword .fnWord, .. } :: rest => numberMarks nextIdent nextBlock true rest
  | { token := .symbol .leftBrace, .. } :: rest =>
      if header then
        .body :: numberMarks nextIdent nextBlock false rest
      else
        .block nextBlock :: numberMarks nextIdent (nextBlock + 1) false rest
  | _ :: rest => numberMarks nextIdent nextBlock header rest

theorem Token.eq_of_isMark {t : Token} (h : t.isMark = true) :
    (∃ name, t = .ident name) ∨ t = .keyword .fnWord ∨ t = .symbol .leftBrace := by
  unfold isMark at h
  split at h
  · exact Or.inl ⟨_, rfl⟩
  · exact Or.inr (Or.inl rfl)
  · exact Or.inr (Or.inr rfl)
  · cases h

theorem numberMarks_of_not_isMark {t : Located} (ht : t.token.isMark = false) (nextIdent : IdentId)
    (nextBlock : BlockId) (header : Bool) (rest : List Located) :
    numberMarks nextIdent nextBlock header (t :: rest) =
      numberMarks nextIdent nextBlock header rest := by
  rw [numberMarks]
  · rintro name span rfl
    cases ht
  · rintro span rfl
    cases ht
  · rintro span rfl
    cases ht

def nameTokens (tokens : List Located) : List (String × Span) :=
  tokens.filterMap fun t =>
    match t.token with
    | .ident name => some (name, t.span)
    | _ => none

theorem namesIn_numberMarks (nextIdent : IdentId) (nextBlock : BlockId) (header : Bool)
    (tokens : List Located) :
    namesIn (numberMarks nextIdent nextBlock header tokens) =
      (nameTokens tokens).mapIdx fun k t => { id := nextIdent + k, name := t.1, span := t.2 } := by
  fun_induction numberMarks nextIdent nextBlock header tokens with
  | case1 => rfl
  | case2 nextIdent nextBlock header name span rest ih =>
      have hcons : nameTokens ({ token := .ident name, span } :: rest) =
          (name, span) :: nameTokens rest := rfl
      simp only [namesIn_name, ih, hcons, List.mapIdx_cons, Nat.add_zero, Nat.add_assoc,
        Nat.add_comm 1]
  | case3 _ _ _ _ _ ih => exact ih
  | case4 _ _ _ _ ih => exact ih
  | case5 _ _ _ _ _ _ ih => exact ih
  | case6 _ _ _ t rest hident _ _ ih =>
      rcases t with ⟨token, span⟩
      cases token with
      | ident name => exact absurd rfl (hident name span)
      | _ => exact ih

theorem pairwise_namesIn_numberMarks (nextIdent : IdentId) (nextBlock : BlockId) (header : Bool)
    (tokens : List Located) :
    ((namesIn (numberMarks nextIdent nextBlock header tokens)).map (·.id)).Pairwise (· < ·) := by
  rw [namesIn_numberMarks, List.pairwise_map, List.pairwise_iff_getElem]
  intro k k' hk hk' hlt
  rw [List.getElem_mapIdx, List.getElem_mapIdx]
  exact Nat.add_lt_add_left hlt nextIdent

theorem blocksIn_numberMarks (nextIdent : IdentId) (nextBlock : BlockId) (header : Bool)
    (tokens : List Located) :
    blocksIn (numberMarks nextIdent nextBlock header tokens) =
      List.range' nextBlock (blocksIn (numberMarks nextIdent nextBlock header tokens)).length := by
  fun_induction numberMarks nextIdent nextBlock header tokens with
  | case1 => rfl
  | case2 _ _ _ _ _ _ ih => exact ih
  | case3 _ _ _ _ _ ih => exact ih
  | case4 _ _ _ _ ih => exact ih
  | case5 _ _ _ _ _ _ ih => rw [blocksIn_block, List.length_cons, List.range'_succ, ← ih]
  | case6 _ _ _ _ _ _ _ _ ih => exact ih

theorem numberMarks_filter_isSignificant (nextIdent : IdentId) (nextBlock : BlockId)
    (header : Bool) (tokens : List Located) :
    numberMarks nextIdent nextBlock header (tokens.filter (·.token.isSignificant)) =
      numberMarks nextIdent nextBlock header tokens := by
  fun_induction numberMarks nextIdent nextBlock header tokens with
  | case1 => rfl
  | case2 _ _ _ _ _ _ ih => rw [List.filter_cons_of_pos rfl, numberMarks, ih]
  | case3 _ _ _ _ _ ih => rw [List.filter_cons_of_pos rfl, numberMarks, ih]
  | case4 _ _ _ _ ih => rw [List.filter_cons_of_pos rfl, numberMarks, if_pos rfl, ih]
  | case5 _ _ _ _ _ hheader ih =>
      rw [List.filter_cons_of_pos rfl, numberMarks, if_neg hheader, ih]
  | case6 _ _ _ t _ hident hfn hbrace ih =>
      rw [List.filter_cons]
      split
      · rw [numberMarks, ih]
        · exact hident
        · exact hfn
        · exact hbrace
      · exact ih

end StackScript
