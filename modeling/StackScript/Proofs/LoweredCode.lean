import StackScript.Proofs.Chunks
import StackScript.Proofs.Layout

/-!
# The fragments of programs

What the code of a program is made of: structured fragments only, and one
definition for each function of the program, in source order.
-/

namespace StackScript

/-!
## Functions of programs
-/

structure FunctionDeclaration where
  name : Identifier
  params : List Identifier
  body : List Stmt

mutual

def Stmt.functions : Stmt -> List FunctionDeclaration
  | .function name params body => { name, params, body } :: functionsOfAll body
  | .choose branches otherwise =>
      functionsOfBranches branches ++
        match otherwise with
        | none => []
        | some body => body.functions
  | .loop _ body => body.functions
  | .block body => body.functions
  | _ => []

def Block.functions : Block -> List FunctionDeclaration
  | { statements, .. } => functionsOfAll statements

def functionsOfAll : List Stmt -> List FunctionDeclaration
  | [] => []
  | s :: rest => s.functions ++ functionsOfAll rest

def functionsOfBranches : List Branch -> List FunctionDeclaration
  | [] => []
  | { body, .. } :: rest => body.functions ++ functionsOfBranches rest

end

def Program.functions (program : Program) : List FunctionDeclaration :=
  functionsOfAll program.statements

namespace Resolution

variable {r : Resolution}

/-!
## Reading lowering back
-/

theorem storage_eq_ok_iff {name : Identifier} {storage : Storage} :
    r.storage name = .ok storage ↔ r.storage? name = some storage := by
  unfold Resolution.storage
  cases r.storage? name <;> simp

theorem introduce_eq_ok_iff {name : Identifier} {value code : Fragment} :
    r.introduce name value = .ok code ↔
      ∃ storage, r.storage? name = some storage ∧ storage.introduce? value = some code := by
  simp only [introduce, bind_eq_ok_iff, storage_eq_ok_iff]
  apply exists_congr
  intro storage
  apply and_congr_right
  intro _
  cases storage.introduce? value <;> simp

theorem assign_eq_ok_iff {name : Identifier} {value code : Fragment} :
    r.assign name value = .ok code ↔
      ∃ storage, r.storage? name = some storage ∧ storage.write? value = some code := by
  simp only [assign, bind_eq_ok_iff, storage_eq_ok_iff]
  apply exists_congr
  intro storage
  apply and_congr_right
  intro _
  cases storage.write? value <;> simp

theorem blockSize_eq_ok_iff {id : BlockId} {size : Nat} :
    r.blockSize id = .ok size ↔ r.blockSize? id = some size := by
  unfold Resolution.blockSize
  cases r.blockSize? id <;> simp

theorem arity_eq_ok_iff {name : Identifier} {params : List Identifier} {n : UInt8} :
    arity name params = .ok n ↔ params.length ≤ 255 ∧ n = UInt8.ofNat params.length := by
  unfold arity
  by_cases hlength : params.length ≤ 255
  · simp [hlength, eq_comm]
  · simp [hlength]

theorem lowerStmts_eq_ok_iff {before codes : List Fragment} {statements : List Stmt} :
    r.lowerStmts before statements = .ok codes ↔
      ∃ own, List.Forall₂ (fun s code => r.lowerStmt s = .ok code) statements own ∧
        codes = before.reverse ++ own := by
  induction statements generalizing before with
  | nil =>
      rw [lowerStmts, Except.ok.injEq]
      constructor
      · rintro rfl
        exact ⟨[], .nil, (List.append_nil _).symm⟩
      · rintro ⟨own, hown, rfl⟩
        cases hown
        rw [List.append_nil]
  | cons s rest ih =>
      simp only [lowerStmts, bind_eq_ok_iff, ih]
      constructor
      · rintro ⟨code, hcode, own, hown, rfl⟩
        exact ⟨code :: own, .cons hcode hown, by simp⟩
      · rintro ⟨own, hown, rfl⟩
        cases hown with
        | cons hcode hrest => exact ⟨_, hcode, _, hrest, by simp⟩

theorem lowerAll_eq_ok_iff {codes : List Fragment} {statements : List Stmt} :
    r.lowerStmts [] statements = .ok codes ↔
      List.Forall₂ (fun s code => r.lowerStmt s = .ok code) statements codes := by
  rw [lowerStmts_eq_ok_iff]
  constructor
  · rintro ⟨own, hown, rfl⟩
    exact hown
  · intro h
    exact ⟨codes, h, rfl⟩

end Resolution

/-!
## Structured code
-/

namespace Fragment

variable {inFunction : Bool} {f g : Fragment}

theorem structured_pops (count : Nat) : (pops count).Structured inFunction := by
  rw [pops, Structured]
  induction count with
  | zero => exact trivial
  | succ count ih => exact ⟨⟨rfl, rfl, rfl⟩, ih⟩

theorem structured_unary {opcode : Opcode} (hf : f.Structured inFunction)
    (hopcode : Instruction.Plain { opcode := opcode }) :
    (unary f opcode).Structured inFunction := by
  rw [unary, Structured]
  exact ⟨hf, hopcode, trivial⟩

theorem structured_binary {opcode : Opcode} (hf : f.Structured inFunction)
    (hg : g.Structured inFunction) (hopcode : Instruction.Plain { opcode := opcode }) :
    (binary f g opcode).Structured inFunction := by
  rw [binary, Structured]
  exact ⟨hf, hg, hopcode, trivial⟩

theorem structured_unaryOp (op : UnaryOp) (hf : f.Structured inFunction) :
    (op.lower f).Structured inFunction := by
  cases op with
  | not => exact structured_unary hf ⟨rfl, rfl, rfl⟩
  | negate => exact structured_unary hf ⟨rfl, rfl, rfl⟩

theorem structured_binaryOp (op : BinaryOp) (hf : f.Structured inFunction)
    (hg : g.Structured inFunction) : (op.lower f g).Structured inFunction := by
  have hplain : ∀ {opcode : Opcode}, Instruction.Plain { opcode := opcode } ->
      (binary f g opcode).Structured inFunction := structured_binary hf hg
  have hnegated : ∀ {opcode : Opcode}, Instruction.Plain { opcode := opcode } ->
      (not (binary f g opcode)).Structured inFunction :=
    fun hopcode => structured_unary (hplain hopcode) ⟨rfl, rfl, rfl⟩
  cases op with
  | and => exact ⟨hf, hg⟩
  | or => exact ⟨hf, hg⟩
  | greaterEqual => exact hnegated ⟨rfl, rfl, rfl⟩
  | lessEqual => exact hnegated ⟨rfl, rfl, rfl⟩
  | notEqual => exact hnegated ⟨rfl, rfl, rfl⟩
  | add => exact hplain ⟨rfl, rfl, rfl⟩
  | subtract => exact hplain ⟨rfl, rfl, rfl⟩
  | multiply => exact hplain ⟨rfl, rfl, rfl⟩
  | divide => exact hplain ⟨rfl, rfl, rfl⟩
  | greater => exact hplain ⟨rfl, rfl, rfl⟩
  | less => exact hplain ⟨rfl, rfl, rfl⟩
  | equal => exact hplain ⟨rfl, rfl, rfl⟩

theorem structured_read (storage : Storage) : storage.read.Structured inFunction := by
  cases storage with
  | localSlot name slot => exact ⟨rfl, rfl, rfl⟩
  | globalName name => exact (rfl : Opcode.takesConstant .getGlobal = true)
  | builtin name arity => exact trivial

theorem structured_write {storage : Storage} (hf : f.Structured inFunction)
    (h : storage.write? f = some g) : g.Structured inFunction := by
  cases storage with
  | localSlot name slot =>
      cases h
      exact ⟨hf, ⟨rfl, rfl, rfl⟩, trivial⟩
  | globalName name =>
      cases h
      exact ⟨hf, (rfl : Opcode.takesConstant .setGlobal = true), trivial⟩
  | builtin name arity => cases h

theorem structured_introduce {storage : Storage} (hf : f.Structured inFunction)
    (h : storage.introduce? f = some g) : g.Structured inFunction := by
  cases storage with
  | localSlot name slot =>
      cases h
      exact hf
  | globalName name =>
      cases h
      exact ⟨hf, (rfl : Opcode.takesConstant .setGlobal = true), trivial⟩
  | builtin name arity => cases h

end Fragment

namespace Resolution

open Fragment

variable {r : Resolution}

mutual

theorem structured_of_lowerExpr {inFunction : Bool} : ∀ (e : Expr) {f : Fragment},
    r.lowerExpr e = .ok f -> f.Structured inFunction
  | .call callee arguments _, f, h => by
      simp only [lowerExpr, bind_eq_ok_iff, pure_eq_ok_iff] at h
      rcases h with ⟨codes, harguments, code, hcallee, rfl⟩
      exact ⟨structured_of_lowerExpr callee hcallee, structured_of_lowerExprs arguments harguments⟩
  | .unary op operand _, f, h => by
      simp only [lowerExpr, bind_eq_ok_iff, pure_eq_ok_iff] at h
      rcases h with ⟨code, hoperand, rfl⟩
      exact structured_unaryOp op (structured_of_lowerExpr operand hoperand)
  | .binary op left right _, f, h => by
      simp only [lowerExpr, bind_eq_ok_iff, pure_eq_ok_iff] at h
      rcases h with ⟨codeLeft, hleft, codeRight, hright, rfl⟩
      exact structured_binaryOp op (structured_of_lowerExpr left hleft)
        (structured_of_lowerExpr right hright)
  | .string text, f, h => by
      cases h
      exact (rfl : Opcode.takesConstant .constant = true)
  | .number value, f, h => by
      cases h
      exact (rfl : Opcode.constant = .constant)
  | .bool value, f, h => by
      cases h
      cases value <;> exact ⟨rfl, rfl, rfl⟩
  | .null, f, h => by
      cases h
      exact ⟨rfl, rfl, rfl⟩
  | .ident name, f, h => by
      simp only [lowerExpr, bind_eq_ok_iff, pure_eq_ok_iff] at h
      rcases h with ⟨storage, _, rfl⟩
      exact structured_read storage
  | .field receiver name, f, h => by
      simp only [lowerExpr, bind_eq_ok_iff, pure_eq_ok_iff] at h
      rcases h with ⟨code, hreceiver, rfl⟩
      exact ⟨structured_of_lowerExpr receiver hreceiver,
        (rfl : Opcode.takesConstant .getField = true), trivial⟩

theorem structured_of_lowerExprs {inFunction : Bool} : ∀ (es : List Expr) {fs : List Fragment},
    r.lowerExprs es = .ok fs -> AllStructured inFunction fs
  | [], fs, h => by
      cases h
      exact trivial
  | e :: rest, fs, h => by
      simp only [lowerExprs, bind_eq_ok_iff, pure_eq_ok_iff] at h
      rcases h with ⟨first, hfirst, others, hothers, rfl⟩
      exact ⟨structured_of_lowerExpr e hfirst, structured_of_lowerExprs rest hothers⟩

end

mutual

theorem structured_of_lowerStmt {inFunction : Bool} : ∀ (s : Stmt) {f : Fragment},
    r.lowerStmt s = .ok f -> f.Structured inFunction
  | .declare name value, f, h => by
      simp only [lowerStmt, bind_eq_ok_iff, introduce_eq_ok_iff] at h
      rcases h with ⟨code, hvalue, storage, _, hcode⟩
      exact structured_introduce (structured_of_lowerExpr value hvalue) hcode
  | .assign target value, f, h => by
      simp only [lowerStmt, bind_eq_ok_iff, assign_eq_ok_iff] at h
      rcases h with ⟨code, hvalue, storage, _, hcode⟩
      exact structured_write (structured_of_lowerExpr value hvalue) hcode
  | .assignField receiver field value, f, h => by
      simp only [lowerStmt, bind_eq_ok_iff, pure_eq_ok_iff] at h
      rcases h with ⟨code, hvalue, codeReceiver, hreceiver, rfl⟩
      exact ⟨structured_of_lowerExpr receiver hreceiver, structured_of_lowerExpr value hvalue,
        (rfl : Opcode.takesConstant .setField = true), trivial⟩
  | .function name params body, f, h => by
      simp only [lowerStmt, bind_eq_ok_iff, introduce_eq_ok_iff, lowerAll_eq_ok_iff] at h
      rcases h with ⟨arity, _, codes, hbody, storage, _, hcode⟩
      apply structured_introduce _ hcode
      exact ⟨structured_of_lowerStmts body hbody, structured_unary ⟨rfl, rfl, rfl⟩ ⟨rfl, rfl, rfl⟩,
        trivial⟩
  | .choose branches none, f, h => by
      simp only [lowerStmt, bind_eq_ok_iff, pure_eq_ok_iff] at h
      rcases h with ⟨codes, hbranches, rfl⟩
      exact ⟨structured_of_lowerBranches branches hbranches, trivial⟩
  | .choose branches (some otherwise), f, h => by
      simp only [lowerStmt, bind_eq_ok_iff, pure_eq_ok_iff] at h
      rcases h with ⟨codes, hbranches, code, hotherwise, rfl⟩
      exact ⟨structured_of_lowerBranches branches hbranches,
        structured_of_lowerBlock otherwise hotherwise⟩
  | .loop condition body, f, h => by
      simp only [lowerStmt, bind_eq_ok_iff, pure_eq_ok_iff] at h
      rcases h with ⟨codeCondition, hcondition, codeBody, hbody, rfl⟩
      exact ⟨structured_of_lowerExpr condition hcondition, structured_of_lowerBlock body hbody⟩
  | .giveBack value _, f, h => by
      simp only [lowerStmt, bind_eq_ok_iff, pure_eq_ok_iff] at h
      rcases h with ⟨code, hvalue, rfl⟩
      exact structured_unary (structured_of_lowerExpr value hvalue) ⟨rfl, rfl, rfl⟩
  | .evaluate value, f, h => by
      simp only [lowerStmt, bind_eq_ok_iff, pure_eq_ok_iff] at h
      rcases h with ⟨code, hvalue, rfl⟩
      exact ⟨structured_of_lowerExpr value hvalue, ⟨rfl, rfl, rfl⟩, trivial⟩
  | .block body, f, h => by
      rw [lowerStmt] at h
      exact structured_of_lowerBlock body h

theorem structured_of_lowerBlock {inFunction : Bool} : ∀ (b : Block) {f : Fragment},
    r.lowerBlock b = .ok f -> f.Structured inFunction
  | { id, statements }, f, h => by
      simp only [lowerBlock, bind_eq_ok_iff, pure_eq_ok_iff, lowerAll_eq_ok_iff] at h
      rcases h with ⟨size, _, codes, hbody, rfl⟩
      exact ⟨structured_of_lowerStmts statements hbody, structured_pops size, trivial⟩

theorem structured_of_lowerStmts {inFunction : Bool} : ∀ (statements : List Stmt)
    {codes : List Fragment},
    List.Forall₂ (fun s code => r.lowerStmt s = .ok code) statements codes ->
    AllStructured inFunction codes
  | [], codes, h => by
      cases h
      exact trivial
  | s :: rest, codes, h => by
      cases h with
      | cons hfirst hrest =>
          exact ⟨structured_of_lowerStmt s hfirst, structured_of_lowerStmts rest hrest⟩

theorem structured_of_lowerBranches {inFunction : Bool} : ∀ (branches : List Branch)
    {codes : List FragmentBranch}, r.lowerBranches branches = .ok codes ->
    BranchesStructured inFunction codes
  | [], codes, h => by
      cases h
      exact trivial
  | { condition, body } :: rest, codes, h => by
      simp only [lowerBranches, bind_eq_ok_iff, pure_eq_ok_iff] at h
      rcases h with ⟨codeCondition, hcondition, codeBody, hbody, others, hothers, rfl⟩
      exact ⟨structured_of_lowerExpr condition hcondition, structured_of_lowerBlock body hbody,
        structured_of_lowerBranches rest hothers⟩

end

end Resolution

/-!
## Definitions
-/

def FunctionDeclaration.LoweredTo (r : Resolution) (fn : FunctionDeclaration) (f : Definition) :
    Prop :=
  f.name = fn.name.name ∧ fn.params.length ≤ 255 ∧ f.arity = UInt8.ofNat fn.params.length ∧
    ∃ codes, List.Forall₂ (fun s code => r.lowerStmt s = .ok code) fn.body codes ∧
      f.body = .sequence [.sequence codes, .giveBack .null]

namespace Fragment

variable {f g : Fragment}

theorem definitions_unaryOp (op : UnaryOp) : (op.lower f).definitions = f.definitions := by
  cases op with
  | not => exact List.append_nil _
  | negate => exact List.append_nil _

theorem definitions_binary (opcode : Opcode) :
    (binary f g opcode).definitions = f.definitions ++ g.definitions := by
  simp [binary, op, definitions, definitionsOfAll]

theorem definitions_binaryOp (op : BinaryOp) :
    (op.lower f g).definitions = f.definitions ++ g.definitions := by
  cases op <;>
    simp [BinaryOp.lower, Fragment.not, unary, Fragment.op, definitions, definitionsOfAll,
      definitions_binary]

theorem definitions_read (storage : Storage) : storage.read.definitions = [] := by
  cases storage <;> simp [Storage.read, getLocal, opWith, getGlobal, definitions]

theorem definitions_write {storage : Storage} (h : storage.write? f = some g) :
    g.definitions = f.definitions := by
  cases storage with
  | localSlot name slot =>
      cases h
      simp [setLocal, opWith, definitions, definitionsOfAll]
  | globalName name =>
      cases h
      simp [setGlobal, definitions, definitionsOfAll]
  | builtin name arity => cases h

theorem definitions_introduce {storage : Storage} (h : storage.introduce? f = some g) :
    g.definitions = f.definitions := by
  cases storage with
  | localSlot name slot =>
      cases h
      rfl
  | globalName name =>
      cases h
      simp [setGlobal, definitions, definitionsOfAll]
  | builtin name arity => cases h

theorem definitions_pops (count : Nat) : (pops count).definitions = [] := by
  rw [pops, definitions]
  induction count with
  | zero => rfl
  | succ count ih =>
      rw [List.replicate_succ, definitionsOfAll, ih]
      simp [pop, op, definitions]

end Fragment

namespace Resolution

open Fragment

variable {r : Resolution}

mutual

theorem definitions_of_lowerExpr : ∀ (e : Expr) {f : Fragment},
    r.lowerExpr e = .ok f -> f.definitions = []
  | .call callee arguments _, f, h => by
      simp only [lowerExpr, bind_eq_ok_iff, pure_eq_ok_iff] at h
      rcases h with ⟨codes, harguments, code, hcallee, rfl⟩
      rw [definitions, definitions_of_lowerExpr callee hcallee,
        definitions_of_lowerExprs arguments harguments, List.append_nil]
  | .unary op operand _, f, h => by
      simp only [lowerExpr, bind_eq_ok_iff, pure_eq_ok_iff] at h
      rcases h with ⟨code, hoperand, rfl⟩
      rw [definitions_unaryOp, definitions_of_lowerExpr operand hoperand]
  | .binary op left right _, f, h => by
      simp only [lowerExpr, bind_eq_ok_iff, pure_eq_ok_iff] at h
      rcases h with ⟨codeLeft, hleft, codeRight, hright, rfl⟩
      rw [definitions_binaryOp, definitions_of_lowerExpr left hleft,
        definitions_of_lowerExpr right hright, List.append_nil]
  | .string text, f, h => by
      cases h
      rfl
  | .number value, f, h => by
      cases h
      rfl
  | .bool value, f, h => by
      cases h
      rfl
  | .null, f, h => by
      cases h
      rfl
  | .ident name, f, h => by
      simp only [lowerExpr, bind_eq_ok_iff, pure_eq_ok_iff] at h
      rcases h with ⟨storage, _, rfl⟩
      exact definitions_read storage
  | .field receiver name, f, h => by
      simp only [lowerExpr, bind_eq_ok_iff, pure_eq_ok_iff] at h
      rcases h with ⟨code, hreceiver, rfl⟩
      simp [getField, definitions, definitionsOfAll, definitions_of_lowerExpr receiver hreceiver]

theorem definitions_of_lowerExprs : ∀ (es : List Expr) {fs : List Fragment},
    r.lowerExprs es = .ok fs -> definitionsOfAll fs = []
  | [], fs, h => by
      cases h
      rfl
  | e :: rest, fs, h => by
      simp only [lowerExprs, bind_eq_ok_iff, pure_eq_ok_iff] at h
      rcases h with ⟨first, hfirst, others, hothers, rfl⟩
      rw [definitionsOfAll, definitions_of_lowerExpr e hfirst,
        definitions_of_lowerExprs rest hothers, List.append_nil]

end

mutual

theorem definitions_of_lowerStmt : ∀ (s : Stmt) {f : Fragment}, r.lowerStmt s = .ok f ->
    List.Forall₂ (FunctionDeclaration.LoweredTo r) s.functions f.definitions
  | .declare name value, f, h => by
      simp only [lowerStmt, bind_eq_ok_iff, introduce_eq_ok_iff] at h
      rcases h with ⟨code, hvalue, storage, _, hcode⟩
      rw [definitions_introduce hcode, definitions_of_lowerExpr value hvalue]
      exact .nil
  | .assign target value, f, h => by
      simp only [lowerStmt, bind_eq_ok_iff, assign_eq_ok_iff] at h
      rcases h with ⟨code, hvalue, storage, _, hcode⟩
      rw [definitions_write hcode, definitions_of_lowerExpr value hvalue]
      exact .nil
  | .assignField receiver field value, f, h => by
      simp only [lowerStmt, bind_eq_ok_iff, pure_eq_ok_iff] at h
      rcases h with ⟨code, hvalue, codeReceiver, hreceiver, rfl⟩
      simp [setField, definitions, definitionsOfAll, definitions_of_lowerExpr value hvalue,
        definitions_of_lowerExpr receiver hreceiver, Stmt.functions]
  | .function name params body, f, h => by
      simp only [lowerStmt, bind_eq_ok_iff, introduce_eq_ok_iff, lowerAll_eq_ok_iff,
        arity_eq_ok_iff] at h
      rcases h with ⟨arity, ⟨hcount, rfl⟩, codes, hbody, storage, _, hcode⟩
      rw [definitions_introduce hcode, definitions, Stmt.functions]
      refine .cons ⟨rfl, hcount, rfl, codes, hbody, rfl⟩ ?_
      simpa [definitions, definitionsOfAll, giveBack, unary, null, op]
        using definitions_of_lowerStmts body hbody
  | .choose branches none, f, h => by
      simp only [lowerStmt, bind_eq_ok_iff, pure_eq_ok_iff] at h
      rcases h with ⟨codes, hbranches, rfl⟩
      rw [definitions, Stmt.functions]
      exact List.rel_append (definitions_of_lowerBranches branches hbranches) .nil
  | .choose branches (some otherwise), f, h => by
      simp only [lowerStmt, bind_eq_ok_iff, pure_eq_ok_iff] at h
      rcases h with ⟨codes, hbranches, code, hotherwise, rfl⟩
      rw [definitions, Stmt.functions]
      exact List.rel_append (definitions_of_lowerBranches branches hbranches)
        (definitions_of_lowerBlock otherwise hotherwise)
  | .loop condition body, f, h => by
      simp only [lowerStmt, bind_eq_ok_iff, pure_eq_ok_iff] at h
      rcases h with ⟨codeCondition, hcondition, codeBody, hbody, rfl⟩
      rw [definitions, definitions_of_lowerExpr condition hcondition, Stmt.functions]
      exact definitions_of_lowerBlock body hbody
  | .giveBack value _, f, h => by
      simp only [lowerStmt, bind_eq_ok_iff, pure_eq_ok_iff] at h
      rcases h with ⟨code, hvalue, rfl⟩
      simp [giveBack, unary, op, definitions, definitionsOfAll,
        definitions_of_lowerExpr value hvalue, Stmt.functions]
  | .evaluate value, f, h => by
      simp only [lowerStmt, bind_eq_ok_iff, pure_eq_ok_iff] at h
      rcases h with ⟨code, hvalue, rfl⟩
      simp [pop, op, definitions, definitionsOfAll, definitions_of_lowerExpr value hvalue,
        Stmt.functions]
  | .block body, f, h => by
      rw [lowerStmt] at h
      rw [Stmt.functions]
      exact definitions_of_lowerBlock body h

theorem definitions_of_lowerBlock : ∀ (b : Block) {f : Fragment}, r.lowerBlock b = .ok f ->
    List.Forall₂ (FunctionDeclaration.LoweredTo r) b.functions f.definitions
  | { id, statements }, f, h => by
      simp only [lowerBlock, bind_eq_ok_iff, pure_eq_ok_iff, lowerAll_eq_ok_iff] at h
      rcases h with ⟨size, _, codes, hbody, rfl⟩
      rw [Block.functions]
      simpa [definitions, definitionsOfAll, definitions_pops]
        using definitions_of_lowerStmts statements hbody

theorem definitions_of_lowerStmts : ∀ (statements : List Stmt) {codes : List Fragment},
    List.Forall₂ (fun s code => r.lowerStmt s = .ok code) statements codes ->
    List.Forall₂ (FunctionDeclaration.LoweredTo r) (functionsOfAll statements)
      (definitionsOfAll codes)
  | [], codes, h => by
      cases h
      exact .nil
  | s :: rest, codes, h => by
      cases h with
      | cons hfirst hrest =>
          rw [functionsOfAll, definitionsOfAll]
          exact List.rel_append (definitions_of_lowerStmt s hfirst)
            (definitions_of_lowerStmts rest hrest)

theorem definitions_of_lowerBranches : ∀ (branches : List Branch) {codes : List FragmentBranch},
    r.lowerBranches branches = .ok codes ->
    List.Forall₂ (FunctionDeclaration.LoweredTo r) (functionsOfBranches branches)
      (definitionsOfBranches codes)
  | [], codes, h => by
      cases h
      exact .nil
  | { condition, body } :: rest, codes, h => by
      simp only [lowerBranches, bind_eq_ok_iff, pure_eq_ok_iff] at h
      rcases h with ⟨codeCondition, hcondition, codeBody, hbody, others, hothers, rfl⟩
      rw [functionsOfBranches, definitionsOfBranches,
        definitions_of_lowerExpr condition hcondition]
      exact List.rel_append (definitions_of_lowerBlock body hbody)
        (definitions_of_lowerBranches rest hothers)

end

end Resolution

theorem FunctionDeclaration.LoweredTo.structured {r : Resolution} {fn : FunctionDeclaration}
    {f : Definition} (h : fn.LoweredTo r f) : f.body.Structured true := by
  rcases h with ⟨_, _, _, codes, hcodes, hbody⟩
  rw [hbody]
  exact ⟨Resolution.structured_of_lowerStmts _ hcodes,
    Fragment.structured_unary ⟨rfl, rfl, rfl⟩ ⟨rfl, rfl, rfl⟩, trivial⟩

/-!
## Built-in functions
-/

namespace Builtin

open Fragment

def HasStandardCode (b : Builtin) : Prop :=
  ∃ standard ∈ Builtin.standard, b.code = standard.code

theorem structured_of_mem_standard {b : Builtin} (h : b ∈ standard) :
    b.code.Structured true := by
  simp only [standard, List.mem_cons, List.not_mem_nil, or_false] at h
  rcases h with rfl | rfl | rfl
  · have hinput : (getLocal 1).Structured true := ⟨rfl, rfl, rfl⟩
    have hone : (int 1).Structured true := (rfl : Opcode.constant = .constant)
    have htest : (ifThen (binary (getLocal 1) (int 1) .equal) (giveBack (int 1))).Structured true :=
      ⟨⟨structured_binary hinput hone ⟨rfl, rfl, rfl⟩, structured_unary hone ⟨rfl, rfl, rfl⟩,
        trivial⟩, trivial⟩
    have hcall : (call self [binary (getLocal 1) (int 1) .subtract]).Structured true :=
      ⟨rfl, structured_binary hinput hone ⟨rfl, rfl, rfl⟩, trivial⟩
    exact ⟨htest, structured_unary (structured_binary hinput hcall ⟨rfl, rfl, rfl⟩)
      ⟨rfl, rfl, rfl⟩, trivial⟩
  · have hinput : (getLocal 1).Structured true := ⟨rfl, rfl, rfl⟩
    exact ⟨structured_unary hinput ⟨rfl, rfl, rfl⟩,
      structured_unary ⟨rfl, rfl, rfl⟩ ⟨rfl, rfl, rfl⟩, trivial⟩
  · exact structured_unary ⟨rfl, rfl, rfl⟩ ⟨rfl, rfl, rfl⟩

theorem definitions_of_mem_standard {b : Builtin} (h : b ∈ standard) :
    b.code.definitions = [] := by
  simp only [standard, List.mem_cons, List.not_mem_nil, or_false] at h
  rcases h with rfl | rfl | rfl <;> rfl

end Builtin
end StackScript
