import StackScript.Proofs.ParsedMarks
import StackScript.Proofs.SlotLayout
import StackScript.Proofs.StackDepth

/-!
# The stack discipline of programs

Compiled code keeps the stack in order.  An expression leaves one cell more than
it found; between two statements the cells in use are the slots that the
resolver has given out, no more and no less.  So each place of the code has one
depth, whichever way control comes there.
-/

namespace StackScript

open Item

/-!
## Where locals get their first values
-/

def itemsOf : Except CompileError Fragment -> List Item
  | .ok f => f.items
  | .error _ => []

namespace Resolution

def localSite (r : Resolution) (name : Identifier) (items : List Item) (start : Nat) : List Site :=
  match r.storage? name with
  | some (.localSlot _ slot) => [{ start, items, slot := slot.toNat }]
  | _ => []

mutual

/-- The sites of the locals that a statement declares, when its code has the
given start.  A function inside it has code of its own. -/
def stmtSites (r : Resolution) : Stmt -> Nat -> List Site
  | .declare name value => r.localSite name (itemsOf (r.lowerExpr value))
  | .function name _ _ => r.localSite name [.function]
  | .choose branches none => r.branchesSites noSites branches
  | .choose branches (some otherwise) => r.branchesSites (r.blockSites otherwise) branches
  | .loop condition body => fun start =>
      r.blockSites body (start + total (itemsOf (r.lowerExpr condition)) + 3)
  | .block body => r.blockSites body
  | _ => noSites

def blockSites (r : Resolution) : Block -> Nat -> List Site
  | { statements, .. } => r.stmtsSites statements

def stmtsSites (r : Resolution) : List Stmt -> Nat -> List Site
  | [] => noSites
  | s :: rest => fun start =>
      r.stmtSites s start ++ r.stmtsSites rest (start + total (itemsOf (r.lowerStmt s)))

def branchesSites (r : Resolution) (otherwise : Nat -> List Site) : List Branch -> Nat -> List Site
  | [] => otherwise
  | { condition, body } :: rest => fun start =>
      r.blockSites body (start + total (itemsOf (r.lowerExpr condition)) + 3) ++
        r.branchesSites otherwise rest (start + total (itemsOf (r.lowerExpr condition)) +
          total (itemsOf (r.lowerBlock body)) + 6)

end

end Resolution

/-!
## Expressions
-/

namespace Fragment

variable {f g : Fragment} {depth : Nat} {opcode : Opcode}

theorem carries_unary (hdepth : 0 < depth) (hf : Carries f.items depth (depth + 1) noSites)
    (hopcode : opcode.isStraight = true) (hpops : opcode.pops = 1) :
    Carries (unary f opcode).items depth (depth + opcode.pushes) noSites := by
  have hop : Carries [.plain { opcode := opcode }] (depth + 1)
      (depth + 1 - opcode.pops + opcode.pushes) noSites := .op hopcode (by omega)
  rw [hpops] at hop
  exact hf.seq hop

theorem carries_binary (hdepth : 0 < depth) (hf : Carries f.items depth (depth + 1) noSites)
    (hg : Carries g.items (depth + 1) (depth + 2) noSites) (hopcode : opcode.isStraight = true)
    (hpops : opcode.pops = 2) (hpushes : opcode.pushes = 1) :
    Carries (binary f g opcode).items depth (depth + 1) noSites := by
  have hop : Carries [.plain { opcode := opcode }] (depth + 2)
      (depth + 2 - opcode.pops + opcode.pushes) noSites := .op hopcode (by omega)
  rw [hpops, hpushes] at hop
  exact hf.seq (hg.seq hop)

theorem carries_unaryOp (hdepth : 0 < depth) (hf : Carries f.items depth (depth + 1) noSites)
    (op : UnaryOp) : Carries (op.lower f).items depth (depth + 1) noSites := by
  cases op with
  | not => exact carries_unary hdepth hf rfl rfl
  | negate => exact carries_unary hdepth hf rfl rfl

/-- The right operand of a short-circuit operator starts with the left one gone;
that of any other has it below. -/
theorem carries_binaryOp (hdepth : 0 < depth) (hf : Carries f.items depth (depth + 1) noSites)
    (hg : Carries g.items depth (depth + 1) noSites)
    (hg' : Carries g.items (depth + 1) (depth + 2) noSites) (op : BinaryOp) :
    Carries (op.lower f g).items depth (depth + 1) noSites := by
  have hbinary : ∀ {opcode : Opcode}, opcode.isStraight = true -> opcode.pops = 2 ->
      opcode.pushes = 1 -> Carries (binary f g opcode).items depth (depth + 1) noSites :=
    fun hopcode hpops hpushes => carries_binary hdepth hf hg' hopcode hpops hpushes
  cases op with
  | and => exact Carries.both hdepth hf hg
  | or => exact Carries.either hdepth hf hg
  | greaterEqual => exact carries_unary hdepth (hbinary rfl rfl rfl) rfl rfl
  | lessEqual => exact carries_unary hdepth (hbinary rfl rfl rfl) rfl rfl
  | notEqual => exact carries_unary hdepth (hbinary rfl rfl rfl) rfl rfl
  | add => exact hbinary rfl rfl rfl
  | subtract => exact hbinary rfl rfl rfl
  | multiply => exact hbinary rfl rfl rfl
  | divide => exact hbinary rfl rfl rfl
  | greater => exact hbinary rfl rfl rfl
  | less => exact hbinary rfl rfl rfl
  | equal => exact hbinary rfl rfl rfl

theorem carries_pops (hdepth : 0 < depth) (count : Nat) :
    Carries (pops count).items (depth + count) depth noSites := by
  induction count with
  | zero => exact .nil depth
  | succ count ih =>
      have hpop : Carries [.pop] (depth + count + 1) (depth + count) noSites := .pop (by omega)
      exact hpop.seq ih

end Fragment

namespace Resolution

open Fragment

variable {r : Resolution} {scopes after : ScopeStack}

theorem carries_read {name : Identifier} {storage : Storage} {depth : Nat}
    (hname : r.Uses scopes name) (hlaid : scopes.Laid) (hdepth : scopes.height ≤ depth)
    (hstorage : r.storage? name = some storage) :
    Carries storage.read.items depth (depth + 1) noSites := by
  have hlookup := hname.lookup_eq hstorage
  have hpos : 0 < depth := Nat.lt_of_lt_of_le (Nat.succ_pos _) hdepth
  cases storage with
  | localSlot text slot =>
      rcases hlaid.slot_of_lookup hlookup with ⟨hfirst, hslot⟩
      exact .getLocal hfirst (Nat.lt_of_lt_of_le hslot hdepth)
  | globalName text => exact Carries.pooled rfl hpos
  | builtin text arity => exact .function hpos

mutual

/-- The code of an expression leaves one value over the cells that it found,
which can be more than those of the locals. -/
theorem carries_expr : ∀ (e : Expr) {f : Fragment} {depth : Nat}, r.ResolvesExpr scopes e ->
    scopes.Laid -> scopes.height ≤ depth -> r.lowerExpr e = .ok f ->
    Carries f.items depth (depth + 1) noSites
  | .call callee arguments _, f, depth, hnames, hlaid, hdepth, h => by
      simp only [lowerExpr, bind_eq_ok_iff, pure_eq_ok_iff] at h
      rcases h with ⟨codes, harguments, code, hcallee, rfl⟩
      have hcallee := carries_expr callee hnames.1 hlaid hdepth hcallee
      have harguments := carries_exprs arguments hnames.2 hlaid
        (Nat.le_succ_of_le hdepth) harguments
      have hpos : 0 < depth := Nat.lt_of_lt_of_le (Nat.succ_pos _) hdepth
      exact (hcallee.seq harguments).seq (.call hpos)
  | .unary op operand _, f, depth, hnames, hlaid, hdepth, h => by
      simp only [lowerExpr, bind_eq_ok_iff, pure_eq_ok_iff] at h
      rcases h with ⟨code, hoperand, rfl⟩
      exact carries_unaryOp (Nat.lt_of_lt_of_le (Nat.succ_pos _) hdepth)
        (carries_expr operand hnames hlaid hdepth hoperand) op
  | .binary op left right _, f, depth, hnames, hlaid, hdepth, h => by
      simp only [lowerExpr, bind_eq_ok_iff, pure_eq_ok_iff] at h
      rcases h with ⟨codeLeft, hleft, codeRight, hright, rfl⟩
      exact carries_binaryOp (Nat.lt_of_lt_of_le (Nat.succ_pos _) hdepth)
        (carries_expr left hnames.1 hlaid hdepth hleft)
        (carries_expr right hnames.2 hlaid hdepth hright)
        (carries_expr right hnames.2 hlaid (Nat.le_succ_of_le hdepth) hright) op
  | .string text, f, depth, _, _, hdepth, h => by
      cases h
      exact Carries.pooled rfl (Nat.lt_of_lt_of_le (Nat.succ_pos _) hdepth)
  | .number value, f, depth, _, _, hdepth, h => by
      cases h
      exact Carries.pooled rfl (Nat.lt_of_lt_of_le (Nat.succ_pos _) hdepth)
  | .bool value, f, depth, _, _, hdepth, h => by
      cases h
      cases value <;> exact Carries.op rfl (Nat.lt_of_lt_of_le (Nat.succ_pos _) hdepth)
  | .null, f, depth, _, _, hdepth, h => by
      cases h
      exact Carries.op rfl (Nat.lt_of_lt_of_le (Nat.succ_pos _) hdepth)
  | .ident name, f, depth, hnames, hlaid, hdepth, h => by
      simp only [lowerExpr, bind_eq_ok_iff, pure_eq_ok_iff, storage_eq_ok_iff] at h
      rcases h with ⟨storage, hstorage, rfl⟩
      exact carries_read hnames hlaid hdepth hstorage
  | .field receiver name, f, depth, hnames, hlaid, hdepth, h => by
      simp only [lowerExpr, bind_eq_ok_iff, pure_eq_ok_iff] at h
      rcases h with ⟨code, hreceiver, rfl⟩
      have hreceiver := carries_expr receiver hnames hlaid hdepth hreceiver
      have hpos : 0 < depth := Nat.lt_of_lt_of_le (Nat.succ_pos _) hdepth
      have hfield : Carries [.pooled .getField (.string name.name)] (depth + 1) (depth + 1)
          noSites := .pooled rfl (Nat.succ_lt_succ hpos)
      exact hreceiver.seq hfield

theorem carries_exprs : ∀ (es : List Expr) {fs : List Fragment} {depth : Nat},
    r.ResolvesExprs scopes es -> scopes.Laid -> scopes.height ≤ depth ->
    r.lowerExprs es = .ok fs -> Carries (itemsOfAll fs) depth (depth + fs.length) noSites
  | [], fs, depth, _, _, _, h => by
      cases h
      exact .nil depth
  | e :: rest, fs, depth, hnames, hlaid, hdepth, h => by
      simp only [lowerExprs, bind_eq_ok_iff, pure_eq_ok_iff] at h
      rcases h with ⟨first, hfirst, others, hothers, rfl⟩
      have hfirst := carries_expr e hnames.1 hlaid hdepth hfirst
      have hothers := carries_exprs rest hnames.2 hlaid (Nat.le_succ_of_le hdepth) hothers
      rw [List.length_cons, Nat.add_comm others.length, ← Nat.add_assoc]
      exact hfirst.seq hothers

end

/-!
## Statements
-/

theorem carries_introduce {name : Identifier} {value f : Fragment}
    (hname : r.Declares scopes name after) (hlaid : scopes.Laid)
    (hvalue : Carries value.items scopes.height (scopes.height + 1) noSites)
    (h : r.introduce name value = .ok f) :
    Carries f.items scopes.height after.height (r.localSite name value.items) := by
  rcases introduce_cases hname hlaid h with
    ⟨hinner, hinner', hstorage, rfl⟩ | ⟨_, hheight, ⟨slot, hstorage, hslot⟩, rfl⟩
  · have hsites : r.localSite name value.items = noSites := by
      funext start
      rw [localSite, hstorage]
      rfl
    have hheight : scopes.height = 1 ∧ after.height = 1 := by
      simp only [ScopeStack.height, ScopeStack.frame, hinner, hinner']
      exact ⟨rfl, rfl⟩
    have hset : Carries [.pooled .setGlobal (.string name.name)] 2 1 noSites :=
      .pooled rfl (Nat.lt_succ_self 1)
    rw [hheight.1] at hvalue ⊢
    rw [hheight.2, hsites]
    exact hvalue.seq hset
  · have hsites : r.localSite name f.items =
        fun start => [{ start, items := f.items, slot := scopes.height }] := by
      funext start
      rw [localSite, hstorage]
      simp only [hslot]
    rw [hheight, hsites]
    exact hvalue.mark

theorem carries_assign {target : Identifier} {value f : Fragment}
    (htarget : r.Uses scopes target) (hlaid : scopes.Laid)
    (hvalue : Carries value.items scopes.height (scopes.height + 1) noSites)
    (h : r.assign target value = .ok f) :
    Carries f.items scopes.height scopes.height noSites := by
  rcases exists_write_of_assign htarget h with ⟨storage, hlookup, hcode⟩
  cases storage with
  | localSlot text slot =>
      cases hcode
      rcases hlaid.slot_of_lookup hlookup with ⟨hfirst, hslot⟩
      exact hvalue.seq (.setLocal hfirst hslot)
  | globalName text =>
      cases hcode
      have hset : Carries [.pooled .setGlobal (.string text)] (scopes.height + 1) scopes.height
          noSites := .pooled rfl (Nat.succ_lt_succ (Nat.succ_pos _))
      exact hvalue.seq hset
  | builtin text arity => cases hcode

mutual

/-- The code of a statement leaves the slots of the scopes behind it in use. -/
theorem carries_stmt : ∀ (s : Stmt) {scopes after : ScopeStack} {f : Fragment},
    r.ResolvesStmt scopes s after -> scopes.Laid -> r.lowerStmt s = .ok f ->
    Carries f.items scopes.height after.height (r.stmtSites s)
  | .declare name value, scopes, after, f, .declare hvalue hname, hlaid, h => by
      simp only [lowerStmt, bind_eq_ok_iff] at h
      rcases h with ⟨code, hcode, h⟩
      have hvalue := carries_expr value hvalue hlaid (Nat.le_refl _) hcode
      rw [stmtSites, hcode]
      exact carries_introduce hname hlaid hvalue h
  | .assign target value, _, _, f, .assign htarget hvalue, hlaid, h => by
      simp only [lowerStmt, bind_eq_ok_iff] at h
      rcases h with ⟨code, hcode, h⟩
      exact carries_assign htarget hlaid (carries_expr value hvalue hlaid (Nat.le_refl _) hcode) h
  | .assignField receiver field value, scopes, _, f, .assignField hreceiver hvalue, hlaid, h => by
      simp only [lowerStmt, bind_eq_ok_iff, pure_eq_ok_iff] at h
      rcases h with ⟨code, hcode, codeReceiver, hcodeReceiver, rfl⟩
      have hreceiver := carries_expr receiver hreceiver hlaid (Nat.le_refl _) hcodeReceiver
      have hvalue := carries_expr value hvalue hlaid (Nat.le_succ _) hcode
      have hset : Carries [.pooled .setField (.string field.name)] (scopes.height + 2)
          scopes.height noSites := .pooled rfl (Nat.add_lt_add_right (Nat.succ_pos _) 2)
      exact hreceiver.seq (hvalue.seq hset)
  | .function name params body, scopes, after, f, .function hname _ _, hlaid, h => by
      simp only [lowerStmt, bind_eq_ok_iff] at h
      rcases h with ⟨arity, _, codes, _, h⟩
      rw [stmtSites]
      refine carries_introduce hname hlaid ?_ h
      exact .function (Nat.succ_pos _)
  | .choose branches none, _, _, f, .choose hbranches _, hlaid, h => by
      simp only [lowerStmt, bind_eq_ok_iff, pure_eq_ok_iff] at h
      rcases h with ⟨codes, hcodes, rfl⟩
      rw [stmtSites]
      exact carries_branches branches hbranches hlaid hcodes (.nil _)
  | .choose branches (some otherwise), _, _, f, .choose hbranches (.some hotherwise), hlaid, h => by
      simp only [lowerStmt, bind_eq_ok_iff, pure_eq_ok_iff] at h
      rcases h with ⟨codes, hcodes, code, hcode, rfl⟩
      rw [stmtSites]
      exact carries_branches branches hbranches hlaid hcodes
        (carries_block otherwise hotherwise hlaid hcode)
  | .loop condition body, _, _, f, .loop hcondition hbody, hlaid, h => by
      simp only [lowerStmt, bind_eq_ok_iff, pure_eq_ok_iff] at h
      rcases h with ⟨codeCondition, hcodeCondition, codeBody, hcodeBody, rfl⟩
      have hcondition := carries_expr condition hcondition hlaid (Nat.le_refl _) hcodeCondition
      have hbody := carries_block body hbody hlaid hcodeBody
      rw [stmtSites, hcodeCondition]
      exact hcondition.loop (Nat.succ_pos _) hbody
  | .giveBack value _, _, _, f, .giveBack hvalue, hlaid, h => by
      simp only [lowerStmt, bind_eq_ok_iff, pure_eq_ok_iff] at h
      rcases h with ⟨code, hcode, rfl⟩
      have hvalue := carries_expr value hvalue hlaid (Nat.le_refl _) hcode
      exact hvalue.seq (.giveBack (Nat.succ_lt_succ (Nat.succ_pos _)) _)
  | .evaluate value, _, _, f, .evaluate hvalue, hlaid, h => by
      simp only [lowerStmt, bind_eq_ok_iff, pure_eq_ok_iff] at h
      rcases h with ⟨code, hcode, rfl⟩
      have hvalue := carries_expr value hvalue hlaid (Nat.le_refl _) hcode
      exact hvalue.seq (.pop (Nat.succ_pos _))
  | .block body, _, _, f, .block hbody, hlaid, h => by
      rw [lowerStmt] at h
      rw [stmtSites]
      exact carries_block body hbody hlaid h

theorem carries_block : ∀ (b : Block) {scopes : ScopeStack} {f : Fragment},
    r.ResolvesBlock scopes b -> scopes.Laid -> r.lowerBlock b = .ok f ->
    Carries f.items scopes.height scopes.height (r.blockSites b)
  | { id, statements }, scopes, f, @ResolvesBlock.braces _ _ scope _ _ hbody hsize, hlaid, h => by
      simp only [lowerBlock, bind_eq_ok_iff, pure_eq_ok_iff, lowerAll_eq_ok_iff,
        blockSize_eq_ok_iff] at h
      rcases h with ⟨size, hsize', codes, hcodes, rfl⟩
      rw [hsize] at hsize'
      cases hsize'
      have hbody' := carries_stmts statements hbody hlaid.pushBlock.1 hcodes
      rw [closed_of_resolvesAll hbody hlaid, ScopeStack.height, hlaid.pushBlock.2] at hbody'
      have hpops := carries_pops (Nat.succ_pos scopes.frame.length) scope.locals
      simp only [items, itemsOfAll, List.append_nil]
      rw [blockSites]
      exact hbody'.followed hpops

theorem carries_stmts : ∀ (statements : List Stmt) {scopes after : ScopeStack}
    {codes : List Fragment}, r.ResolvesAll scopes statements after -> scopes.Laid ->
    List.Forall₂ (fun s code => r.lowerStmt s = .ok code) statements codes ->
    Carries (itemsOfAll codes) scopes.height after.height (r.stmtsSites statements)
  | [], _, _, codes, .nil, _, h => by
      cases h
      exact .nil _
  | s :: rest, _, _, codes, .cons hfirst hrest, hlaid, h => by
      cases h with
      | cons hcode hcodes =>
          have hs := carries_stmt s hfirst hlaid hcode
          have hothers := carries_stmts rest hrest (laid_of_resolvesStmt hfirst hlaid) hcodes
          rw [stmtsSites, hcode]
          exact hs.append hothers

theorem carries_branches : ∀ (branches : List Branch) {scopes : ScopeStack}
    {codes : List FragmentBranch} {otherwise : Fragment} {sites : Nat -> List Site},
    r.ResolvesBranches scopes branches -> scopes.Laid -> r.lowerBranches branches = .ok codes ->
    Carries otherwise.items scopes.height scopes.height sites ->
    Carries (choose codes otherwise).items scopes.height scopes.height
      (r.branchesSites sites branches)
  | [], _, codes, otherwise, _, _, _, h, hotherwise => by
      cases h
      exact hotherwise
  | { condition, body } :: rest, scopes, codes, otherwise, _, .cons hcondition hbody hrest, hlaid,
      h, hotherwise => by
      simp only [lowerBranches, bind_eq_ok_iff, pure_eq_ok_iff] at h
      rcases h with ⟨codeCondition, hcodeCondition, codeBody, hcodeBody, others, hothers, rfl⟩
      have hcondition := carries_expr condition hcondition hlaid (Nat.le_refl _) hcodeCondition
      have hbody := carries_block body hbody hlaid hcodeBody
      have hothers := carries_branches rest hrest hlaid hothers hotherwise
      rw [branchesSites, hcodeCondition, hcodeBody, items_choose_cons]
      exact hcondition.branch (Nat.succ_pos _) hbody hothers

end

end Resolution

/-!
## Functions
-/

/-- The names of the body stand for what some scopes know in which the
parameters are the only locals. -/
def FunctionDeclaration.Resolved (r : Resolution) (fn : FunctionDeclaration) : Prop :=
  ∃ scopes after, scopes.Laid ∧ scopes.height = 1 + fn.params.length ∧
    r.ResolvesAll scopes fn.body after

namespace Resolution

variable {r : Resolution}

mutual

theorem resolved_of_mem_stmt : ∀ (s : Stmt) {scopes after : ScopeStack},
    r.ResolvesStmt scopes s after -> scopes.Laid -> ∀ fn ∈ s.functions, fn.Resolved r
  | .function name params body, scopes, after, .function hname hparams hbody, hlaid => by
      have hafter := laid_of_declares hname hlaid
      rcases laid_of_declaresAll hparams hafter.pushFunction.1 (List.cons_ne_nil _ _) with
        ⟨hopened, hheight⟩
      have hempty : after.pushFunction.height = 1 := by
        rw [ScopeStack.height, hafter.pushFunction.2]
        rfl
      rw [hempty] at hheight
      rw [Stmt.functions, List.forall_mem_cons]
      exact ⟨⟨_, _, hopened, hheight, hbody⟩, resolved_of_mem_stmts body hbody hopened⟩
  | .choose branches none, _, _, .choose hbranches _, hlaid => by
      rw [Stmt.functions, List.append_nil]
      exact resolved_of_mem_branches branches hbranches hlaid
  | .choose branches (some otherwise), _, _, .choose hbranches (.some hotherwise), hlaid => by
      rw [Stmt.functions, List.forall_mem_append]
      exact ⟨resolved_of_mem_branches branches hbranches hlaid,
        resolved_of_mem_block otherwise hotherwise hlaid⟩
  | .loop _ body, _, _, .loop _ hbody, hlaid => by
      rw [Stmt.functions]
      exact resolved_of_mem_block body hbody hlaid
  | .block body, _, _, .block hbody, hlaid => by
      rw [Stmt.functions]
      exact resolved_of_mem_block body hbody hlaid
  | .declare _ _, _, _, _, _ => by nofun
  | .assign _ _, _, _, _, _ => by nofun
  | .assignField _ _ _, _, _, _, _ => by nofun
  | .giveBack _ _, _, _, _, _ => by nofun
  | .evaluate _, _, _, _, _ => by nofun

theorem resolved_of_mem_block : ∀ (b : Block) {scopes : ScopeStack},
    r.ResolvesBlock scopes b -> scopes.Laid -> ∀ fn ∈ b.functions, fn.Resolved r
  | { id, statements }, _, .braces hbody _, hlaid => by
      rw [Block.functions]
      exact resolved_of_mem_stmts statements hbody hlaid.pushBlock.1

theorem resolved_of_mem_stmts : ∀ (statements : List Stmt) {scopes after : ScopeStack},
    r.ResolvesAll scopes statements after -> scopes.Laid ->
    ∀ fn ∈ functionsOfAll statements, fn.Resolved r
  | [], _, _, _, _ => by nofun
  | s :: rest, _, _, .cons hfirst hrest, hlaid => by
      rw [functionsOfAll, List.forall_mem_append]
      exact ⟨resolved_of_mem_stmt s hfirst hlaid,
        resolved_of_mem_stmts rest hrest (laid_of_resolvesStmt hfirst hlaid)⟩

theorem resolved_of_mem_branches : ∀ (branches : List Branch) {scopes : ScopeStack},
    r.ResolvesBranches scopes branches -> scopes.Laid ->
    ∀ fn ∈ functionsOfBranches branches, fn.Resolved r
  | [], _, _, _ => by nofun
  | { condition, body } :: rest, _, .cons _ hbody hrest, hlaid => by
      rw [functionsOfBranches, List.forall_mem_append]
      exact ⟨resolved_of_mem_block body hbody hlaid, resolved_of_mem_branches rest hrest hlaid⟩

end

end Resolution

/-!
## Compiled programs
-/

/-- The code keeps the stack in order; if it gets to its end, then with nothing
but the lowest cell in use. -/
def Chunk.DisciplinedMain (chunk : Chunk) (sites : List Site) : Prop :=
  ∃ depth, Disciplined chunk.code 0 depth ∧ depth chunk.code.length = 1 ∧
    ∀ site ∈ sites, site.Right chunk depth

/-- The code keeps the stack in order and never gets to its end. -/
def Chunk.DisciplinedFunction (chunk : Chunk) (arity : Nat) (sites : List Site) : Prop :=
  ∃ depth, Disciplined chunk.code arity depth ∧ ¬ Reachable chunk.code chunk.code.length ∧
    ∀ site ∈ sites, site.Right chunk depth

theorem FunctionDeclaration.LoweredTo.disciplined {r : Resolution} {fn : FunctionDeclaration}
    {f : Definition} {chunk : Chunk} (h : fn.LoweredTo r f) (hresolved : fn.Resolved r)
    (hchunk : f.FinishedAs chunk) :
    chunk.DisciplinedFunction fn.params.length (r.stmtsSites fn.body 0) := by
  have hholds := hchunk.2 h.structured
  rcases h with ⟨_, _, _, codes, hcodes, hbody⟩
  rcases hresolved with ⟨scopes, after, hlaid, hheight, hnames⟩
  have hbodyCarries := Resolution.carries_stmts fn.body hnames hlaid hcodes
  rw [hheight] at hbodyCarries
  have hnull : Carries [.plain { opcode := .null }] after.height (after.height + 1) noSites :=
    .op rfl (Nat.succ_pos _)
  apply disciplined_of_carries_giveBack hholds _ (Nat.succ_lt_succ (Nat.succ_pos _))
    (hbodyCarries.followed hnull)
  rw [hbody]
  simp [Fragment.items, Fragment.itemsOfAll, Fragment.giveBack, Fragment.unary, Fragment.null,
    Fragment.op]

namespace Builtin

open Fragment

theorem carries_of_mem_standard {b : Builtin} (h : b ∈ standard) :
    ∃ items depth, b.code.items = items ++ [.plain { opcode := .giveBack }] ∧
      Carries items (1 + b.arity.toNat) (depth + 2) noSites := by
  simp only [standard, List.mem_cons, List.not_mem_nil, or_false] at h
  have hinput : ∀ depth, Carries (getLocal 1).items (depth + 2) (depth + 3) noSites :=
    fun depth => .getLocal (Nat.le_refl 1) (Nat.succ_lt_succ (Nat.succ_pos _))
  have hone : ∀ depth, Carries (int 1).items (depth + 2) (depth + 3) noSites :=
    fun depth => .pooled rfl (Nat.succ_pos _)
  rcases h with rfl | rfl | rfl
  · have htest : Carries (ifThen (binary (getLocal 1) (int 1) .equal) (giveBack (int 1))).items 2 2
        noSites :=
      Carries.branch Nat.two_pos
        (carries_binary Nat.two_pos (hinput 0) (hone 1) rfl rfl rfl)
        ((hone 0).seq (.giveBack (Nat.succ_lt_succ Nat.two_pos) 2)) (.nil 2)
    have hless : Carries (binary (getLocal 1) (int 1) .subtract).items 4 5 noSites :=
      carries_binary (Nat.succ_pos 3) (hinput 2) (hone 3) rfl rfl rfl
    have hself : Carries self.items 3 4 noSites := .function (Nat.succ_pos 2)
    have hcall : Carries (call self [binary (getLocal 1) (int 1) .subtract]).items 3 4 noSites :=
      (hself.seq hless).seq (.call (Nat.succ_pos 2))
    exact ⟨_, 1, rfl, htest.seq (carries_binary Nat.two_pos (hinput 0) hcall rfl rfl rfl)⟩
  · have hprint : Carries (print (getLocal 1)).items 2 2 noSites :=
      carries_unary Nat.two_pos (hinput 0) rfl rfl
    have hnull : Carries null.items 2 3 noSites := .op rfl Nat.two_pos
    exact ⟨_, 1, rfl, hprint.seq hnull⟩
  · have hnew : Carries newInstance.items 1 2 noSites := .op rfl Nat.one_pos
    exact ⟨_, 0, rfl, hnew⟩

end Builtin

def Definition.IsStandard (f : Definition) : Prop :=
  ∃ b ∈ Builtin.standard, f.arity = b.arity ∧ f.body = b.code

theorem Definition.IsStandard.disciplined {f : Definition} {chunk : Chunk} (h : f.IsStandard)
    (hchunk : f.FinishedAs chunk) : chunk.DisciplinedFunction f.arity.toNat [] := by
  rcases h with ⟨b, hb, harity, hbody⟩
  have hholds := hchunk.2 (hbody ▸ Builtin.structured_of_mem_standard hb)
  rcases Builtin.carries_of_mem_standard hb with ⟨items, depth, hitems, hcarries⟩
  rw [← harity] at hcarries
  rw [← hbody] at hitems
  exact disciplined_of_carries_giveBack hholds hitems (Nat.succ_lt_succ (Nat.succ_pos _)) hcarries

/-- The main chunk of a compiled program, the chunks of its functions and those
of the standard functions all keep the stack in order. -/
theorem compiled_chunks_disciplined {source : String} {builtins : List Builtin} {c : Compilation}
    (h : compile source builtins = .ok c) :
    ∃ program resolution main before after, Program.parse source = .ok program ∧
      program.resolve builtins = .ok resolution ∧
      c.bytecode.chunks = main :: (before ++ after) ∧
      main.DisciplinedMain (resolution.stmtsSites program.statements 0) ∧
      List.Forall₂ (fun f chunk => chunk.name = some f.name ∧
          (f.IsStandard -> chunk.DisciplinedFunction f.arity.toNat []))
        (builtins.flatMap Builtin.definitions) before ∧
      List.Forall₂ (fun fn chunk => chunk.name = some fn.name.name ∧
          chunk.DisciplinedFunction fn.params.length (resolution.stmtsSites fn.body 0))
        program.functions after := by
  rcases compile_eq_ok_iff.mp h with ⟨program, resolution, a, hparse, hresolve, hgenerate, hfinal, _⟩
  rcases exists_generated hgenerate with ⟨g⟩
  rcases g.exists_chunks hfinal with ⟨main, before, after, hchunks, _, hmain, hbefore, hafter⟩
  rcases Program.resolvesAll_of_resolve hresolve (Program.blocks_nodup_of_parse hparse) with
    ⟨last, hnames⟩
  have hlaid := ScopeStack.laid_ofBuiltins builtins
  refine ⟨program, resolution, main, before, after, hparse, hresolve, hchunks, ?_, ?_, ?_⟩
  · have hcarries := Resolution.carries_stmts _ hnames hlaid g.body_lowered
    have hheight : last.height = 1 := by
      rw [ScopeStack.height, ScopeStack.frame, Resolution.inner_of_resolvesAll hnames hlaid rfl]
      rfl
    rw [hheight] at hcarries
    exact disciplined_of_carries hmain hcarries
  · exact hbefore.imp fun f chunk hchunk =>
      ⟨hchunk.1, fun hstandard => hstandard.disciplined hchunk⟩
  · have hlowered := (List.forall₂_and_left _ _).mpr
      ⟨Resolution.resolved_of_mem_stmts _ hnames hlaid,
        Resolution.definitions_of_lowerStmts _ g.body_lowered⟩
    refine forall₂_compose ?_ hlowered hafter
    intro fn f chunk hfn hchunk
    refine ⟨?_, hfn.2.disciplined hfn.1 hchunk⟩
    rw [hchunk.1, hfn.2.1]

theorem compiled_chunks_disciplined_nested :
    ∃ c, compile
        "fn f(a, b) \x7b \x7b fn g() \x7b return; \x7d \x7d return; \x7d" Builtin.standard = .ok c ∧
      c.bytecode.chunks.length = 6 ∧
      ∃ program resolution main before after, Program.parse
          "fn f(a, b) \x7b \x7b fn g() \x7b return; \x7d \x7d return; \x7d" = .ok program ∧
        program.resolve Builtin.standard = .ok resolution ∧
        c.bytecode.chunks = main :: (before ++ after) ∧
        main.DisciplinedMain (resolution.stmtsSites program.statements 0) ∧
        List.Forall₂ (fun f chunk => chunk.name = some f.name ∧
            (f.IsStandard -> chunk.DisciplinedFunction f.arity.toNat []))
          (Builtin.standard.flatMap Builtin.definitions) before ∧
        List.Forall₂ (fun fn chunk => chunk.name = some fn.name.name ∧
            chunk.DisciplinedFunction fn.params.length (resolution.stmtsSites fn.body 0))
          program.functions after := by
  apply exists_ok_of_map (fun c => c.bytecode.chunks.length) (y := 6)
  case h => decide +kernel
  case hP =>
    intro c hc hcount
    exact ⟨hcount, compiled_chunks_disciplined hc⟩

end StackScript
