import StackScript.Proofs.Simulation
import StackScript.Proofs.StoreLayout

/-!
# Compiled programs keep their meaning

The bytes of a program without functions, calls and fields do on the machine
what the program says, whatever the operations on values are: the machine gets
to the end of the code with the globals of the program, gets stuck where the
program goes wrong, and runs forever where the program does.
-/

namespace StackScript

variable {V : Type}

namespace Interpretation

variable {I : Interpretation V} {chunk : Chunk} {count : Nat} {r : Resolution}
  {scopes : ScopeStack} {callee : V} {s : Store V}

open Fragment

/-!
## Expressions
-/

theorem performs_constant {c : PoolConstant} {v : V} (m : Memory V)
    (h : ∀ k, c.Shows k -> I.constant? k = some v) :
    I.Performs chunk count [.pooled .constant c] m (.ok v) m.push := by
  apply Performs.single (r := some v)
  rintro constants i ⟨index, k, rfl, hk, hshows⟩
  refine ⟨rfl, ?_⟩
  change (constants[index.toNat]?.bind I.constant?).map m.push = some (m.push v)
  rw [hk, Option.bind_some, h k hshows]
  rfl

theorem performs_read {name : Identifier} {storage : Storage} {values : List V}
    (hname : r.Uses scopes name) (hlaid : scopes.Laid) (hfits : s.Fits scopes)
    (hstorage : r.storage? name = some storage) :
    I.Performs chunk count storage.read.items (s.memory callee values)
      (orWrong (s.get? name.name)) (s.memory callee values).push := by
  rcases hfits.read hlaid (hname.lookup_eq hstorage) callee values with
    ⟨v, hv, ⟨slot, rfl, hslot⟩ | ⟨rfl, hglobal⟩⟩
  · rw [hv]
    apply Performs.single
    rintro constants i rfl
    refine ⟨rfl, ?_⟩
    change ((s.memory callee values).slot? slot.toNat).map _ = _
    rw [hslot]
  · rw [hv]
    apply Performs.single
    rintro constants i ⟨index, k, rfl, hk, rfl⟩
    refine ⟨rfl, ?_⟩
    rw [I.effect?_getGlobal hk, hglobal]

theorem performs_unaryOp {f : Fragment} {m : Memory V} {x : Except Stop V}
    (h : I.Performs chunk count f.items m x m.push) (op : UnaryOp) :
    I.Performs chunk count (op.lower f).items m (x >>= fun v => I.unary v op) m.push := by
  cases op with
  | not => exact h.unary rfl fun _ _ => rfl
  | negate => exact h.unary rfl fun _ _ => rfl

theorem performs_binaryOp {f g : Fragment} {m : Memory V} {x y : Except Stop V}
    (hf : I.Performs chunk count f.items m x m.push)
    (hg : I.Performs chunk count g.items m y m.push)
    (hg' : ∀ v, I.Performs chunk count g.items (m.push v) y (m.push v).push) (op : BinaryOp) :
    I.Performs chunk count (op.lower f g).items m (x >>= fun v => I.binary v y op) m.push := by
  have hnot : ∀ {h : V -> V -> Option V} {opcode : Opcode},
      I.Performs chunk count (Fragment.binary f g opcode).items m
        (x >>= fun left => y >>= fun right => orWrong (h left right)) m.push ->
      I.Performs chunk count (Fragment.not (.binary f g opcode)).items m
        (x >>= fun left => y >>= fun right => orWrong (h left right) >>= fun v => orWrong (I.not v))
        m.push := by
    intro h opcode hbinary
    have hnegated := performs_unaryOp hbinary .not
    simp only [bind_assoc] at hnegated
    exact hnegated
  cases op with
  | and => exact hf.both hg
  | or => exact hf.either hg
  | greaterEqual => exact hnot (hf.binary hg' rfl fun _ _ => rfl)
  | lessEqual => exact hnot (hf.binary hg' rfl fun _ _ => rfl)
  | notEqual => exact hnot (hf.binary hg' rfl fun _ _ => rfl)
  | add => exact hf.binary hg' rfl fun _ _ => rfl
  | subtract => exact hf.binary hg' rfl fun _ _ => rfl
  | multiply => exact hf.binary hg' rfl fun _ _ => rfl
  | divide => exact hf.binary hg' rfl fun _ _ => rfl
  | greater => exact hf.binary hg' rfl fun _ _ => rfl
  | less => exact hf.binary hg' rfl fun _ _ => rfl
  | equal => exact hf.binary hg' rfl fun _ _ => rfl

theorem performs_expr : ∀ (e : Expr) {f : Fragment} {values : List V}, e.callFree = true ->
    r.ResolvesExpr scopes e -> scopes.Laid -> s.Fits scopes -> r.lowerExpr e = .ok f ->
    I.Performs chunk count f.items (s.memory callee values) (I.eval s e)
      (s.memory callee values).push
  | .unary op operand _, f, values, hfree, hnames, hlaid, hfits, h => by
      simp only [Resolution.lowerExpr, bind_eq_ok_iff, pure_eq_ok_iff] at h
      rcases h with ⟨code, hoperand, rfl⟩
      exact performs_unaryOp (performs_expr operand hfree hnames hlaid hfits hoperand) op
  | .binary op left right _, f, values, hfree, hnames, hlaid, hfits, h => by
      simp only [Resolution.lowerExpr, bind_eq_ok_iff, pure_eq_ok_iff] at h
      rcases h with ⟨codeLeft, hleft, codeRight, hright, rfl⟩
      rw [Expr.callFree, Bool.and_eq_true] at hfree
      have hbelow : ∀ v, I.Performs chunk count codeRight.items (s.memory callee (v :: values))
          (I.eval s right) (s.memory callee (v :: values)).push :=
        fun v => performs_expr right hfree.2 hnames.2 hlaid hfits hright
      exact performs_binaryOp (performs_expr left hfree.1 hnames.1 hlaid hfits hleft)
        (performs_expr right hfree.2 hnames.2 hlaid hfits hright) hbelow op
  | .string text, f, values, _, _, _, _, h => by
      cases h
      exact performs_constant _ fun k hk => by rw [hk]; rfl
  | .number value, f, values, _, _, _, _, h => by
      cases h
      exact performs_constant _ fun k hk => by rw [hk]; rfl
  | .bool value, f, values, _, _, _, _, h => by
      cases h
      apply Performs.single (r := some (I.bool value))
      rintro constants i rfl
      cases value <;> exact ⟨rfl, rfl⟩
  | .null, f, values, _, _, _, _, h => by
      cases h
      apply Performs.single (r := some I.null)
      rintro constants i rfl
      exact ⟨rfl, rfl⟩
  | .ident name, f, values, _, hnames, hlaid, hfits, h => by
      simp only [Resolution.lowerExpr, bind_eq_ok_iff, pure_eq_ok_iff,
        Resolution.storage_eq_ok_iff] at h
      rcases h with ⟨storage, hstorage, rfl⟩
      exact performs_read hnames hlaid hfits hstorage
  | .call _ _ _, _, _, hfree, _, _, _, _ => by cases hfree
  | .field _ _, _, _, hfree, _, _, _, _ => by cases hfree

/-!
## Statements
-/

/-- A new variable takes its value over as the next slot, or as a global. -/
theorem performs_introduce {name : Identifier} {after : ScopeStack} {value f : Fragment}
    {x : Except Stop V} (hname : r.Declares scopes name after) (hlaid : scopes.Laid)
    (hfits : s.Fits scopes)
    (hvalue : I.Performs chunk count value.items (s.memory callee []) x (s.memory callee []).push)
    (h : r.introduce name value = .ok f) :
    I.Performs chunk count f.items (s.memory callee [])
      (x >>= fun v => .ok (s.declare name.name v)) (Store.memory callee []) := by
  have hblocks := hfits.locals
  rcases s with ⟨locals, globals⟩
  rcases Resolution.introduce_cases hname hlaid h with
    ⟨hinner, _, _, rfl⟩ | ⟨hinner, _, _, rfl⟩
  · rw [hinner] at hblocks
    cases hblocks
    apply hvalue.append
    intro v _
    apply Performs.single (r := some (Store.declare ⟨[], globals⟩ name.name v))
    rintro constants i ⟨index, k, rfl, hk, rfl⟩
    exact ⟨rfl, I.effect?_setGlobal hk _⟩
  · rw [← List.append_nil f.items]
    apply hvalue.append
    intro v _
    apply Performs.nil
    cases locals with
    | nil => exact absurd (List.forall₂_nil_right_iff.mp hblocks) hinner
    | cons block rest => rfl

theorem performs_assign {target : Identifier} {value f : Fragment} {x : Except Stop V}
    (htarget : r.Uses scopes target) (hlaid : scopes.Laid) (hfits : s.Fits scopes)
    (hvalue : I.Performs chunk count value.items (s.memory callee []) x (s.memory callee []).push)
    (h : r.assign target value = .ok f) :
    I.Performs chunk count f.items (s.memory callee [])
      (x >>= fun v => orWrong (s.assign? target.name v)) (Store.memory callee []) := by
  rcases Resolution.exists_write_of_assign htarget h with ⟨storage, hlookup, hcode⟩
  cases storage with
  | localSlot text slot =>
      cases hcode
      apply hvalue.append
      intro v _
      apply Performs.single
      rintro constants i rfl
      refine ⟨rfl, ?_⟩
      rcases hfits.write hlaid hlookup callee v with ⟨s', hs', _, ⟨slot', heq, hset⟩ | ⟨heq, _⟩⟩
      · cases heq
        rw [hs']
        exact hset
      · cases heq
  | globalName text =>
      cases hcode
      apply hvalue.append
      intro v _
      apply Performs.single
      rintro constants i ⟨index, k, rfl, hk, rfl⟩
      refine ⟨rfl, ?_⟩
      rcases hfits.write hlaid hlookup callee v with ⟨s', hs', _, ⟨slot', heq, _⟩ | ⟨heq, hset⟩⟩
      · cases heq
      · cases heq
        rw [I.effect?_setGlobal hk, hs']
        exact hset
  | builtin text arity => cases hcode

theorem performs_pops {α : Type} {after : α -> Memory V} {a : α} {stack : List V}
    {globals : Globals V} (h : after a = { stack, globals }) (cells : List V) :
    I.Performs chunk count (pops cells.length).items { stack := cells ++ stack, globals } (.ok a)
      after := by
  induction cells with
  | nil => exact .nil h
  | cons v rest ih =>
      have hpop : I.Performs chunk count [.pop] { stack := v :: rest ++ stack, globals }
          (orWrong (some ())) fun _ => { stack := rest ++ stack, globals } := by
        apply Performs.single
        rintro constants i rfl
        exact ⟨rfl, rfl⟩
      exact hpop.append fun _ _ => ih

theorem performs_closeBlock {scope : Scope}
    (hfits : s.Fits { scopes with inner := scope :: scopes.inner })
    (hcount : scope.locals = scope.values.length) :
    I.Performs chunk count (pops scope.locals).items (s.memory callee []) (.ok s.closeBlock)
      (Store.memory callee []) := by
  rcases s with ⟨locals, globals⟩
  rcases hfits with ⟨hlocals, _⟩
  cases hlocals with
  | @cons _ block _ rest hblock _ =>
      have hsize : scope.locals = (block.map Prod.snd).length := by
        have hlength := congrArg List.length hblock.2
        rw [List.length_map, List.length_map] at hlength
        rw [hcount, hlength, List.length_map]
      have hmemory : Store.memory callee [] { locals := block :: rest, globals } =
          { stack := block.map Prod.snd ++ (rest.flatten.map Prod.snd ++ [callee]), globals } := by
        simp [Store.memory]
      rw [hsize, hmemory]
      exact performs_pops rfl _

mutual

/-- The code of a statement does to the memory what the statement does to the
variables. -/
theorem performs_stmt : ∀ (statement : Stmt) {scopes after : ScopeStack} {s : Store V}
    {f : Fragment}, statement.callFree = true -> r.ResolvesStmt scopes statement after ->
    scopes.Laid -> s.Fits scopes -> r.lowerStmt statement = .ok f ->
    I.Performs chunk count f.items (s.memory callee []) (I.exec count statement s)
      (Store.memory callee [])
  | .declare name value, _, _, s, f, hfree, .declare hvalue hname, hlaid, hfits, h => by
      simp only [Resolution.lowerStmt, bind_eq_ok_iff] at h
      rcases h with ⟨code, hcode, h⟩
      exact performs_introduce hname hlaid hfits
        (performs_expr value hfree hvalue hlaid hfits hcode) h
  | .assign target value, _, _, s, f, hfree, .assign htarget hvalue, hlaid, hfits, h => by
      simp only [Resolution.lowerStmt, bind_eq_ok_iff] at h
      rcases h with ⟨code, hcode, h⟩
      exact performs_assign htarget hlaid hfits
        (performs_expr value hfree hvalue hlaid hfits hcode) h
  | .choose branches none, _, _, s, f, hfree, .choose hbranches _, hlaid, hfits, h => by
      simp only [Resolution.lowerStmt, bind_eq_ok_iff, pure_eq_ok_iff] at h
      rcases h with ⟨codes, hcodes, rfl⟩
      rw [Stmt.callFree, Bool.and_eq_true] at hfree
      rw [exec]
      exact performs_branches branches hfree.1 hbranches hlaid hfits hcodes (.nil rfl)
  | .choose branches (some otherwise), _, _, s, f, hfree, .choose hbranches (.some hotherwise),
      hlaid, hfits, h => by
      simp only [Resolution.lowerStmt, bind_eq_ok_iff, pure_eq_ok_iff] at h
      rcases h with ⟨codes, hcodes, code, hcode, rfl⟩
      rw [Stmt.callFree, Bool.and_eq_true] at hfree
      rw [exec]
      exact performs_branches branches hfree.1 hbranches hlaid hfits hcodes
        (performs_block otherwise hfree.2 hotherwise hlaid hfits hcode)
  | .loop condition body, _, _, s, f, hfree, .loop hcondition hbody, hlaid, hfits, h => by
      simp only [Resolution.lowerStmt, bind_eq_ok_iff, pure_eq_ok_iff] at h
      rcases h with ⟨codeCondition, hcodeCondition, codeBody, hcodeBody, rfl⟩
      rw [Stmt.callFree, Bool.and_eq_true] at hfree
      rw [exec]
      exact Performs.loop
        (fun s hfits => performs_expr condition hfree.1 hcondition hlaid hfits hcodeCondition)
        (fun s hfits => performs_block body hfree.2 hbody hlaid hfits hcodeBody)
        (fun s s' hfits hround => fits_of_execBlock body hbody hlaid hfits hround) hfits
  | .evaluate value, _, _, s, f, hfree, .evaluate hvalue, hlaid, hfits, h => by
      simp only [Resolution.lowerStmt, bind_eq_ok_iff, pure_eq_ok_iff] at h
      rcases h with ⟨code, hcode, rfl⟩
      apply (performs_expr value hfree hvalue hlaid hfits hcode).append
      intro v _
      apply Performs.single (r := some s)
      rintro constants i rfl
      exact ⟨rfl, rfl⟩
  | .block body, _, _, s, f, hfree, .block hbody, hlaid, hfits, h => by
      rw [Resolution.lowerStmt] at h
      exact performs_block body hfree hbody hlaid hfits h
  | .assignField _ _ _, _, _, _, _, hfree, _, _, _, _ => by cases hfree
  | .function _ _ _, _, _, _, _, hfree, _, _, _, _ => by cases hfree
  | .giveBack _ _, _, _, _, _, hfree, _, _, _, _ => by cases hfree

theorem performs_block : ∀ (block : Block) {scopes : ScopeStack} {s : Store V} {f : Fragment},
    block.callFree = true -> r.ResolvesBlock scopes block -> scopes.Laid -> s.Fits scopes ->
    r.lowerBlock block = .ok f ->
    I.Performs chunk count f.items (s.memory callee []) (I.execBlock count block s)
      (Store.memory callee [])
  | { id, statements }, scopes, s, f, hfree, @Resolution.ResolvesBlock.braces _ _ scope _ _ hbody
      hsize, hlaid, hfits, h => by
      simp only [Resolution.lowerBlock, bind_eq_ok_iff, pure_eq_ok_iff,
        Resolution.lowerAll_eq_ok_iff, Resolution.blockSize_eq_ok_iff] at h
      rcases h with ⟨size, hsize', codes, hcodes, rfl⟩
      rw [hsize] at hsize'
      cases hsize'
      have hlaid' := hlaid.pushBlock.1
      have hstatements := performs_stmts statements hfree hbody hlaid' hfits.openBlock hcodes
      simp only [items, itemsOfAll, List.append_nil]
      apply hstatements.append
      intro last hlast
      exact performs_closeBlock (fits_of_execAll statements hbody hlaid' hfits.openBlock hlast)
        (Resolution.laid_of_resolvesAll hbody hlaid').inner.2.2.1

theorem performs_stmts : ∀ (statements : List Stmt) {scopes after : ScopeStack} {s : Store V}
    {codes : List Fragment}, callFreeStmts statements = true ->
    r.ResolvesAll scopes statements after -> scopes.Laid -> s.Fits scopes ->
    List.Forall₂ (fun s code => r.lowerStmt s = .ok code) statements codes ->
    I.Performs chunk count (itemsOfAll codes) (s.memory callee []) (I.execAll count statements s)
      (Store.memory callee [])
  | [], _, _, s, codes, _, _, _, _, h => by
      cases h
      exact .nil rfl
  | first :: rest, _, _, s, codes, hfree, .cons hfirst hrest, hlaid, hfits, h => by
      cases h with
      | cons hcode hcodes =>
          rw [callFreeStmts, Bool.and_eq_true] at hfree
          apply (performs_stmt first hfree.1 hfirst hlaid hfits hcode).append
          intro next hnext
          exact performs_stmts rest hfree.2 hrest (Resolution.laid_of_resolvesStmt hfirst hlaid)
            (fits_of_exec first hfirst hlaid hfits hnext) hcodes

theorem performs_branches : ∀ (branches : List Branch) {scopes : ScopeStack} {s : Store V}
    {codes : List FragmentBranch} {last : Fragment}
    {otherwise : Store V -> Except Stop (Store V)}, callFreeBranches branches = true ->
    r.ResolvesBranches scopes branches -> scopes.Laid -> s.Fits scopes ->
    r.lowerBranches branches = .ok codes ->
    I.Performs chunk count last.items (s.memory callee []) (otherwise s) (Store.memory callee []) ->
    I.Performs chunk count (choose codes last).items (s.memory callee [])
      (I.execBranches count otherwise branches s) (Store.memory callee [])
  | [], _, s, codes, last, _, _, _, _, _, h, hlast => by
      cases h
      exact hlast
  | { condition, body } :: rest, _, s, codes, last, _, hfree, .cons hcondition hbody hrest, hlaid,
      hfits, h, hlast => by
      simp only [Resolution.lowerBranches, bind_eq_ok_iff, pure_eq_ok_iff] at h
      rcases h with ⟨codeCondition, hcodeCondition, codeBody, hcodeBody, others, hothers, rfl⟩
      rw [callFreeBranches, Bool.and_eq_true, Bool.and_eq_true] at hfree
      rw [items_choose_cons, execBranches]
      exact Performs.branch
        (performs_expr condition hfree.1.1 hcondition hlaid hfits hcodeCondition)
        (performs_block body hfree.1.2 hbody hlaid hfits hcodeBody)
        (performs_branches rest hfree.2 hrest hlaid hfits hothers hlast)

end

/-!
## Programs
-/

theorem leads_main (I : Interpretation V) {program : Program} {resolution : Resolution}
    {a : Assembler} {main : Chunk} (g : Generated program [] resolution a)
    (hresolve : program.resolve [] = .ok resolution)
    (hblocks : program.blocks.Nodup) (hfree : program.callFree = true)
    (hmain : main.Holds (.sequence g.body)) (callee : V) (bound : Nat) :
    I.Leads main bound (.start callee) ((I.run bound program).map fun globals =>
      { offset := main.code.length, memory := { stack := [callee], globals } }) := by
  rcases Program.resolvesAll_of_resolve hresolve hblocks with ⟨after, hnames⟩
  have hlaid := ScopeStack.laid_ofBuiltins []
  have hperforms : I.Performs main bound (itemsOfAll g.body) (Store.memory callee [] .empty)
      (I.execAll bound program.statements .empty) (Store.memory callee []) :=
    performs_stmts program.statements hfree hnames hlaid .empty g.body_lowered
  have hleads := hperforms 0 hmain.holdsAt
  have hlength : 0 + Item.total (itemsOfAll g.body) = main.code.length := by
    rw [Nat.zero_add, hmain.length_code, items]
  rw [hlength] at hleads
  rw [run, map_bind_eq]
  refine hleads.bind ?_
  intro s hs
  have hlocals : s.locals = [] := by
    have hblocks := (fits_of_execAll program.statements hnames hlaid .empty hs).locals
    rw [Resolution.inner_of_resolvesAll hnames hlaid rfl] at hblocks
    exact List.forall₂_nil_left_iff.mp hblocks
  have hmemory : s.memory callee [] = { stack := [callee], globals := s.globals } := by
    rw [Store.memory, hlocals]
    rfl
  rw [hmemory]
  exact .refl _

end Interpretation

/-- The code of a program without functions, calls and fields has the meaning of
the program: it halts with the globals that the program leaves and the stack as
it was, gets stuck if the program goes wrong, and runs forever if the program
does not come to an end. -/
theorem Program.main_preserves_meaning (I : Interpretation V) (callee : V) {program : Program}
    {resolution : Resolution} {a : Assembler} {b : Bytecode} (hfree : program.callFree = true)
    (hblocks : program.blocks.Nodup) (hresolve : program.resolve [] = .ok resolution)
    (hgenerate : program.generate [] resolution = .ok a) (hfinal : a.finalize = .ok b) :
    ∃ main others, b.chunks = main :: others ∧ main.name = none ∧
      (∀ memory, I.HaltsWith main (.start callee) memory ↔
        memory.stack = [callee] ∧ I.Finishes program memory.globals) ∧
      (I.GetsStuck main (.start callee) ↔ I.GoesWrong program) ∧
      (I.RunsForever main (.start callee) ↔ I.Diverges program) := by
  rcases exists_generated hgenerate with ⟨g⟩
  rcases g.exists_chunks hfinal with ⟨main, before, after, hchunks, hname, hmain, _, _⟩
  have hleads := I.leads_main g hresolve hblocks hfree hmain callee
  exact ⟨main, before ++ after, hchunks, hname, Interpretation.haltsWith_iff hleads,
    Interpretation.getsStuck_iff hleads, Interpretation.runsForever_iff hleads⟩

def Interpretation.integers : Interpretation Int where
  int n := n.toInt
  string text := text.length
  bool b := b.toInt
  null := 0
  add left right := some (left + right)
  subtract left right := some (left - right)
  multiply left right := some (left * right)
  divide left right := if right = 0 then none else some (left / right)
  equal left right := some (left == right).toInt
  greater left right := some (decide (left > right)).toInt
  less left right := some (decide (left < right)).toInt
  not v := some (v == 0).toInt
  negate v := some (-v)
  isFalse v := v == 0

def Program.countdown : Program where
  statements :=
    [.declare ⟨0, "n", default⟩ (.number 3),
      .declare ⟨1, "sum", default⟩ (.number 0),
      .loop (.ident ⟨2, "n", default⟩)
        { id := 0
          statements :=
            [.declare ⟨3, "old", default⟩ (.ident ⟨4, "n", default⟩),
              .assign ⟨5, "n", default⟩
                (.binary .subtract (.ident ⟨6, "old", default⟩) (.number 1) default),
              .choose
                [{ condition :=
                     .binary .greaterEqual (.ident ⟨7, "old", default⟩) (.number 2) default
                   body :=
                     { id := 1
                       statements :=
                         [.assign ⟨8, "sum", default⟩
                           (.binary .add (.ident ⟨9, "sum", default⟩)
                             (.ident ⟨10, "old", default⟩) default)] } }]
                none] }]

theorem Program.main_preserves_meaning_countdown :
    countdown.callFree = true ∧ countdown.blocks.Nodup ∧
      ∃ resolution a b main others, countdown.resolve [] = .ok resolution ∧
        countdown.generate [] resolution = .ok a ∧ a.finalize = .ok b ∧
        b.chunks = main :: others ∧
        ∃ memory, Interpretation.integers.HaltsWith main (.start 0) memory ∧
          memory.stack = [0] ∧ memory.globals "n" = some 0 ∧ memory.globals "sum" = some 5 := by
  have hfree : countdown.callFree = true := by decide +kernel
  have hblocks : countdown.blocks.Nodup := by decide +kernel
  have hcode : ((countdown.resolve []).toOption.bind fun resolution =>
      (countdown.generate [] resolution).toOption.bind fun a =>
        a.finalize.toOption.map fun b => b.chunks.length) = some 1 := by
    decide +kernel
  have hvalues : ((Interpretation.integers.run 4 countdown).toOption.map fun globals =>
      (globals "n", globals "sum")) = some (some 0, some 5) := by
    decide +kernel
  simp only [Option.bind_eq_some_iff, Option.map_eq_some_iff, toOption_eq_some_iff]
    at hcode hvalues
  rcases hcode with ⟨resolution, hresolve, a, hgenerate, b, hfinal, _⟩
  rcases hvalues with ⟨globals, hrun, hglobals⟩
  rcases main_preserves_meaning .integers 0 hfree hblocks hresolve hgenerate hfinal with
    ⟨main, others, hchunks, _, hhalts, _, _⟩
  refine ⟨hfree, hblocks, resolution, a, b, main, others, hresolve, hgenerate, hfinal, hchunks,
    { stack := [0], globals }, (hhalts _).mpr ⟨rfl, 4, hrun⟩, rfl, ?_⟩
  exact Prod.mk.inj hglobals

end StackScript
