import StackScript.Proofs.ChunkOrder
import StackScript.Proofs.JumpResolution
import StackScript.Proofs.LoweredCode
import StackScript.Proofs.ResolvedNames

/-!
# Statements behind a program

A program is resolved and built from front to back.  What comes later adds to the
tables of resolution, to the draft of the main chunk and to the chunks, and
changes nothing that was there.  So more statements behind a program leave its
functions as they are and lengthen its main chunk.
-/

namespace StackScript

def Program.followedBy (program : Program) (more : List Stmt) : Program where
  statements := program.statements ++ more

/-!
## Tables
-/

namespace Resolution

structure KeptIn (r r' : Resolution) : Prop where
  identifiers : ∀ name storage, r.storage? name = some storage ->
    r'.storage? name = some storage
  blocks : ∀ id size, r.blockSize? id = some size -> r'.blockSize? id = some size

end Resolution

theorem Resolver.stmts_append (statements more : List Stmt) (r : Resolver) :
    r.stmts (statements ++ more) = r.stmts statements >>= fun r => r.stmts more := by
  induction statements generalizing r with
  | nil => rfl
  | cons s rest ih =>
      rw [List.cons_append, Resolver.stmts, Resolver.stmts, bind_assoc]
      exact congrArg (r.stmt s >>= ·) (funext ih)

theorem blockIdsOfAll_append (statements more : List Stmt) :
    blockIdsOfAll (statements ++ more) = blockIdsOfAll statements ++ blockIdsOfAll more := by
  induction statements with
  | nil => rfl
  | cons s rest ih => rw [List.cons_append, blockIdsOfAll, blockIdsOfAll, ih, List.append_assoc]

theorem Program.keptIn_of_resolve {program : Program} {more : List Stmt}
    {builtins : List Builtin} {r r' : Resolution} (h : program.resolve builtins = .ok r)
    (h' : (program.followedBy more).resolve builtins = .ok r')
    (hblocks : (program.followedBy more).blocks.Nodup) : r.KeptIn r' := by
  simp only [resolve, followedBy, Resolver.stmts_append, bind_eq_ok_iff, pure_eq_ok_iff] at h h'
  rcases h with ⟨last, hstatements, rfl⟩
  rcases h' with ⟨last', ⟨_, hstatements', hmore⟩, rfl⟩
  cases hstatements.symm.trans hstatements'
  have hstart := Resolver.extends_stmts _ hstatements
  have hextends := Resolver.extends_stmts _ hmore
  rw [blocks_eq, followedBy, blockIdsOfAll_append, List.nodup_append] at hblocks
  constructor
  · exact fun name => hextends.identifiers name.id
  · intro id size hsize
    -- a block whose size is known is one of the program
    have hid : id ∈ blockIdsOfAll program.statements := by
      by_contra hid
      rw [Resolution.blockSize?, hstart.blocks id hid] at hsize
      simp at hsize
    rw [Resolution.blockSize?, hextends.blocks id fun hmem => hblocks.2.2 id hid id hmem rfl]
    exact hsize

/-!
## Lowering
-/

namespace Resolution

variable {r r' : Resolution}

theorem KeptIn.storage (h : r.KeptIn r') (name : Identifier) :
    Persists (r.storage name) (r'.storage name) := by
  intro storage hstorage
  rw [storage_eq_ok_iff] at hstorage ⊢
  exact h.identifiers name storage hstorage

theorem KeptIn.introduce (h : r.KeptIn r') (name : Identifier) (value : Fragment) :
    Persists (r.introduce name value) (r'.introduce name value) :=
  (h.storage name).bind fun _ => .refl _

theorem KeptIn.assign (h : r.KeptIn r') (name : Identifier) (value : Fragment) :
    Persists (r.assign name value) (r'.assign name value) :=
  (h.storage name).bind fun _ => .refl _

theorem KeptIn.blockSize (h : r.KeptIn r') (id : BlockId) :
    Persists (r.blockSize id) (r'.blockSize id) := by
  intro size hsize
  rw [blockSize_eq_ok_iff] at hsize ⊢
  exact h.blocks id size hsize

mutual

theorem KeptIn.lowerExpr (h : r.KeptIn r') : ∀ e : Expr,
    Persists (r.lowerExpr e) (r'.lowerExpr e)
  | .call callee arguments _ =>
      (lowerExprs h arguments).bind fun _ => (lowerExpr h callee).bind fun _ => .refl _
  | .unary _ operand _ => (lowerExpr h operand).bind fun _ => .refl _
  | .binary _ left right _ =>
      (lowerExpr h left).bind fun _ => (lowerExpr h right).bind fun _ => .refl _
  | .string _ | .number _ | .bool _ | .null => .refl _
  | .ident name => (h.storage name).bind fun _ => .refl _
  | .field receiver _ => (lowerExpr h receiver).bind fun _ => .refl _

theorem KeptIn.lowerExprs (h : r.KeptIn r') : ∀ es : List Expr,
    Persists (r.lowerExprs es) (r'.lowerExprs es)
  | [] => .refl _
  | e :: rest => (lowerExpr h e).bind fun _ => (lowerExprs h rest).bind fun _ => .refl _

end

mutual

theorem KeptIn.lowerStmt (h : r.KeptIn r') : ∀ s : Stmt,
    Persists (r.lowerStmt s) (r'.lowerStmt s)
  | .declare name value => (h.lowerExpr value).bind fun code => h.introduce name code
  | .assign target value => (h.lowerExpr value).bind fun code => h.assign target code
  | .assignField receiver _ value =>
      (h.lowerExpr value).bind fun _ => (h.lowerExpr receiver).bind fun _ => .refl _
  | .function name _ body =>
      (Persists.refl _).bind fun _ => (lowerStmts h [] body).bind fun _ => h.introduce name _
  | .choose branches none => (lowerBranches h branches).bind fun _ => .refl _
  | .choose branches (some otherwise) =>
      (lowerBranches h branches).bind fun _ => (lowerBlock h otherwise).bind fun _ => .refl _
  | .loop condition body =>
      (h.lowerExpr condition).bind fun _ => (lowerBlock h body).bind fun _ => .refl _
  | .giveBack value _ => (h.lowerExpr value).bind fun _ => .refl _
  | .evaluate value => (h.lowerExpr value).bind fun _ => .refl _
  | .block body => lowerBlock h body

theorem KeptIn.lowerBlock (h : r.KeptIn r') : ∀ b : Block,
    Persists (r.lowerBlock b) (r'.lowerBlock b)
  | { id, statements } =>
      (h.blockSize id).bind fun _ => (lowerStmts h [] statements).bind fun _ => .refl _

theorem KeptIn.lowerStmts (h : r.KeptIn r') : ∀ (done : List Fragment) (statements : List Stmt),
    Persists (r.lowerStmts done statements) (r'.lowerStmts done statements)
  | _, [] => .refl _
  | done, s :: rest => (lowerStmt h s).bind fun code => lowerStmts h (code :: done) rest

theorem KeptIn.lowerBranches (h : r.KeptIn r') : ∀ branches : List Branch,
    Persists (r.lowerBranches branches) (r'.lowerBranches branches)
  | [] => .refl _
  | { condition, body } :: rest =>
      (h.lowerExpr condition).bind fun _ => (lowerBlock h body).bind fun _ =>
        (lowerBranches h rest).bind fun _ => .refl _

end

theorem KeptIn.lowered_append (h : r.KeptIn r') {statements more : List Stmt}
    {codes codes' : List Fragment} (hcodes : r.lowerStmts [] statements = .ok codes)
    (hcodes' : r'.lowerStmts [] (statements ++ more) = .ok codes') : codes <+: codes' := by
  have hcodes := h.lowerStmts [] statements codes hcodes
  rw [lowerAll_eq_ok_iff] at hcodes hcodes'
  apply forall₂_isPrefix _ (List.prefix_append statements more) hcodes hcodes'
  intro s code code' hcode hcode'
  rw [hcode] at hcode'
  exact Except.ok.inj hcode'

end Resolution

/-!
## Emission
-/

namespace Fragment

open Emit

theorem yields_emitAll_append {parts parts' : List Fragment} {d d'' : Draft}
    {a a'' : Assembler} (h : (emitAll (parts ++ parts')).Yields d a () d'' a'') :
    ∃ d' a', (emitAll parts).Yields d a () d' a' ∧ (emitAll parts').Yields d' a' () d'' a'' := by
  induction parts generalizing d a with
  | nil => exact ⟨d, a, yields_pure_iff.mpr ⟨rfl, rfl, rfl⟩, h⟩
  | cons part rest ih =>
      rw [List.cons_append, emitAll, yields_bind_iff] at h
      rcases h with ⟨_, d1, a1, hpart, hrest⟩
      rcases ih hrest with ⟨d', a', hfront, hback⟩
      refine ⟨d', a', ?_, hback⟩
      rw [emitAll, yields_bind_iff]
      exact ⟨(), d1, a1, hpart, hfront⟩

end Fragment

namespace Assembler

/-- The second program has the chunks of the first at their places, only that the
draft of the main chunk went on, and more chunks behind them. -/
structure Lengthens (a a' : Assembler) (main main' : Draft) (before after more : List ChunkEntry) :
    Prop where
  entries : a.entries.toList = before ++ { name := none, draft := some main } :: after
  entries' : a'.entries.toList =
    before ++ { name := none, draft := some main' } :: (after ++ more)
  indexed : a.Indexed
  indexed' : a'.Indexed
  unnamed : main.name = none
  draft : main.Extends main'
  fits : main.pool.Fits

end Assembler

theorem Program.lengthens_of_generate {program : Program} {more : List Stmt}
    {builtins : List Builtin} {r r' : Resolution} {a a' : Assembler} (hkept : r.KeptIn r')
    (h : program.generate builtins r = .ok a)
    (h' : (program.followedBy more).generate builtins r' = .ok a') :
    ∃ main main' before after extra, a.Lengthens a' main main' before after extra := by
  simp only [generate, bind_eq_ok_iff, pure_eq_ok_iff, Prod.exists,
    Assembly.runFrom_eq_ok_iff] at h h'
  rcases h with ⟨_, a1, hbuiltins, codes, hcodes, ref, _, hmain, rfl⟩
  rcases h' with ⟨_, _, hbuiltins', codes', hcodes', ref', _, hmain', rfl⟩
  -- both runs start with the same chunks of built-in functions
  cases hbuiltins.symm.trans hbuiltins'
  rcases hkept.lowered_append hcodes hcodes' with ⟨codesMore, rfl⟩
  rcases Assembly.addChunk_eq_ok_iff.mp hmain with ⟨a2, d, a3, hreserve, hemit, rfl⟩
  rcases Assembly.addChunk_eq_ok_iff.mp hmain' with ⟨_, d', a4, hreserve', hemit', rfl⟩
  cases hreserve.symm.trans hreserve'
  rw [Fragment.emit] at hemit hemit'
  rcases Fragment.yields_emitAll_append hemit' with ⟨_, _, hfront, hback⟩
  cases hemit.symm.trans hfront
  have hactions := Fragment.actions_of_emitAll codes hemit
  have hactions' := Fragment.actions_of_emitAll codesMore hback
  have hgrown := Fragment.grown_of_emitAll codes hemit
  have hgrown' := Fragment.grown_of_emitAll codesMore hback
  rcases hgrown'.entries with ⟨extra, hextra, _⟩
  rcases Assembler.reserve_eq_ok_iff.mp hreserve with ⟨hfree, rfl, rfl⟩
  rcases hgrown.entries with ⟨after, hafter, _⟩
  have hindexed : a3.Indexed :=
    hgrown.indexed (((grown_of_addBuiltins hbuiltins).indexed .start).entered hfree)
  have hstarted := hafter.trans (a1.toList_entered_append none after)
  have hstarted' : a4.entries.toList =
      a1.entries.toList ++ { name := none } :: (after ++ extra) := by
    rw [hextra, hstarted, List.append_assoc]
    rfl
  have hself : d.self = a1.entries.toList.length := hactions.draft_extends.self
  exact ⟨d, d', a1.entries.toList, after, extra,
    Assembler.toList_complete hstarted hself,
    Assembler.toList_complete hstarted' (hactions'.draft_extends.self.trans hself),
    hindexed.complete d, (hgrown'.indexed hindexed).complete d',
    hactions.draft_extends.name, hactions'.draft_extends,
    hactions.draft_extends.fits .empty⟩

/-!
## Finished chunks
-/

namespace Draft

variable {d d' : Draft} {chunkId chunkId' : ChunkRef -> Except AssembleError UInt8}

theorem Extends.labelPosition (h : d.Extends d') (label : Label) :
    Persists (d.labelPosition label) (d'.labelPosition label) := by
  intro position hposition
  rw [labelPosition_eq_ok_iff] at hposition ⊢
  exact h.placed label position hposition

/-- The names of labels only matter for errors. -/
theorem jumpInstruction_persists (opcode : Opcode) (target : Label) (distance : Nat) :
    Persists (d.jumpInstruction opcode target distance)
      (d'.jumpInstruction opcode target distance) := by
  unfold jumpInstruction
  split
  · exact .refl _
  · exact .of_error _ _

theorem Extends.resolve (h : d.Extends d') (directive : Directive) :
    Persists (d.resolve directive) (d'.resolve directive) := by
  cases directive with
  | instr i => exact .refl _
  | jump target here =>
      refine (h.labelPosition target).bind fun there => (h.labelPosition here).bind fun behind => ?_
      split
      · exact jumpInstruction_persists _ _ _
      · exact jumpInstruction_persists _ _ _
  | jumpIfFalse target here =>
      refine (h.labelPosition target).bind fun there => (h.labelPosition here).bind fun behind => ?_
      split
      · exact .of_error _ _
      · exact jumpInstruction_persists _ _ _

theorem finishConstant_persists (hids : ∀ ref, Persists (chunkId ref) (chunkId' ref))
    (c : PoolConstant) : Persists (finishConstant chunkId c) (finishConstant chunkId' c) := by
  cases c with
  | function ref => exact (hids ref).map _
  | _ => exact .refl _

theorem finish_persists (hids : ∀ ref, Persists (chunkId ref) (chunkId' ref)) (d : Draft) :
    Persists (d.finish chunkId) (d.finish chunkId') :=
  (Persists.mapM (finishConstant_persists hids) _).bind fun _ => .refl _

theorem Extends.finish (h : d.Extends d') (hfits : d.pool.Fits)
    (hids : ∀ ref, Persists (chunkId ref) (chunkId' ref)) {chunk chunk' : Chunk}
    (hchunk : d.finish chunkId = .ok chunk) (hchunk' : d'.finish chunkId' = .ok chunk') :
    chunk.code <+: chunk'.code ∧ chunk.constants <+: chunk'.constants := by
  simp only [finish_eq_ok_iff, code_eq_ok_iff, ← mapM_eq_ok_iff] at hchunk hchunk'
  rcases hchunk with ⟨_, hconstants, _, instructions, hresolved, hcode⟩
  rcases hchunk' with ⟨_, hconstants', _, instructions', hresolved', hcode'⟩
  constructor
  · rcases Persists.mapM_isPrefix h.resolve h.directives hresolved hresolved' with ⟨rest, rfl⟩
    rw [hcode, hcode', List.flatMap_append]
    exact List.prefix_append _ _
  · exact Persists.mapM_isPrefix (finishConstant_persists hids) (h.constants hfits) hconstants
      hconstants'

end Draft

namespace Assembler

variable {a a' : Assembler}

theorem chunkId_persists (hmain : a'.main? = a.main?)
    (hsize : a.entries.size ≤ a'.entries.size) (ref : ChunkRef) :
    Persists (a.chunkId ref) (a'.chunkId ref) := by
  intro id hid
  have hlt := lt_of_chunkId hid
  unfold chunkId at hid ⊢
  rw [hmain]
  cases hmain? : a.main? with
  | none =>
      rw [hmain?] at hid
      cases hid
  | some main =>
      simp only [hmain?, if_neg (Nat.not_le.mpr hlt)] at hid
      simp only [if_neg (Nat.not_le.mpr (Nat.lt_of_lt_of_le hlt hsize))]
      by_cases hbound : (if ref = main then 0 else if ref < main then ref + 1 else ref) < maxChunks
      · rw [if_pos hbound] at hid ⊢
        exact hid
      · rw [if_neg hbound] at hid
        cases hid

theorem Finishes.persists (hids : ∀ ref, Persists (a.chunkId ref) (a'.chunkId ref))
    {entry : ChunkEntry} {chunk : Chunk} (h : a.Finishes entry chunk) :
    a'.Finishes entry chunk := by
  rcases h with ⟨d, hd, hfinish⟩
  exact ⟨d, hd, Draft.finish_persists hids d chunk hfinish⟩

theorem Finishes.unique {entry : ChunkEntry} {chunk chunk' : Chunk} (h : a.Finishes entry chunk)
    (h' : a.Finishes entry chunk') : chunk = chunk' := by
  rcases h with ⟨d, hd, hfinish⟩
  rcases h' with ⟨_, hd', hfinish'⟩
  cases hd.symm.trans hd'
  exact Except.ok.inj (hfinish.symm.trans hfinish')

/-- The chunks of the first program are in front of those of the second, and so is
what the first main chunk has. -/
theorem Lengthens.finalize {main main' : Draft} {before after more : List ChunkEntry}
    (h : a.Lengthens a' main main' before after more) {b b' : Bytecode}
    (hfinal : a.finalize = .ok b) (hfinal' : a'.finalize = .ok b') :
    ∃ first first' others others', b.chunks = first :: others ∧ b'.chunks = first' :: others' ∧
      others <+: others' ∧ first.name = none ∧ first'.name = none ∧
      first.code <+: first'.code ∧ first.constants <+: first'.constants := by
  have hmain : a'.main? = a.main? := by
    rw [h.indexed.main?_eq h.entries, h.indexed'.main?_eq h.entries']
  have hsize : a.entries.size ≤ a'.entries.size := by
    rw [← Array.length_toList, ← Array.length_toList, h.entries, h.entries']
    simp
  have hids := chunkId_persists hmain hsize
  rcases chunks_of_finalize h.indexed h.entries hfinal with
    ⟨first, others, hchunks, hfirst, hothers⟩
  rcases chunks_of_finalize h.indexed' h.entries' hfinal' with
    ⟨first', others', hchunks', hfirst', hothers'⟩
  refine ⟨first, first', others, others', hchunks, hchunks', ?_,
    (Draft.finish_eq_ok_iff.mp hfirst).1.trans h.unnamed,
    (Draft.finish_eq_ok_iff.mp hfirst').1.trans (h.draft.name.trans h.unnamed),
    h.draft.finish h.fits hids hfirst hfirst'⟩
  have hkept : List.Forall₂ a'.Finishes (before ++ after) others :=
    hothers.imp fun _ _ hentry => hentry.persists hids
  rw [← List.append_assoc] at hothers'
  apply forall₂_isPrefix _ (List.prefix_append _ _) hkept hothers'
  exact fun _ _ _ => Finishes.unique

end Assembler

/-!
## Programs
-/

namespace Program

/-- More statements behind a program change nothing of what was generated for it:
every function has the same chunk at the same place, and the main chunk, which is
the first, goes on behind the same code and the same constants. -/
theorem followedBy_keeps_chunks {program : Program} {more : List Stmt}
    {builtins : List Builtin} {r r' : Resolution} {a a' : Assembler} {b b' : Bytecode}
    (hblocks : (program.followedBy more).blocks.Nodup)
    (hresolve : program.resolve builtins = .ok r)
    (hgenerate : program.generate builtins r = .ok a) (hfinal : a.finalize = .ok b)
    (hresolve' : (program.followedBy more).resolve builtins = .ok r')
    (hgenerate' : (program.followedBy more).generate builtins r' = .ok a')
    (hfinal' : a'.finalize = .ok b') :
    (∀ id chunk, id ≠ 0 -> b.chunks[id]? = some chunk -> b'.chunks[id]? = some chunk) ∧
      ∃ main main', b.chunks[0]? = some main ∧ b'.chunks[0]? = some main' ∧
        main.name = none ∧ main'.name = none ∧
        main.code <+: main'.code ∧ main.constants <+: main'.constants := by
  have hkept := keptIn_of_resolve hresolve hresolve' hblocks
  rcases lengthens_of_generate hkept hgenerate hgenerate' with ⟨_, _, _, _, _, hlengthens⟩
  rcases hlengthens.finalize hfinal hfinal' with
    ⟨main, main', others, _, hchunks, hchunks', ⟨extra, rfl⟩, hmain⟩
  refine ⟨?_, main, main', ?_, ?_, hmain⟩
  · intro id chunk hid hchunk
    rcases Nat.exists_eq_succ_of_ne_zero hid with ⟨index, rfl⟩
    rw [hchunks, List.getElem?_cons_succ] at hchunk
    rw [hchunks', List.getElem?_cons_succ, List.getElem?_append_left, hchunk]
    exact (List.getElem?_eq_some_iff.mp hchunk).1
  · rw [hchunks, List.getElem?_cons_zero]
  · rw [hchunks', List.getElem?_cons_zero]

def counting : Program where
  statements :=
    [.function ⟨0, "next", ⟨1, 4⟩⟩ [⟨1, "n", ⟨1, 9⟩⟩]
        [.giveBack (.binary .add (.ident ⟨2, "n", ⟨1, 21⟩⟩) (.number 1) ⟨1, 23⟩) ⟨1, 14⟩],
      .declare ⟨3, "i", ⟨2, 5⟩⟩ (.number 0),
      .loop (.binary .less (.ident ⟨4, "i", ⟨3, 8⟩⟩) (.number 9) ⟨3, 10⟩)
        { id := 0
          statements :=
            [.declare ⟨5, "old", ⟨4, 9⟩⟩ (.ident ⟨6, "i", ⟨4, 15⟩⟩),
              .assign ⟨7, "i", ⟨5, 5⟩⟩
                (.call (.ident ⟨8, "next", ⟨5, 9⟩⟩) [.ident ⟨9, "old", ⟨5, 14⟩⟩] ⟨5, 13⟩)] }]

def printing : List Stmt :=
  [.block
    { id := 1
      statements :=
        [.declare ⟨10, "i", ⟨8, 9⟩⟩ (.string "done"),
          .function ⟨11, "show", ⟨9, 8⟩⟩ [⟨12, "i", ⟨9, 13⟩⟩]
            [.evaluate (.call (.ident ⟨13, "println", ⟨10, 7⟩⟩) [.ident ⟨14, "i", ⟨10, 15⟩⟩]
              ⟨10, 14⟩)],
          .evaluate
            (.call (.ident ⟨15, "show", ⟨12, 5⟩⟩) [.ident ⟨16, "i", ⟨12, 10⟩⟩] ⟨12, 9⟩)] }]

theorem followedBy_keeps_chunks_counting :
    (counting.followedBy printing).blocks.Nodup ∧
      ∃ r a b r' a' b', counting.resolve Builtin.standard = .ok r ∧
        counting.generate Builtin.standard r = .ok a ∧ a.finalize = .ok b ∧
        (counting.followedBy printing).resolve Builtin.standard = .ok r' ∧
        (counting.followedBy printing).generate Builtin.standard r' = .ok a' ∧
        a'.finalize = .ok b' ∧ b.chunks.length = 5 ∧ b'.chunks.length = 6 ∧
        (∀ id chunk, id ≠ 0 -> b.chunks[id]? = some chunk -> b'.chunks[id]? = some chunk) ∧
          ∃ main main', b.chunks[0]? = some main ∧ b'.chunks[0]? = some main' ∧
            main.name = none ∧ main'.name = none ∧
            main.code <+: main'.code ∧ main.constants <+: main'.constants := by
  have hblocks : (counting.followedBy printing).blocks.Nodup := by decide +kernel
  have hcode : ((counting.resolve Builtin.standard).toOption.bind fun r =>
      (counting.generate Builtin.standard r).toOption.bind fun a =>
        a.finalize.toOption.map fun b => b.chunks.length) = some 5 := by
    decide +kernel
  have hcode' : (((counting.followedBy printing).resolve Builtin.standard).toOption.bind fun r =>
      ((counting.followedBy printing).generate Builtin.standard r).toOption.bind fun a =>
        a.finalize.toOption.map fun b => b.chunks.length) = some 6 := by
    decide +kernel
  simp only [Option.bind_eq_some_iff, Option.map_eq_some_iff, toOption_eq_some_iff]
    at hcode hcode'
  rcases hcode with ⟨r, hresolve, a, hgenerate, b, hfinal, hlength⟩
  rcases hcode' with ⟨r', hresolve', a', hgenerate', b', hfinal', hlength'⟩
  exact ⟨hblocks, r, a, b, r', a', b', hresolve, hgenerate, hfinal, hresolve', hgenerate',
    hfinal', hlength, hlength',
    followedBy_keeps_chunks hblocks hresolve hgenerate hfinal hresolve' hgenerate' hfinal'⟩

end Program
end StackScript
