import StackScript.Compiler
import StackScript.Proofs.Decoding
import StackScript.Proofs.LoweredCode

/-!
# The code of finished chunks

A finished chunk holds the code of the fragment that it was built from: its
bytes decode to one instruction for each item of the fragment, with the
constants of the chunk.  A finished program has the main chunk in front, then
the chunks of the built-in functions and those of its own.
-/

namespace StackScript

/-!
## Items in bytes
-/

def PoolConstant.Shows : PoolConstant -> Constant -> Prop
  | int n, c => c = .int n
  | string text, c => c = .string text
  | function _, c => ∃ id, c = .function id

theorem PoolConstant.shows_of_finishConstant
    {chunkId : ChunkRef -> Except AssembleError UInt8} {c : PoolConstant} {k : Constant}
    (h : Draft.finishConstant chunkId c = .ok k) : c.Shows k := by
  cases c with
  | int n =>
      cases h
      rfl
  | string text =>
      cases h
      rfl
  | function ref =>
      rcases map_eq_ok_iff.mp h with ⟨id, _, rfl⟩
      exact ⟨id, rfl⟩

namespace Item

/-- The instruction stands for the item, with the given finished constants. -/
def ReadAs (constants : List Constant) : Item -> Instruction -> Prop
  | plain i, j => j = i
  | pooled opcode c, j =>
      ∃ index k, j = { opcode := opcode, argument := some index } ∧
        constants[index.toNat]? = some k ∧ c.Shows k
  | function, j =>
      ∃ index id, j = { opcode := .constant, argument := some index } ∧
        constants[index.toNat]? = some (.function id)
  | call count, j =>
      j = { opcode := .call, argument := some (UInt8.ofNat count) } ∧ count ≤ Fragment.maxCount
  | jump opcode distance, j =>
      j = { opcode := opcode, argument := some (UInt8.ofNat distance) } ∧ distance ≤ maxJump

theorem readAs_of_encodes {pool : List PoolConstant} {constants : List Constant} {item : Item}
    {i : Instruction} (hconstants : List.Forall₂ PoolConstant.Shows pool constants)
    (h : item.Encodes pool i) : item.ReadAs constants i := by
  have hfinished : ∀ {index : Nat} {c : PoolConstant}, pool[index]? = some c ->
      ∃ k, constants[index]? = some k ∧ c.Shows k := forall₂_getElem? hconstants
  cases item with
  | plain j => exact h
  | pooled opcode c =>
      rcases h with ⟨index, rfl, hc⟩
      rcases hfinished hc with ⟨k, hk, hshows⟩
      exact ⟨index, k, rfl, hk, hshows⟩
  | function =>
      rcases h with ⟨index, ref, rfl, hc⟩
      rcases hfinished hc with ⟨k, hk, id, rfl⟩
      exact ⟨index, id, rfl, hk⟩
  | call count => exact h
  | jump opcode distance => exact h

theorem toNat_distance {distance : Nat} (h : distance ≤ maxJump) :
    (UInt8.ofNat distance).toNat = distance :=
  UInt8.toNat_ofNat_of_lt' (Nat.lt_of_le_of_lt h (by decide))

theorem operand_jump {opcode : Opcode} {distance : Nat} (h : distance ≤ maxJump) :
    Instruction.operand { opcode := opcode, argument := some (UInt8.ofNat distance) } = distance :=
  toNat_distance h

def Sound : Item -> Prop
  | plain i => i.Plain
  | pooled opcode c => c.Serves opcode
  | function => True
  | call _ => True
  | jump opcode _ => opcode.isJump = true

variable {constants : List Constant} {item : Item} {i : Instruction}

theorem wellFormed_of_readAs (hitem : item.Sound) (h : item.ReadAs constants i) :
    i.WellFormed ∧ i.byteLength = item.size := by
  cases item with
  | plain j =>
      cases h
      exact ⟨hitem.1, rfl⟩
  | pooled opcode c =>
      rcases h with ⟨index, k, rfl, _⟩
      have hopcode : opcode.takesConstant = true := Fragment.takesConstant_of_serves hitem
      cases opcode <;> first | exact ⟨rfl, rfl⟩ | cases hopcode
  | function =>
      rcases h with ⟨index, id, rfl, _⟩
      exact ⟨rfl, rfl⟩
  | call count =>
      rcases h with ⟨rfl, _⟩
      exact ⟨rfl, rfl⟩
  | jump opcode distance =>
      rcases h with ⟨rfl, _⟩
      cases opcode <;> first | exact ⟨rfl, rfl⟩ | cases hitem

theorem wellFormed_of_forall₂ {items : List Item} {instructions : List Instruction}
    (h : List.Forall₂ (fun item i => item.Sound ∧ item.ReadAs constants i) items instructions) :
    ∀ i ∈ instructions, i.WellFormed := by
  intro i hi
  rcases forall₂_mem_right h hi with ⟨item, _, hsound, hread⟩
  exact (wellFormed_of_readAs hsound hread).1

theorem length_flatMap_of_forall₂ {items : List Item} {instructions : List Instruction}
    (h : List.Forall₂ (fun item i => item.Sound ∧ item.ReadAs constants i) items instructions) :
    (instructions.flatMap Instruction.encode).length = total items := by
  rw [Instruction.length_flatMap_encode (wellFormed_of_forall₂ h), total]
  symm
  apply forall₂_totalSize _ h
  intro item i hitem
  exact (wellFormed_of_readAs hitem.1 hitem.2).2.symm

end Item

namespace Fragment

mutual

theorem sound_of_structured : ∀ (f : Fragment) {inFunction : Bool}, f.Structured inFunction ->
    ∀ item ∈ f.items, item.Sound
  | instr i, _, hf => by
      rw [items, List.forall_mem_singleton]
      exact hf
  | pooled opcode c, _, hf => by
      rw [items, List.forall_mem_singleton]
      exact hf
  | self, _, _ => by
      simp [items, Item.Sound]
  | builtin _, _, _ => by
      simp [items, Item.Sound]
  | define _ _ _, _, _ => by
      simp [items, Item.Sound]
  | sequence parts, _, hf => by
      rw [Structured] at hf
      exact sound_of_allStructured parts hf
  | call callee arguments, _, hf => by
      rw [Structured] at hf
      have hcallee := sound_of_structured callee hf.1
      have harguments := sound_of_allStructured arguments hf.2
      simp only [items, List.forall_mem_append, List.forall_mem_singleton]
      exact ⟨⟨hcallee, harguments⟩, trivial⟩
  | both left right, _, hf => by
      rw [Structured] at hf
      have hleft := sound_of_structured left hf.1
      have hright := sound_of_structured right hf.2
      simp only [items, List.forall_mem_append, List.forall_mem_cons]
      exact ⟨hleft, rfl, ⟨rfl, rfl, rfl⟩, hright⟩
  | either left right, _, hf => by
      rw [Structured] at hf
      have hleft := sound_of_structured left hf.1
      have hright := sound_of_structured right hf.2
      simp only [items, List.forall_mem_append, List.forall_mem_cons]
      exact ⟨hleft, rfl, rfl, ⟨rfl, rfl, rfl⟩, hright⟩
  | choose branches otherwise, _, hf => by
      rw [Structured] at hf
      rw [items, List.forall_mem_append]
      exact ⟨sound_of_branchesStructured _ branches hf.1, sound_of_structured otherwise hf.2⟩
  | loop condition body, _, hf => by
      rw [Structured] at hf
      have hcondition := sound_of_structured condition hf.1
      have hbody := sound_of_structured body hf.2
      simp only [items, List.forall_mem_append, List.forall_mem_cons]
      exact ⟨hcondition, rfl, ⟨rfl, rfl, rfl⟩, hbody, rfl, ⟨rfl, rfl, rfl⟩, List.forall_mem_nil _⟩
  | store _, _, hf => by cases hf
  | position, _, hf => by cases hf
  | functionOrNull _, _, hf => by cases hf
  | label _, _, hf => by cases hf
  | place _, _, hf => by cases hf
  | jump _, _, hf => by cases hf
  | jumpIfFalse _, _, hf => by cases hf

theorem sound_of_allStructured : ∀ (parts : List Fragment) {inFunction : Bool},
    AllStructured inFunction parts -> ∀ item ∈ itemsOfAll parts, item.Sound
  | [], _, _ => by
      simp [itemsOfAll]
  | part :: rest, _, hf => by
      rw [AllStructured] at hf
      rw [itemsOfAll, List.forall_mem_append]
      exact ⟨sound_of_structured part hf.1, sound_of_allStructured rest hf.2⟩

theorem sound_of_branchesStructured : ∀ (rest : Nat) (branches : List FragmentBranch)
    {inFunction : Bool}, BranchesStructured inFunction branches ->
    ∀ item ∈ itemsOfBranches rest branches, item.Sound
  | _, [], _, _ => by
      simp [itemsOfBranches]
  | rest, { condition, body } :: others, _, hf => by
      rw [BranchesStructured] at hf
      have hcondition := sound_of_structured condition hf.1
      have hbody := sound_of_structured body hf.2.1
      have hothers := sound_of_branchesStructured rest others hf.2.2
      simp only [itemsOfBranches, List.forall_mem_append, List.forall_mem_cons]
      exact ⟨hcondition, rfl, ⟨rfl, rfl, rfl⟩, hbody, rfl, ⟨rfl, rfl, rfl⟩, hothers⟩

end

end Fragment

/-!
## Chunks
-/

/-- The bytes of the chunk are the items of the fragment, with the constants of
the chunk. -/
def Chunk.Holds (chunk : Chunk) (f : Fragment) : Prop :=
  ∃ instructions, chunk.code = instructions.flatMap Instruction.encode ∧
    List.Forall₂ (fun item i => item.Sound ∧ item.ReadAs chunk.constants i)
      f.items instructions

theorem Fragment.holds_of_finish {f : Fragment} {inFunction : Bool} {d0 d : Draft}
    {a a' : Assembler} {chunkId : ChunkRef -> Except AssembleError UInt8} {chunk : Chunk}
    (hf : f.Structured inFunction) (hfits : d0.pool.Fits) (hempty : d0.directives = #[])
    (h : f.emit.Yields d0 a () d a') (hfinish : d.finish chunkId = .ok chunk) :
    chunk.Holds f := by
  rcases code_of_finish hf hfits hempty h hfinish with ⟨instructions, hcode, hitems⟩
  have hshown : List.Forall₂ PoolConstant.Shows d.pool.constants chunk.constants :=
    (Draft.finish_eq_ok_iff.mp hfinish).2.1.imp fun _ _ hc =>
      PoolConstant.shows_of_finishConstant hc
  refine ⟨instructions, hcode, ?_⟩
  rw [List.forall₂_and_left]
  exact ⟨sound_of_structured f hf, hitems.imp fun _ _ hi => Item.readAs_of_encodes hshown hi⟩

namespace Chunk.Holds

variable {chunk : Chunk} {f : Fragment}

/-- The sweep over the code meets the items one by one, at their offsets. -/
theorem sweep_eq (h : chunk.Holds f) :
    ∃ swept, sweep chunk.code = some swept ∧
      List.Forall₂ (fun p q => p.1 = q.1 ∧ p.2.Sound ∧ p.2.ReadAs chunk.constants q.2)
        (located Item.size 0 f.items) swept := by
  rcases h with ⟨instructions, hcode, hitems⟩
  refine ⟨located Instruction.byteLength 0 instructions, ?_, ?_⟩
  · rw [hcode]
    exact Instruction.sweepFrom_flatMap_encode 0 (Item.wellFormed_of_forall₂ hitems)
  · apply forall₂_located _ hitems
    intro item i hitem
    exact (Item.wellFormed_of_readAs hitem.1 hitem.2).2.symm

theorem fetch_eq (h : chunk.Holds f) {offset : Nat} {item : Item}
    (hitem : (offset, item) ∈ located Item.size 0 f.items) :
    ∃ i, fetch chunk.code offset = some i ∧ item.Sound ∧ item.ReadAs chunk.constants i := by
  rcases h with ⟨instructions, hcode, hitems⟩
  have hlocated := forall₂_located
    (fun item i hitem => (Item.wellFormed_of_readAs hitem.1 hitem.2).2.symm) hitems 0
  rcases forall₂_mem_left hlocated hitem with ⟨⟨_, i⟩, hi, rfl, hsound, hread⟩
  refine ⟨i, ?_, hsound, hread⟩
  rw [hcode]
  exact Instruction.fetch_flatMap_encode (Item.wellFormed_of_forall₂ hitems) hi

theorem length_code (h : chunk.Holds f) : chunk.code.length = Item.total f.items := by
  rcases h with ⟨instructions, hcode, hitems⟩
  rw [hcode, Item.length_flatMap_of_forall₂ hitems]

end Chunk.Holds

/-- From the offset on the chunk has the code of the items. -/
def Chunk.HoldsAt (chunk : Chunk) (start : Nat) (items : List Item) : Prop :=
  ∃ instructions rest, chunk.code.drop start = instructions.flatMap Instruction.encode ++ rest ∧
    List.Forall₂ (fun item i => item.Sound ∧ item.ReadAs chunk.constants i) items instructions

theorem Chunk.Holds.holdsAt {chunk : Chunk} {f : Fragment} (h : chunk.Holds f) :
    chunk.HoldsAt 0 f.items := by
  rcases h with ⟨instructions, hcode, hread⟩
  exact ⟨instructions, [], hcode.trans (List.append_nil _).symm, hread⟩

namespace Chunk.HoldsAt

variable {chunk : Chunk} {start : Nat} {item : Item} {items items' : List Item}

theorem append (h : chunk.HoldsAt start (items ++ items')) :
    chunk.HoldsAt start items ∧ chunk.HoldsAt (start + Item.total items) items' := by
  rcases h with ⟨_, rest, hcode, hread⟩
  rcases forall₂_append_left hread with ⟨here, there, rfl, hhere, hthere⟩
  rw [List.flatMap_append, List.append_assoc] at hcode
  refine ⟨⟨here, _, hcode, hhere⟩, there, rest, ?_, hthere⟩
  rw [← List.drop_drop, hcode, ← Item.length_flatMap_of_forall₂ hhere, List.drop_left]

theorem cons (h : chunk.HoldsAt start (item :: items)) :
    (∃ i, fetch chunk.code start = some i ∧ item.Sound ∧ item.ReadAs chunk.constants i) ∧
      chunk.HoldsAt (start + item.size) items := by
  refine ⟨?_, by simpa [Item.total] using (List.singleton_append ▸ h).append.2⟩
  rcases h with ⟨_, rest, hcode, hread⟩
  cases hread with
  | @cons _ i _ others hitem _ =>
      rw [List.flatMap_cons, List.append_assoc] at hcode
      refine ⟨i, ?_, hitem⟩
      rw [fetch, hcode]
      exact Instruction.decode?_encode (Item.wellFormed_of_readAs hitem.1 hitem.2).1 _

end Chunk.HoldsAt

/-!
## Programs
-/

def Definition.FinishedAs (f : Definition) (chunk : Chunk) : Prop :=
  chunk.name = some f.name ∧ (f.body.Structured true -> chunk.Holds f.body)

theorem Definition.Built.finishedAs {a : Assembler} {f : Definition} {entry : ChunkEntry}
    {chunk : Chunk} (h : f.Built a entry) (hfinish : a.Finishes entry chunk) :
    f.FinishedAs chunk := by
  rcases h with ⟨_, d, a0, a1, hdraft, _, _, hbody, _⟩
  rcases hfinish with ⟨d', hdraft', hfinish⟩
  rw [hdraft] at hdraft'
  cases hdraft'
  constructor
  · rw [(Draft.finish_eq_ok_iff.mp hfinish).1]
    exact (Fragment.extends_of_emit hbody).name
  · intro hf
    have hfits : (Assembly.functionDraft f.name f.arity d.self).pool.Fits :=
      Assembly.fits_functionDraft _ _ _
    exact Fragment.holds_of_finish hf hfits rfl hbody hfinish

namespace Generated

variable {program : Program} {builtins : List Builtin} {resolution : Resolution}
  {a : Assembler} {b : Bytecode}

theorem body_lowered (g : Generated program builtins resolution a) :
    List.Forall₂ (fun s code => resolution.lowerStmt s = .ok code) program.statements g.body :=
  Resolution.lowerAll_eq_ok_iff.mp g.lowered

theorem exists_chunks (g : Generated program builtins resolution a) (h : a.finalize = .ok b) :
    ∃ main before after, b.chunks = main :: (before ++ after) ∧ main.name = none ∧
      main.Holds (.sequence g.body) ∧
      List.Forall₂ Definition.FinishedAs (builtins.flatMap Builtin.definitions) before ∧
      List.Forall₂ Definition.FinishedAs (Fragment.definitionsOfAll g.body) after := by
  rcases g.chunks_eq h with ⟨main, others, hchunks, hmain, hothers⟩
  rcases forall₂_append_left hothers with ⟨before, after, rfl, hbefore, hafter⟩
  rcases g.main_built with ⟨a0, a1, _, _, _, hyields⟩
  have hstructured : (Fragment.sequence g.body).Structured false :=
    Resolution.structured_of_lowerStmts _ g.body_lowered
  refine ⟨main, before, after, hchunks, ?_, ?_, ?_, ?_⟩
  · rw [(Draft.finish_eq_ok_iff.mp hmain).1]
    exact (Fragment.extends_of_emit hyields).name
  · exact Fragment.holds_of_finish hstructured .empty rfl hyields hmain
  · exact forall₂_compose (fun _ _ _ hbuilt => hbuilt.finishedAs) g.builtins_built hbefore
  · exact forall₂_compose (fun _ _ _ hbuilt => hbuilt.finishedAs) g.functions_built hafter

end Generated

/-!
## Compilations
-/

theorem compile_eq_ok_iff {source : String} {builtins : List Builtin} {c : Compilation} :
    compile source builtins = .ok c ↔
      ∃ program resolution a, Program.parse source = .ok program ∧
        program.resolve builtins = .ok resolution ∧
        program.generate builtins resolution = .ok a ∧
        a.finalize = .ok c.bytecode ∧ a.listing = .ok c.listing := by
  simp only [compile, bind_eq_ok_iff, mapError_eq_ok_iff, Assembler.compilation,
    pure_eq_ok_iff]
  constructor
  · rintro ⟨program, hparse, resolution, hresolve, a, hgenerate, _, hfinal, _, hlisting, rfl⟩
    exact ⟨program, resolution, a, hparse, hresolve, hgenerate, hfinal, hlisting⟩
  · rintro ⟨program, resolution, a, hparse, hresolve, hgenerate, hfinal, hlisting⟩
    exact ⟨program, hparse, resolution, hresolve, a, hgenerate, _, hfinal, _, hlisting, rfl⟩

end StackScript
