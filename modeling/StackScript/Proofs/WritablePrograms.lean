import StackScript.Proofs.BinaryForm
import StackScript.Proofs.ListingAgreement
import StackScript.Proofs.WellFormedCode

/-!
# Compiled programs can be written

The limits of the binary form are met twice.  A draft counts its constants and
measures its code while it grows, and the finished chunk has what was counted.  So
a compiled program can be written unless one of its texts is too long, and then the
first such text is the error.  Code is measured by its opcodes alone: an argument
that an opcode does not take, which only a built-in function can have, makes it
longer than its measure.
-/

namespace StackScript

/-!
## Texts
-/

def Constant.string? : Constant -> Option String
  | string text => some text
  | _ => none

def Chunk.strings (chunk : Chunk) : List String :=
  chunk.constants.filterMap Constant.string?

def Bytecode.strings (program : Bytecode) : List String :=
  program.chunks.flatMap Chunk.strings

def firstTooLong? (texts : List String) : Option String :=
  texts.find? fun text => maxStringLength < (utf8 text).length

theorem firstTooLong?_append {texts texts' : List String} :
    firstTooLong? (texts ++ texts') = (firstTooLong? texts).or (firstTooLong? texts') :=
  List.find?_append

theorem firstTooLong?_eq_none_iff {texts : List String} :
    firstTooLong? texts = none ↔ ∀ text ∈ texts, (utf8 text).length ≤ maxStringLength := by
  simp [firstTooLong?]

def AssembleError.ofText (text : String) : AssembleError :=
  .stringTooLong (utf8 text).length

theorem Constant.fault?_encode (k : Constant) :
    fault? k.encode = (firstTooLong? k.string?.toList).map .ofText := by
  cases k with
  | int n => rfl
  | function id => rfl
  | string text =>
      by_cases hlength : (utf8 text).length ≤ maxStringLength
      · have hfirst : firstTooLong? [text] = none :=
          firstTooLong?_eq_none_iff.mpr (List.forall_mem_singleton.mpr hlength)
        simp [encode, fault?, string?, hlength, hfirst]
      · have hfirst : firstTooLong? [text] = some text :=
          List.find?_cons_of_pos (decide_eq_true (Nat.not_le.mp hlength))
        simp [encode, fault?, string?, hlength, hfirst, AssembleError.ofText]

theorem Constant.fault?_mapM_encode (constants : List Constant) :
    fault? (constants.mapM encode) =
      (firstTooLong? (constants.filterMap string?)).map .ofText := by
  induction constants with
  | nil => rfl
  | cons k rest ih =>
      have htexts : (k :: rest).filterMap string? = k.string?.toList ++ rest.filterMap string? := by
        rw [List.filterMap_cons]
        cases k.string? <;> rfl
      rw [fault?_mapM_cons, k.fault?_encode, ih, htexts, firstTooLong?_append, Option.map_or]

/-- Why a chunk cannot be written: for its code, or else for the first of its
texts that is too long. -/
def Chunk.unwritable? (chunk : Chunk) : Option AssembleError :=
  if maxCodeLength < chunk.code.length then
    some (.codeTooLong chunk.displayName chunk.code.length)
  else
    (firstTooLong? chunk.strings).map .ofText

theorem Chunk.fault?_encode {chunk : Chunk} (h : chunk.constants.length ≤ 255) :
    fault? chunk.encode = chunk.unwritable? := by
  rw [encode, if_neg (Nat.not_lt.mpr h), unwritable?]
  by_cases hcode : maxCodeLength < chunk.code.length
  · rw [if_pos hcode, if_pos hcode]
    rfl
  · rw [if_neg hcode, if_neg hcode, fault?_bind_pure, Constant.fault?_mapM_encode]
    rfl

theorem Chunk.unwritable?_eq_none_iff {chunk : Chunk} :
    chunk.unwritable? = none ↔ chunk.code.length ≤ maxCodeLength ∧
      ∀ text ∈ chunk.strings, (utf8 text).length ≤ maxStringLength := by
  rw [unwritable?]
  by_cases hcode : maxCodeLength < chunk.code.length
  · simp [hcode, Nat.not_le.mpr hcode]
  · rw [if_neg hcode, Option.map_eq_none_iff, firstTooLong?_eq_none_iff]
    exact (and_iff_right (Nat.not_lt.mp hcode)).symm

theorem Chunk.unwritable?_ne_constantPoolFull (chunk : Chunk) {name : String} {limit : Nat} :
    chunk.unwritable? ≠ some (.constantPoolFull name limit) := by
  rw [unwritable?]
  by_cases hcode : maxCodeLength < chunk.code.length
  · rw [if_pos hcode]
    simp
  · rw [if_neg hcode]
    cases firstTooLong? chunk.strings <;> simp [AssembleError.ofText]

/-- A program whose constants can be counted fails to be written as the first of
its chunks that does. -/
theorem Bytecode.fault?_encode {program : Bytecode}
    (h : ∀ chunk ∈ program.chunks, chunk.constants.length ≤ 255) :
    fault? program.encode = program.chunks.findSome? Chunk.unwritable? := by
  rw [encode, fault?_bind_pure]
  generalize program.chunks = chunks at h
  induction chunks with
  | nil => rfl
  | cons chunk rest ih =>
      rw [List.forall_mem_cons] at h
      rw [fault?_mapM_cons, Chunk.fault?_encode h.1, ih h.2, List.findSome?_cons]
      cases chunk.unwritable? <;> rfl

/-- Where no code is too long, the texts are all that matters. -/
theorem Bytecode.findSome?_unwritable? {program : Bytecode}
    (h : ∀ chunk ∈ program.chunks, chunk.code.length ≤ maxCodeLength) :
    program.chunks.findSome? Chunk.unwritable? =
      (firstTooLong? program.strings).map .ofText := by
  rw [strings]
  generalize program.chunks = chunks at h
  induction chunks with
  | nil => rfl
  | cons chunk rest ih =>
      rw [List.forall_mem_cons] at h
      rw [List.findSome?_cons, ih h.2, List.flatMap_cons, firstTooLong?_append, Option.map_or,
        Chunk.unwritable?, if_neg (Nat.not_lt.mpr h.1)]
      cases (firstTooLong? chunk.strings).map AssembleError.ofText <;> rfl

/-!
## Code within its measure
-/

/-- The instruction has an argument only if its opcode takes one. -/
def Instruction.Covered (i : Instruction) : Prop :=
  i.argument.isSome -> i.opcode.argumentBytes = 1

theorem Instruction.covered_of_wellFormed : WellFormed ≤ Covered := by
  intro i h hsome
  rw [WellFormed, hsome] at h
  exact eq_of_beq h.symm

theorem Instruction.Covered.length_encode_le {i : Instruction} (h : i.Covered) :
    i.encode.length ≤ i.byteLength := by
  rw [encode, byteLength, List.length_cons]
  cases hargument : i.argument with
  | none => exact Nat.le_add_right 1 _
  | some arg =>
      rw [h (Option.isSome_iff_exists.mpr ⟨arg, hargument⟩)]
      rfl

namespace Draft

variable {d d' : Draft}

/-- The positions count every directive, and no instruction is longer than it was
counted. -/
structure Covered (d : Draft) : Prop where
  position : d.position = totalSize Directive.byteLength d.directives.toList
  instructions : ∀ i, .instr i ∈ d.directives.toList -> i.Covered

namespace Covered

theorem start (name : Option String) (self : ChunkRef) : Covered { name, self } where
  position := rfl
  instructions := by
    intro i h
    cases h

theorem same (h : d.Covered) (hposition : d'.position = d.position)
    (hdirectives : d'.directives = d.directives) : d'.Covered where
  position := by
    rw [hposition, hdirectives]
    exact h.position
  instructions := by
    rw [hdirectives]
    exact h.instructions

theorem push (h : d.Covered) {directive : Directive}
    (hdirective : ∀ i, directive = .instr i -> i.Covered) : (d.push directive).Covered where
  position := by
    rw [Draft.push, Array.toList_push, totalSize_append, h.position]
    rfl
  instructions := by
    intro i hi
    rw [Draft.push, Array.toList_push, List.mem_append, List.mem_singleton] at hi
    rcases hi with hold | hnew
    · exact h.instructions i hold
    · exact hdirective i hnew.symm

theorem instr (h : d.Covered) {i : Instruction} (hi : i.Covered) : (d.push (.instr i)).Covered := by
  apply h.push
  intro j hj
  cases hj
  exact hi

theorem store (h : d.Covered) {c : PoolConstant} {index : UInt8}
    (hstore : d.store c = .ok (index, d')) : d'.Covered := by
  rw [(store_eq_ok hstore).2]
  exact h.same rfl rfl

theorem mark (h : d.Covered) {directive : Directive} (hlength : directive.byteLength = 2)
    (hdirective : ∀ i, directive ≠ .instr i) : (d.mark directive).Covered := by
  refine (h.push fun i hi => absurd hi (hdirective i)).same ?_ rfl
  rw [Draft.push, hlength]
  rfl

theorem step (h : d.Covered) (hstep : d.Step d') : d'.Covered := by
  cases hstep with
  | fail => exact h
  | instr hi => exact h.instr (Instruction.covered_of_wellFormed _ hi)
  | store hstore => exact h.store hstore
  | pooled hstore hopcode => exact (h.store hstore).instr fun _ => hopcode
  | label name => exact h.same rfl rfl
  | place hplace =>
      rcases place_eq_ok hplace with ⟨_, _, _, hrest⟩
      rw [hrest]
      exact h.same rfl rfl
  | jump target => exact h.mark rfl fun _ hi => by cases hi
  | jumpIfFalse target => exact h.mark rfl fun _ hi => by cases hi

theorem kept : Kept Instruction.Covered Covered where
  start := start
  instr _ _ h hi := h.instr hi
  step _ _ := step

end Covered

theorem length_encode_of_jumpInstruction {opcode : Opcode} {target : Label} {distance : Nat}
    {i : Instruction} (h : d.jumpInstruction opcode target distance = .ok i) :
    i.encode.length = 2 := by
  unfold jumpInstruction at h
  split at h
  · cases h
    rfl
  · cases h

theorem Covered.length_encode_of_resolve (h : d.Covered) {directive : Directive} {i : Instruction}
    (hmem : directive ∈ d.directives.toList) (hi : d.resolve directive = .ok i) :
    i.encode.length ≤ directive.byteLength := by
  cases directive with
  | instr j =>
      cases hi
      exact (h.instructions i hmem).length_encode_le
  | jump target here =>
      simp only [resolve, bind_eq_ok_iff] at hi
      rcases hi with ⟨there, _, behind, _, hjump⟩
      split at hjump
      · exact (length_encode_of_jumpInstruction hjump).le
      · exact (length_encode_of_jumpInstruction hjump).le
  | jumpIfFalse target here =>
      simp only [resolve, bind_eq_ok_iff] at hi
      rcases hi with ⟨there, _, behind, _, hjump⟩
      split at hjump
      · cases hjump
      · exact (length_encode_of_jumpInstruction hjump).le

theorem length_flatMap_encode_le {directives : List Directive} {instructions : List Instruction}
    (h : List.Forall₂ (fun directive i => i.encode.length ≤ directive.byteLength)
      directives instructions) :
    (instructions.flatMap Instruction.encode).length ≤
      totalSize Directive.byteLength directives := by
  induction h with
  | nil => exact Nat.le_refl 0
  | cons hfirst _ ih =>
      rw [List.flatMap_cons, List.length_append, totalSize_cons]
      exact Nat.add_le_add hfirst ih

/-- The finished code is within the limit, since its measure is. -/
theorem Covered.length_code (h : d.Covered) {code : List UInt8} (hcode : d.code = .ok code) :
    code.length ≤ maxCodeLength := by
  rcases code_eq_ok_iff.mp hcode with ⟨hfits, instructions, hresolved, rfl⟩
  rw [h.position] at hfits
  refine Nat.le_trans (length_flatMap_encode_le ?_) hfits
  exact ((List.forall₂_and_left _ _).mpr ⟨fun _ => id, hresolved⟩).imp
    fun _ _ hpair => h.length_encode_of_resolve hpair.1 hpair.2

end Draft

/-!
## Finished chunks
-/

namespace Assembler

variable {calls : List BuildCall} {b : Bytecode} {chunk : Chunk}

theorem exists_draft_of_finalize {a : Assembler} (h : a.finalize = .ok b)
    (hchunk : chunk ∈ b.chunks) :
    ∃ ref d, a.draft? ref = some d ∧ d.finish a.chunkId = .ok chunk := by
  rcases finalize_eq_ok h with ⟨_, _, _, hall⟩
  rcases forall₂_mem_right hall hchunk with ⟨ref, _, entry, hentry, d, hd, hfinish⟩
  refine ⟨ref, d, ?_, hfinish⟩
  rw [draft?, hentry]
  exact hd

theorem length_constants_of_finalize (h : (built {} calls).finalize = .ok b)
    (hchunk : chunk ∈ b.chunks) : chunk.constants.length ≤ 255 := by
  rcases exists_draft_of_finalize h hchunk with ⟨ref, d, hd, hfinish⟩
  rcases extends_of_draft? calls hd with ⟨name, _, hextends⟩
  rw [← (Draft.finish_eq_ok_iff.mp hfinish).2.1.length_eq]
  exact (hextends.fits .empty).count

theorem length_code_of_finalize
    (hcalls : ∀ call ∈ calls, call.body.EmitsOnly Instruction.Covered)
    (h : (built {} calls).finalize = .ok b) (hchunk : chunk ∈ b.chunks) :
    chunk.code.length ≤ maxCodeLength := by
  rcases exists_draft_of_finalize h hchunk with ⟨ref, d, hd, hfinish⟩
  have hcovered : d.Covered := every_built Draft.Covered.kept .start hcalls ref d hd
  exact hcovered.length_code (Draft.finish_eq_ok_iff.mp hfinish).2.2

end Assembler

/-!
## Code beyond its measure
-/

namespace Draft

def repeated (d : Draft) (i : Instruction) (count : Nat) : Draft :=
  { d with
    directives := d.directives ++ Array.replicate count (.instr i)
    position := d.position + count * i.byteLength }

theorem repeated_succ (d : Draft) (i : Instruction) (count : Nat) :
    d.repeated i (count + 1) = (d.push (.instr i)).repeated i count := by
  rw [repeated, repeated, push]
  congr 1
  · apply Array.toList_inj.mp
    simp [List.replicate_succ]
  · rw [Nat.add_one_mul, Nat.add_comm _ i.byteLength, Nat.add_assoc]
    rfl

end Draft

theorem Fragment.yields_emitAll_replicate (i : Instruction) (count : Nat) (d : Draft)
    (a : Assembler) :
    (emitAll (List.replicate count (instr i))).Yields d a () (d.repeated i count) a := by
  induction count generalizing d with
  | zero => simp [emitAll, Emit.yields_pure_iff, Draft.repeated]
  | succ count ih =>
      rw [List.replicate_succ, emitAll, Emit.yields_bind_iff, d.repeated_succ]
      refine ⟨(), d.push (.instr i), a, ?_, ih _⟩
      rw [emit, Emit.yields_push_iff]
      exact ⟨rfl, rfl⟩

/-- It has an argument that its opcode does not take. -/
def overfullPop : Instruction where
  opcode := .pop
  argument := some 0

def overfullBuiltin (count : Nat) : Builtin where
  name := "a"
  arity := 0
  code := .sequence (List.replicate count (.instr overfullPop))

namespace Overfull

-- The count is a variable up to the last theorem, so that nothing of its size has
-- to be evaluated.

def draft (count : Nat) : Draft :=
  (Assembly.functionDraft "a" 0 0).repeated overfullPop count

def started (count : Nat) : Assembler where
  entries := #[{ name := some "a", draft := some (draft count) }]
  handles := [("a", 0)]

def assembler (count : Nat) : Assembler where
  entries := #[{ name := some "a", draft := some (draft count) },
    { name := none, draft := some { name := none, self := 1 } }]
  handles := [("a", 0)]
  main? := some 1

def chunk (count : Nat) : Chunk where
  name := some "a"
  constants := [.string "a", .int 0]
  code := (List.replicate count overfullPop.encode).flatten

theorem length_code_chunk (count : Nat) : (chunk count).code.length = count * 2 := by
  rw [chunk, List.length_flatten, List.map_replicate, List.sum_replicate_nat]
  rfl

theorem generate_eq (count : Nat) {program : Program} (h : program.statements = [])
    (resolution : Resolution) :
    program.generate [overfullBuiltin count] resolution = .ok (assembler count) := by
  have hfunction : Assembly.addFunction "a" 0 (overfullBuiltin count).code {} =
      .ok 0 (started count) := by
    rw [Assembly.addFunction, Assembly.addFunctionChunk_eq_ok_iff]
    refine ⟨Assembler.entered {} (some "a"), draft count, Assembler.entered {} (some "a"),
      rfl, ?_, rfl⟩
    exact Fragment.yields_emitAll_replicate _ count _ _
  have hbuiltins : Assembly.addBuiltins [overfullBuiltin count] {} = .ok () (started count) := by
    show EStateM.bind (Assembly.addFunction "a" 0 (overfullBuiltin count).code) _ {} = _
    rw [EStateM.bind, hfunction]
    rfl
  have hmain : Assembly.addMain (.sequence []) (started count) = .ok 1 (assembler count) := rfl
  simp only [Program.generate, bind_eq_ok_iff, pure_eq_ok_iff, h]
  exact ⟨((), started count), Assembly.runFrom_eq_ok_iff.mpr hbuiltins, [], rfl,
    (1, assembler count), Assembly.runFrom_eq_ok_iff.mpr hmain, rfl⟩

/-- The draft is as long as the opcodes call for, and is finished although its
code is twice as long. -/
theorem finish_draft {count : Nat} (h : count ≤ maxCodeLength)
    (chunkId : ChunkRef -> Except AssembleError UInt8) :
    (draft count).finish chunkId = .ok (chunk count) := by
  rw [Draft.finish_eq_ok_iff]
  refine ⟨rfl, .cons rfl (.cons rfl .nil), Draft.code_eq_ok_iff.mpr ⟨?_, ?_⟩⟩
  · show 0 + count * 1 ≤ maxCodeLength
    rw [Nat.zero_add, Nat.mul_one]
    exact h
  · refine ⟨List.replicate count overfullPop, ?_, ?_⟩
    · have hdirectives : (draft count).directives.toList =
          (List.replicate count overfullPop).map .instr := by
        simp [draft, Draft.repeated, Assembly.functionDraft]
      rw [hdirectives, List.forall₂_map_left_iff, List.forall₂_same]
      exact fun _ _ => rfl
    · rw [List.flatMap_replicate]
      rfl

theorem compile_eq_ok (count : Nat) (h : count ≤ maxCodeLength) :
    ∃ c, compile "" [overfullBuiltin count] = .ok c ∧
      c.bytecode.chunks = [{ name := none, constants := [], code := [] }, chunk count] := by
  have hparse : ∃ program, Program.parse "" = .ok program ∧ program.statements.length = 0 := by
    apply exists_ok_of_map (·.statements.length) (y := 0)
    · decide +kernel
    · exact fun _ _ hstatements => hstatements
  rcases hparse with ⟨program, hparse, hstatements⟩
  have hstatements := List.length_eq_zero_iff.mp hstatements
  have hresolve : program.resolve [overfullBuiltin count] = .ok {} := by
    rw [Program.resolve, hstatements]
    rfl
  have hgenerate := generate_eq count hstatements {}
  have hfinal : (assembler count).finalize =
      .ok { chunks := [{ name := none, constants := [], code := [] }, chunk count] } := by
    rw [Assembler.finalize_eq_ok_iff]
    exact ⟨[_, draft count], rfl, .cons rfl (.cons (finish_draft h _) .nil)⟩
  have hlisting : ∃ text, (assembler count).listing = .ok text := by
    rcases Program.generate_eq_ok hgenerate with ⟨body, _, hbuilt⟩
    rw [hbuilt] at hfinal ⊢
    exact Assembler.exists_listing hfinal
  rcases hlisting with ⟨text, hlisting⟩
  exact ⟨{ bytecode := _, listing := text }, compile_eq_ok_iff.mpr
    ⟨program, {}, assembler count, hparse, hresolve, hgenerate, hfinal, hlisting⟩, rfl⟩

theorem encode_eq_error {count : Nat} {b : Bytecode} (h : maxCodeLength < count * 2)
    (hchunks : b.chunks = [{ name := none, constants := [], code := [] }, chunk count]) :
    b.encode = .error (.codeTooLong "a" (count * 2)) := by
  rw [← fault?_eq_some_iff, Bytecode.fault?_encode, hchunks]
  · have hchunk : (chunk count).unwritable? = some (.codeTooLong "a" (count * 2)) := by
      rw [Chunk.unwritable?, length_code_chunk, if_pos h]
      rfl
    rw [List.findSome?_cons, List.findSome?_cons, hchunk]
    rfl
  · rw [hchunks]
    simp [chunk]

end Overfull

/-!
## Compiled programs
-/

theorem Program.emitsOnly_buildCalls {program : Program} {builtins : List Builtin}
    {resolution : Resolution} {body : List Fragment}
    (hbuiltins : ∀ b ∈ builtins, b.code.EmitsOnly Instruction.Covered)
    (h : resolution.lowerStmts [] program.statements = .ok body) :
    ∀ call ∈ buildCalls builtins body, call.body.EmitsOnly Instruction.Covered := by
  intro call hcall
  rw [buildCalls, List.mem_append, List.mem_map, List.mem_singleton] at hcall
  have hP := Instruction.covered_of_wellFormed
  rcases hcall with ⟨b, hb, rfl⟩ | rfl
  · exact b.code.emitsOnly_routine hP (hbuiltins b hb) trivial
  · have hstructured : (Fragment.sequence body).Structured false :=
      Resolution.structured_of_lowerStmts _ (Resolution.lowerAll_eq_ok_iff.mp h)
    exact Fragment.emitsOnly_routine hP _ (Fragment.emitsOnly_of_structured hP _ hstructured)
      trivial

/-- A compiled program never has too many constants to be written.  It fails to be
written as the first of its chunks that does, for its code or for a text.  No code
is too long if no instruction of a built-in function has an argument that its
opcode does not take; then the first text that is too long is the only error. -/
theorem compiled_encode_iff {source : String} {builtins : List Builtin} {c : Compilation}
    (h : compile source builtins = .ok c) :
    (∀ name limit, c.bytecode.encode ≠ .error (.constantPoolFull name limit)) ∧
    ((∃ bytes, c.bytecode.encode = .ok bytes) ↔
      ∀ chunk ∈ c.bytecode.chunks, chunk.code.length ≤ maxCodeLength ∧
        ∀ text ∈ chunk.strings, (utf8 text).length ≤ maxStringLength) ∧
    (∀ e, c.bytecode.encode = .error e ↔
      c.bytecode.chunks.findSome? Chunk.unwritable? = some e) ∧
    ((∀ b ∈ builtins, b.code.EmitsOnly Instruction.Covered) ->
      ((∃ bytes, c.bytecode.encode = .ok bytes) ↔
        ∀ text ∈ c.bytecode.strings, (utf8 text).length ≤ maxStringLength) ∧
      ∀ e, c.bytecode.encode = .error e ↔
        ∃ text, c.bytecode.strings.find? (fun text => maxStringLength < (utf8 text).length) =
          some text ∧ e = .stringTooLong (utf8 text).length) := by
  rcases compile_eq_ok_iff.mp h with ⟨program, resolution, a, _, _, hgenerate, hfinal, _⟩
  rcases Program.generate_eq_ok hgenerate with ⟨body, hlowered, rfl⟩
  have hfault := Bytecode.fault?_encode
    fun _ hchunk => Assembler.length_constants_of_finalize hfinal hchunk
  refine ⟨?_, ?_, ?_, ?_⟩
  · intro name limit hfull
    rw [← fault?_eq_some_iff, hfault] at hfull
    rcases List.exists_of_findSome?_eq_some hfull with ⟨chunk, _, hchunk⟩
    exact Chunk.unwritable?_ne_constantPoolFull chunk hchunk
  · rw [← fault?_eq_none_iff, hfault, List.findSome?_eq_none_iff]
    simp only [Chunk.unwritable?_eq_none_iff]
  · intro e
    rw [← fault?_eq_some_iff, hfault]
  · intro hbuiltins
    rw [Bytecode.findSome?_unwritable? fun _ hchunk => Assembler.length_code_of_finalize
      (Program.emitsOnly_buildCalls hbuiltins hlowered) hfinal hchunk] at hfault
    constructor
    · rw [← fault?_eq_none_iff, hfault, Option.map_eq_none_iff, firstTooLong?_eq_none_iff]
    · intro e
      rw [← fault?_eq_some_iff, hfault, Option.map_eq_some_iff]
      constructor
      · rintro ⟨text, hfirst, rfl⟩
        exact ⟨text, hfirst, rfl⟩
      · rintro ⟨text, hfirst, rfl⟩
        exact ⟨text, hfirst, rfl⟩

theorem compiled_encode_iff_nested :
    (∀ b ∈ Builtin.standard, b.code.EmitsOnly Instruction.Covered) ∧
      ∃ c, compile
          "fn outer(a) \x7b \x7b fn inner() \x7b return; \x7d \x7d \x7d" Builtin.standard = .ok c ∧
        c.bytecode.strings = ["outer", "fact", "println", "object", "outer", "inner"] ∧
        (∃ bytes, c.bytecode.encode = .ok bytes) ∧ ∀ e, c.bytecode.encode ≠ .error e := by
  have hstandard : ∀ b ∈ Builtin.standard, b.code.EmitsOnly Instruction.Covered := by
    intro b hb
    exact Fragment.emitsOnly_of_structured Instruction.covered_of_wellFormed _
      (Builtin.structured_of_mem_standard hb)
  refine ⟨hstandard, ?_⟩
  apply exists_ok_of_map (fun c => c.bytecode.strings)
    (y := ["outer", "fact", "println", "object", "outer", "inner"])
  · decide +kernel
  · intro c hc hstrings
    rcases (compiled_encode_iff hc).2.2.2 hstandard with ⟨hwritten, hfails⟩
    rw [hstrings] at hwritten hfails
    refine ⟨hstrings, hwritten.mpr (by decide +kernel), ?_⟩
    intro e he
    rcases (hfails e).mp he with ⟨text, hlong, _⟩
    have hnone : ["outer", "fact", "println", "object", "outer", "inner"].find?
        (fun text => maxStringLength < (utf8 text).length) = none := by decide +kernel
    cases hnone.symm.trans hlong

/-- A program can be compiled and not be written although its texts are short:
here every instruction was counted as one byte, and takes two. -/
theorem overfullBuiltin_not_written :
    ∃ c, compile "" [overfullBuiltin 40000] = .ok c ∧
      (∀ text ∈ c.bytecode.strings, (utf8 text).length ≤ maxStringLength) ∧
      c.bytecode.encode = .error (.codeTooLong "a" 80000) := by
  rcases Overfull.compile_eq_ok 40000 (by decide) with ⟨c, hc, hchunks⟩
  refine ⟨c, hc, ?_, Overfull.encode_eq_error (by decide) hchunks⟩
  have hstrings : c.bytecode.strings = ["a"] := by
    rw [Bytecode.strings, hchunks]
    rfl
  rw [hstrings]
  decide +kernel

end StackScript
