import StackScript.Lowering
import StackScript.Proofs.Emission
import StackScript.Proofs.Outcomes

/-!
# The chunks of a program under construction

A fragment adds a chunk for each function that it defines, the outer ones
before those inside them, and leaves the chunks before it alone.  This gives the
list of all chunks behind a program, each with the fragment that filled it, and
the way from there to the finished bytecode.
-/

namespace StackScript

/-!
## Functions defined by fragments
-/

structure Definition where
  name : String
  arity : UInt8
  body : Fragment

namespace Fragment

mutual

def definitions : Fragment -> List Definition
  | define name arity body => { name, arity, body } :: body.definitions
  | sequence parts => definitionsOfAll parts
  | call callee arguments => callee.definitions ++ definitionsOfAll arguments
  | both left right => left.definitions ++ right.definitions
  | either left right => left.definitions ++ right.definitions
  | choose branches otherwise => definitionsOfBranches branches ++ otherwise.definitions
  | loop condition body => condition.definitions ++ body.definitions
  | _ => []

def definitionsOfAll : List Fragment -> List Definition
  | [] => []
  | part :: rest => part.definitions ++ definitionsOfAll rest

def definitionsOfBranches : List FragmentBranch -> List Definition
  | [] => []
  | { condition, body } :: rest =>
      condition.definitions ++ (body.definitions ++ definitionsOfBranches rest)

end

end Fragment

namespace Assembler

def names (a : Assembler) : List (Option String) :=
  a.entries.toList.map (·.name)

theorem length_names (a : Assembler) : a.names.length = a.entries.size := by
  simp [names]

theorem reserve_eq_ok_iff {a a' : Assembler} {name : Option String} {ref : ChunkRef} :
    a.reserve name = .ok (ref, a') ↔
      a.handle? name = none ∧ ref = a.entries.size ∧ a' = a.entered name := by
  unfold reserve
  cases a.handle? name with
  | some other => simp
  | none => simp [eq_comm]

theorem entries_entered (a : Assembler) (name : Option String) :
    (a.entered name).entries = a.entries.push { name } := by
  cases name <;> rfl

theorem toList_entered_append (a : Assembler) (name : Option String) (more : List ChunkEntry) :
    (a.entered name).entries.toList ++ more = a.entries.toList ++ { name } :: more := by
  rw [entries_entered, Array.toList_push, List.append_assoc]
  rfl

theorem names_entered (a : Assembler) (name : Option String) :
    (a.entered name).names = a.names ++ [name] := by
  simp [names, entries_entered]

theorem getElem?_names_entered {a : Assembler} {name other : Option String} {ref : ChunkRef} :
    (a.entered name).names[ref]? = some other ↔
      a.names[ref]? = some other ∨ ref = a.entries.size ∧ other = name := by
  rw [names_entered, List.getElem?_append, ← a.length_names]
  by_cases hold : ref < a.names.length
  · simp [hold, Nat.ne_of_lt hold]
  · rcases Nat.exists_eq_add_of_le (Nat.le_of_not_lt hold) with ⟨k, rfl⟩
    cases k <;> simp [eq_comm]

theorem handle?_entered (a : Assembler) (name other : Option String) :
    (a.entered name).handle? other =
      if other = name then some a.entries.size else a.handle? other := by
  cases name with
  | none => cases other <;> rfl
  | some text =>
      cases other with
      | none => rfl
      | some otherText =>
          by_cases h : otherText = text
          · simp [handle?, named?, entered, h]
          · simp [handle?, named?, entered, List.lookup_cons, h, beq_false_of_ne h]

theorem toList_complete {a : Assembler} {d : Draft} {before after : List ChunkEntry}
    {entry : ChunkEntry} (h : a.entries.toList = before ++ entry :: after)
    (hself : d.self = before.length) :
    (a.complete d).entries.toList = before ++ { entry with draft := some d } :: after := by
  show (a.entries.modify d.self _).toList = _
  rw [Array.toList_modify, h, hself, List.modify_eq_take_drop]
  simp

theorem names_complete (a : Assembler) (d : Draft) : (a.complete d).names = a.names := by
  unfold names complete
  rw [Array.toList_modify]
  apply List.ext_getElem?
  intro i
  simp only [List.getElem?_map, List.getElem?_modify]
  by_cases hi : d.self = i <;> cases a.entries.toList[i]? <;> simp [hi]

theorem isPrefix_names_complete (a : Assembler) (d : Draft) :
    a.names <+: (a.complete d).names :=
  ⟨[], by rw [names_complete, List.append_nil]⟩

/-- A handle is kept for each chunk, under its name, and for nothing else. -/
def Indexed (a : Assembler) : Prop :=
  ∀ name ref, a.handle? name = some ref ↔ a.names[ref]? = some name

namespace Indexed

variable {a : Assembler}

theorem start : ({} : Assembler).Indexed := by
  intro name ref
  cases name <;> simp [handle?, named?, names]

theorem entered (h : a.Indexed) {name : Option String} (hfree : a.handle? name = none) :
    (a.entered name).Indexed := by
  intro other ref
  rw [handle?_entered, getElem?_names_entered]
  by_cases hother : other = name
  · have hnew : a.names[ref]? ≠ some name := by
      intro htaken
      cases hfree.symm.trans ((h name ref).mpr htaken)
    simp [hother, hnew, eq_comm]
  · simp [hother, h other ref]

theorem complete (h : a.Indexed) (d : Draft) : (a.complete d).Indexed := by
  intro name ref
  rw [names_complete, ← h name ref]
  cases name <;> rfl

theorem handle?_eq_none_iff (h : a.Indexed) {name : Option String} :
    a.handle? name = none ↔ name ∉ a.names := by
  rw [List.mem_iff_getElem?, Option.eq_none_iff_forall_ne_some, not_exists]
  exact forall_congr' fun ref => not_congr (h name ref)

theorem nodup_names (h : a.Indexed) : a.names.Nodup := by
  apply List.pairwise_iff_getElem.mpr
  intro i j hi hj hlt heq
  have hfirst := (h _ i).mpr (List.getElem?_eq_getElem hi)
  have hlast := (h _ j).mpr (List.getElem?_eq_getElem hj)
  rw [heq, hlast] at hfirst
  cases hfirst
  exact Nat.lt_irrefl _ hlt

end Indexed
end Assembler

/-- The entry holds the draft that the body of the function filled.  When that
was done the program had reached a state from which `a` came. -/
def Definition.Built (a : Assembler) (f : Definition) (entry : ChunkEntry) : Prop :=
  entry.name = some f.name ∧
    ∃ d a0 a1, entry.draft = some d ∧ a0.Indexed ∧ a0.names[d.self]? = some (some f.name) ∧
      f.body.emit.Yields (Assembly.functionDraft f.name f.arity d.self) a0 () d a1 ∧
      a1.names <+: a.names

/-- The program `a'` came from `a` by adding the chunks of the given
functions, which were built one after the other if the handles of `a` were in
order. -/
structure Grown (a a' : Assembler) (functions : List Definition) : Prop where
  indexed : a.Indexed -> a'.Indexed
  entries : ∃ entries, a'.entries.toList = a.entries.toList ++ entries ∧
    (a.Indexed -> List.Forall₂ (Definition.Built a') functions entries)

namespace Grown

variable {a a' a'' : Assembler} {functions functions' : List Definition}

theorem refl (a : Assembler) : Grown a a [] :=
  ⟨id, [], (List.append_nil _).symm, fun _ => .nil⟩

theorem keeps_names (h : Grown a a' functions) : a.names <+: a'.names := by
  rcases h.entries with ⟨entries, hentries, _⟩
  refine ⟨entries.map (·.name), ?_⟩
  unfold Assembler.names
  rw [hentries, List.map_append]

end Grown

theorem Definition.Built.mono {a a' : Assembler} {f : Definition} {entry : ChunkEntry}
    (h : f.Built a entry) (hnames : a.names <+: a'.names) : f.Built a' entry := by
  rcases h with ⟨hname, d, a0, a1, hdraft, hindexed, hself, hbody, hfirst⟩
  exact ⟨hname, d, a0, a1, hdraft, hindexed, hself, hbody, hfirst.trans hnames⟩

namespace Grown

variable {a a' a'' : Assembler} {functions functions' : List Definition}

theorem trans (h : Grown a a' functions) (h' : Grown a' a'' functions') :
    Grown a a'' (functions ++ functions') := by
  rcases h.entries with ⟨entries, hentries, hbuilt⟩
  rcases h'.entries with ⟨entries', hentries', hbuilt'⟩
  refine ⟨fun ha => h'.indexed (h.indexed ha), entries ++ entries', ?_, ?_⟩
  · rw [hentries', hentries, List.append_assoc]
  · intro ha
    exact List.rel_append ((hbuilt ha).imp fun _ _ hf => hf.mono h'.keeps_names)
      (hbuilt' (h.indexed ha))

/-- A chunk is put in place behind those that were there, and in front of those
of the functions inside it. -/
theorem complete {name : Option String} {ref : ChunkRef} {a1 a2 : Assembler} {d : Draft}
    (hreserve : a.reserve name = .ok (ref, a1)) (hgrown : Grown a1 a2 functions)
    (hself : d.self = ref) :
    ∃ entries, (a2.complete d).entries.toList =
        a.entries.toList ++ { name := name, draft := some d } :: entries ∧
      a1.names[ref]? = some name ∧
      (a.Indexed -> a1.Indexed ∧ (a2.complete d).Indexed ∧
        List.Forall₂ (Definition.Built (a2.complete d)) functions entries) := by
  rcases Assembler.reserve_eq_ok_iff.mp hreserve with ⟨hfree, rfl, rfl⟩
  rcases hgrown.entries with ⟨entries, hentries, hbuilt⟩
  have hstarted := hentries.trans (a.toList_entered_append name entries)
  refine ⟨entries, Assembler.toList_complete hstarted hself, ?_, ?_⟩
  · rw [Assembler.names_entered, ← a.length_names]
    exact List.getElem?_concat_length
  · intro ha
    have hentered := ha.entered hfree
    refine ⟨hentered, (hgrown.indexed hentered).complete d, ?_⟩
    apply (hbuilt hentered).imp
    intro f entry hf
    exact hf.mono (a2.isPrefix_names_complete d)

theorem of_addFunctionChunk {name : String} {arity : UInt8} {body : Fragment} {ref : ChunkRef}
    (hbody : ∀ {d d' : Draft} {a1 a2 : Assembler}, body.emit.Yields d a1 () d' a2 ->
      Grown a1 a2 functions)
    (h : Assembly.addFunctionChunk name arity body.emit a = .ok ref a') :
    Grown a a' ({ name, arity, body } :: functions) := by
  rcases Assembly.addFunctionChunk_eq_ok_iff.mp h with ⟨a1, d, a2, hreserve, hemit, rfl⟩
  have hself : d.self = ref := (Fragment.actions_of_emit body hemit).draft_extends.self
  rcases complete hreserve (hbody hemit) hself with ⟨entries, hentries, hname, hbuilt⟩
  refine ⟨fun ha => (hbuilt ha).2.1, _, hentries, fun ha => ?_⟩
  refine .cons ⟨rfl, d, a1, a2, rfl, (hbuilt ha).1, ?_, ?_, ?_⟩ (hbuilt ha).2.2
  · rw [hself]
    exact hname
  · rw [hself]
    exact hemit
  · exact a2.isPrefix_names_complete d

end Grown

namespace Fragment

open Emit

mutual

theorem grown_of_emit : ∀ (f : Fragment) {d d' : Draft} {a a' : Assembler},
    f.emit.Yields d a () d' a' -> Grown a a' f.definitions
  | instr i, d, d', a, a', h => by
      rw [emit, yields_push_iff] at h
      rcases h with ⟨_, rfl⟩
      exact .refl a
  | pooled opcode c, d, d', a, a', h => by
      rw [emit, yields_pooled_iff] at h
      rcases h with ⟨_, _, _, _, rfl⟩
      exact .refl a
  | store c, d, d', a, a', h => by
      simp only [emit, yields_bind_iff, yields_store_iff, yields_pure_iff] at h
      rcases h with ⟨_, _, _, ⟨_, rfl⟩, _, _, rfl⟩
      exact .refl a
  | self, d, d', a, a', h => by
      simp only [emit, yields_bind_iff, yields_get_iff, yields_pooled_iff] at h
      rcases h with ⟨_, _, _, ⟨_, _, rfl⟩, _, _, _, _, rfl⟩
      exact .refl a
  | position, d, d', a, a', h => by
      simp only [emit, yields_bind_iff, yields_get_iff, yields_pooled_iff] at h
      rcases h with ⟨_, _, _, ⟨_, _, rfl⟩, _, _, _, _, rfl⟩
      exact .refl a
  | functionOrNull name, d, d', a, a', h => by
      simp only [emit, yields_bind_iff, yields_named?_iff] at h
      rcases h with ⟨chunk?, _, _, ⟨_, _, rfl⟩, hrest⟩
      cases chunk? with
      | some chunk =>
          rcases yields_pooled_iff.mp hrest with ⟨_, _, _, _, rfl⟩
          exact .refl a
      | none =>
          rcases yields_op_iff.mp hrest with ⟨_, rfl⟩
          exact .refl a
  | builtin name, d, d', a, a', h => by
      simp only [emit, yields_bind_iff, yields_named?_iff] at h
      rcases h with ⟨chunk?, _, _, ⟨_, _, rfl⟩, hrest⟩
      cases chunk? with
      | some chunk =>
          rcases yields_pooled_iff.mp hrest with ⟨_, _, _, _, rfl⟩
          exact .refl a
      | none => exact absurd hrest not_yields_throw
  | define name arity body, d, d', a, a', h => by
      simp only [emit, yields_bind_iff, yields_lift_iff, yields_pooled_iff] at h
      rcases h with ⟨ref, _, _, ⟨hchunk, _⟩, _, _, _, _, rfl⟩
      exact .of_addFunctionChunk (grown_of_emit body) hchunk
  | label name, d, d', a, a', h => by
      simp only [emit, yields_bind_iff, yields_newLabel_iff, yields_pure_iff] at h
      rcases h with ⟨_, _, _, ⟨_, rfl⟩, _, _, rfl⟩
      exact .refl a
  | place mark, d, d', a, a', h => by
      rw [emit, yields_place_iff] at h
      rcases h with ⟨_, rfl⟩
      exact .refl a
  | jump target, d, d', a, a', h => by
      rw [emit, yields_jump_iff] at h
      rcases h with ⟨_, rfl⟩
      exact .refl a
  | jumpIfFalse target, d, d', a, a', h => by
      rw [emit, yields_jumpIfFalse_iff] at h
      rcases h with ⟨_, rfl⟩
      exact .refl a
  | sequence parts, d, d', a, a', h => by
      rw [emit] at h
      exact grown_of_emitAll parts h
  | call callee arguments, d, d', a, a', h => by
      rw [emit] at h
      by_cases hcount : arguments.length ≤ maxCount
      · simp only [hcount, if_true, yields_bind_iff, yields_push_iff] at h
        rcases h with ⟨_, _, _, hcallee, _, _, _, harguments, _, rfl⟩
        exact (grown_of_emit callee hcallee).trans (grown_of_emitAll arguments harguments)
      · simp only [hcount, if_false] at h
        exact absurd h not_yields_throw
  | both left right, d, d', a, a', h => by
      simp only [emit, yields_bind_iff, yields_newLabel_iff, yields_jumpIfFalse_iff,
        yields_op_iff, yields_place_iff] at h
      rcases h with ⟨_, _, _, ⟨_, rfl⟩, _, _, _, hleft, _, _, _, ⟨_, rfl⟩, _, _, _, ⟨_, rfl⟩,
        _, _, _, hright, _, rfl⟩
      exact (grown_of_emit left hleft).trans (grown_of_emit right hright)
  | either left right, d, d', a, a', h => by
      simp only [emit, yields_bind_iff, yields_newLabel_iff, yields_jumpIfFalse_iff,
        yields_jump_iff, yields_op_iff, yields_place_iff] at h
      rcases h with ⟨_, _, _, ⟨_, rfl⟩, _, _, _, ⟨_, rfl⟩, _, _, _, hleft, _, _, _, ⟨_, rfl⟩,
        _, _, _, ⟨_, rfl⟩, _, _, _, ⟨_, rfl⟩, _, _, _, ⟨_, rfl⟩, _, _, _, hright, _, rfl⟩
      exact (grown_of_emit left hleft).trans (grown_of_emit right hright)
  | choose branches otherwise, d, d', a, a', h => by
      simp only [emit, yields_bind_iff, yields_newLabel_iff, yields_place_iff] at h
      rcases h with ⟨after, _, _, ⟨_, rfl⟩, _, _, _, hbranches, _, _, _, hotherwise, _, rfl⟩
      exact (grown_of_emitBranches after branches hbranches).trans
        (grown_of_emit otherwise hotherwise)
  | loop condition body, d, d', a, a', h => by
      simp only [emit, yields_bind_iff, yields_newLabel_iff, yields_jumpIfFalse_iff,
        yields_jump_iff, yields_op_iff, yields_place_iff] at h
      rcases h with ⟨_, _, _, ⟨_, rfl⟩, _, _, _, ⟨_, rfl⟩, _, _, _, ⟨_, rfl⟩, _, _, _, hcondition,
        _, _, _, ⟨_, rfl⟩, _, _, _, ⟨_, rfl⟩, _, _, _, hbody, _, _, _, ⟨_, rfl⟩, _, _, _,
        ⟨_, rfl⟩, _, rfl⟩
      exact (grown_of_emit condition hcondition).trans (grown_of_emit body hbody)

theorem grown_of_emitAll : ∀ (parts : List Fragment) {d d' : Draft} {a a' : Assembler},
    (emitAll parts).Yields d a () d' a' -> Grown a a' (definitionsOfAll parts)
  | [], d, d', a, a', h => by
      rw [emitAll, yields_pure_iff] at h
      rcases h with ⟨_, _, rfl⟩
      exact .refl a
  | part :: rest, d, d', a, a', h => by
      simp only [emitAll, yields_bind_iff] at h
      rcases h with ⟨_, _, _, hpart, hrest⟩
      exact (grown_of_emit part hpart).trans (grown_of_emitAll rest hrest)

theorem grown_of_emitBranches : ∀ (after : Label) (branches : List FragmentBranch)
    {d d' : Draft} {a a' : Assembler}, (emitBranches after branches).Yields d a () d' a' ->
    Grown a a' (definitionsOfBranches branches)
  | _, [], d, d', a, a', h => by
      rw [emitBranches, yields_pure_iff] at h
      rcases h with ⟨_, _, rfl⟩
      exact .refl a
  | after, { condition, body } :: rest, d, d', a, a', h => by
      simp only [emitBranches, yields_bind_iff, yields_newLabel_iff, yields_jumpIfFalse_iff,
        yields_jump_iff, yields_op_iff, yields_place_iff] at h
      rcases h with ⟨_, _, _, ⟨_, rfl⟩, _, _, _, hcondition, _, _, _, ⟨_, rfl⟩, _, _, _, ⟨_, rfl⟩,
        _, _, _, hbody, _, _, _, ⟨_, rfl⟩, _, _, _, ⟨_, rfl⟩, _, _, _, ⟨_, rfl⟩, hrest⟩
      exact (grown_of_emit condition hcondition).trans
        ((grown_of_emit body hbody).trans (grown_of_emitBranches after rest hrest))

end

end Fragment

/-!
## Names of chunks
-/

theorem Assembler.names_reserve {a a' : Assembler} {name : Option String} {ref : ChunkRef}
    (h : a.reserve name = .ok (ref, a')) : a'.names = a.names ++ [name] := by
  rcases reserve_eq_ok_iff.mp h with ⟨_, _, rfl⟩
  exact names_entered a name

theorem Assembly.getElem?_names_of_addFunctionChunk {name : String} {arity : UInt8}
    {body : Fragment} {a a' : Assembler} {ref : ChunkRef}
    (h : addFunctionChunk name arity body.emit a = .ok ref a') :
    a'.names[ref]? = some (some name) := by
  rcases addFunctionChunk_eq_ok_iff.mp h with ⟨a1, d, a2, hreserve, hbody, rfl⟩
  rcases (Fragment.grown_of_emit body hbody).keeps_names with ⟨more, hmore⟩
  rw [Assembler.names_complete, ← hmore, Assembler.names_reserve hreserve,
    (Assembler.reserve_eq_ok_iff.mp hreserve).2.1, ← Assembler.length_names]
  simp

/-!
## Programs
-/

namespace Assembly

theorem runFrom_eq_ok_iff {α : Type} {a a' : Assembler} {step : Assembly α} {x : α} :
    runFrom a step = .ok (x, a') ↔ step a = .ok x a' := by
  unfold runFrom
  cases step a <;> simp

end Assembly

def Builtin.definitions (b : Builtin) : List Definition :=
  { name := b.name, arity := b.arity, body := b.code } :: b.code.definitions

theorem grown_of_addBuiltins {builtins : List Builtin} {a a' : Assembler}
    (h : Assembly.addBuiltins builtins a = .ok () a') :
    Grown a a' (builtins.flatMap Builtin.definitions) := by
  induction builtins generalizing a with
  | nil =>
      cases h
      exact .refl _
  | cons b rest ih =>
      rw [Assembly.addBuiltins, stateBind_eq_ok_iff] at h
      rcases h with ⟨ref, a1, hfirst, hrest⟩
      exact (Grown.of_addFunctionChunk (Fragment.grown_of_emit b.code) hfirst).trans (ih hrest)

/-- The chunks behind a program: those of the built-in functions, the main
chunk with its draft, and those of the functions of the program. -/
structure Generated (program : Program) (builtins : List Builtin) (resolution : Resolution)
    (a : Assembler) where
  body : List Fragment
  main : Draft
  before : List ChunkEntry
  after : List ChunkEntry
  lowered : resolution.lowerStmts [] program.statements = .ok body
  entries : a.entries.toList = before ++ { name := none, draft := some main } :: after
  builtins_built : List.Forall₂ (Definition.Built a) (builtins.flatMap Builtin.definitions) before
  functions_built : List.Forall₂ (Definition.Built a) (Fragment.definitionsOfAll body) after
  main_built : ∃ a0 a1, a0.Indexed ∧ a0.names <+: a1.names ∧ a1.names <+: a.names ∧
    (Fragment.sequence body).emit.Yields { name := none, self := before.length } a0 () main a1
  indexed : a.Indexed

theorem exists_generated {program : Program} {builtins : List Builtin} {resolution : Resolution}
    {a : Assembler} (h : program.generate builtins resolution = .ok a) :
    Nonempty (Generated program builtins resolution a) := by
  simp only [Program.generate, bind_eq_ok_iff, pure_eq_ok_iff] at h
  rcases h with ⟨⟨_, a1⟩, hbuiltins, body, hlowered, ⟨ref, a2⟩, hmain, rfl⟩
  rw [Assembly.runFrom_eq_ok_iff] at hbuiltins hmain
  have hadded := grown_of_addBuiltins hbuiltins
  rcases hadded.entries with ⟨before, hbefore, hbuilt⟩
  rcases Assembly.addChunk_eq_ok_iff.mp hmain with ⟨a3, main, a4, hreserve, hemit, rfl⟩
  have hgrown := Fragment.grown_of_emit _ hemit
  rcases Grown.complete hreserve hgrown
    (Fragment.actions_of_emit _ hemit).draft_extends.self with ⟨after, hentries, _, hindexed⟩
  rcases hindexed (hadded.indexed .start) with ⟨hstarted, hfinal, hfunctions⟩
  have hempty : a1.entries.toList = before := by simpa using hbefore
  have hnames1 : a1.names <+: a4.names := by
    have hreserved : a1.names <+: a3.names := by
      rw [Assembler.names_reserve hreserve]
      exact List.prefix_append _ _
    exact hreserved.trans hgrown.keeps_names
  have href : ref = before.length := by
    rw [(Assembler.reserve_eq_ok_iff.mp hreserve).2.1, ← hempty, Array.length_toList]
  refine ⟨⟨body, main, before, after, hlowered, ?_, ?_, hfunctions, ?_, hfinal⟩⟩
  · rw [hentries, hempty]
  · apply (hbuilt .start).imp
    intro f entry hf
    rw [← Assembler.names_complete a4 main] at hnames1
    exact hf.mono hnames1
  · refine ⟨a3, a4, hstarted, hgrown.keeps_names, ?_, ?_⟩
    · exact a4.isPrefix_names_complete main
    · rw [← href]
      exact hemit

/-!
## Finished programs
-/

namespace Assembler

def Finishes (a : Assembler) (entry : ChunkEntry) (chunk : Chunk) : Prop :=
  ∃ d, entry.draft = some d ∧ d.finish a.chunkId = .ok chunk

theorem finalize_eq_ok {a : Assembler} {b : Bytecode} (h : a.finalize = .ok b) :
    ∃ main, a.main? = some main ∧ a.entries.size ≤ maxChunks ∧
      List.Forall₂ (fun ref chunk => ∃ entry, a.entries[ref]? = some entry ∧
        a.Finishes entry chunk) (a.order main) b.chunks := by
  simp only [finalize, bind_eq_ok_iff, pure_eq_ok_iff, mapM_eq_ok_iff] at h
  rcases h with ⟨drafts, hordered, chunks, hchunks, rfl⟩
  unfold ordered at hordered
  cases hmain : a.main? with
  | none =>
      rw [hmain] at hordered
      cases hordered
  | some main =>
      simp only [hmain] at hordered
      by_cases hsize : a.entries.size ≤ maxChunks
      · rw [if_pos hsize, mapM_eq_ok_iff] at hordered
        refine ⟨main, rfl, hsize, forall₂_compose ?_ hordered hchunks⟩
        intro ref d chunk hdraft hfinish
        cases hentry : a.draft? ref with
        | none =>
            rw [hentry] at hdraft
            cases hdraft
        | some d1 =>
            rw [hentry] at hdraft
            cases hdraft
            rcases Option.bind_eq_some_iff.mp hentry with ⟨entry, hget, hd⟩
            exact ⟨entry, hget, d, hd, hfinish⟩
      · rw [if_neg hsize] at hordered
        cases hordered

theorem map_order {a : Assembler} {before after : List ChunkEntry} {entry : ChunkEntry}
    (h : a.entries.toList = before ++ entry :: after) :
    (a.order before.length).map (a.entries[·]?) =
      some entry :: (before ++ after).map some := by
  have hget : ∀ ref : Nat, a.entries[ref]? = (before ++ entry :: after)[ref]? := by
    intro ref
    rw [← h, Array.getElem?_toList]
  have hsize : a.entries.size = before.length + (after.length + 1) := by
    rw [← Array.length_toList, h]
    simp
  have hrange : (List.range a.entries.size).filter (· ≠ before.length) =
      List.range before.length ++ (List.range after.length).map (before.length + 1 + ·) := by
    rw [hsize, List.range_add, List.filter_append, List.range_succ_eq_map]
    have hfront : (List.range before.length).filter (· ≠ before.length)
        = List.range before.length := by
      rw [List.filter_eq_self]
      intro ref href
      simpa using Nat.ne_of_lt (List.mem_range.mp href)
    have hback : (List.map (before.length + 1 + ·) (List.range after.length)).filter
        (· ≠ before.length) = List.map (before.length + 1 + ·) (List.range after.length) := by
      rw [List.filter_eq_self]
      intro ref href
      rcases List.mem_map.mp href with ⟨i, _, rfl⟩
      simp only [ne_eq, decide_not, Bool.not_eq_eq_eq_not, Bool.not_true, decide_eq_false_iff_not]
      omega
    rw [hfront, List.map_cons, List.map_map, Nat.add_zero,
      List.filter_cons_of_neg (by simp), ← hback]
    congr 2
    apply List.map_congr_left
    intro i _
    simp only [Function.comp_apply]
    omega
  unfold order
  rw [hrange]
  simp only [hget, List.map_cons, List.map_append, List.map_map]
  have hbefore : (List.range before.length).map (fun ref => (before ++ entry :: after)[ref]?) =
      before.map some := by
    apply List.ext_getElem?
    intro i
    by_cases hi : i < before.length
    · simp [hi, List.getElem?_append_left hi]
    · simp [hi]
  have hafter : (List.range after.length).map
      ((fun ref => (before ++ entry :: after)[ref]?) ∘ (before.length + 1 + ·)) =
      after.map some := by
    apply List.ext_getElem?
    intro i
    by_cases hi : i < after.length
    · have hskip : before.length + 1 + i - before.length = i + 1 := by omega
      simp [hi, List.getElem?_append_right (show before.length ≤ before.length + 1 + i by omega),
        hskip]
    · simp [hi]
  rw [hbefore, hafter, List.getElem?_append_right (Nat.le_refl _), Nat.sub_self]
  rfl

theorem Indexed.main?_eq {a : Assembler} (ha : a.Indexed) {before after : List ChunkEntry}
    {draft : Option Draft} (h : a.entries.toList = before ++ { name := none, draft } :: after) :
    a.main? = some before.length := by
  apply (ha none before.length).mpr
  simp [names, h]

theorem chunks_of_finalize {a : Assembler} {before after : List ChunkEntry} {d : Draft}
    {b : Bytecode} (ha : a.Indexed)
    (h : a.entries.toList = before ++ { name := none, draft := some d } :: after)
    (hfinal : a.finalize = .ok b) :
    ∃ main others, b.chunks = main :: others ∧ d.finish a.chunkId = .ok main ∧
      List.Forall₂ a.Finishes (before ++ after) others := by
  rcases finalize_eq_ok hfinal with ⟨ref, href, _, hchunks⟩
  rw [ha.main?_eq h] at href
  cases href
  have hmapped : List.Forall₂ (fun entry? chunk => ∃ entry, entry? = some entry ∧
      a.Finishes entry chunk) ((a.order before.length).map (a.entries[·]?)) b.chunks :=
    List.forall₂_map_left_iff.mpr hchunks
  rw [map_order h, List.forall₂_cons_left_iff] at hmapped
  rcases hmapped with ⟨main, others, ⟨entry, hentry, hmain⟩, hothers, hall⟩
  cases hentry
  rcases hmain with ⟨_, hd, hfinish⟩
  cases hd
  refine ⟨main, others, hall, hfinish, ?_⟩
  rw [List.forall₂_map_left_iff] at hothers
  apply hothers.imp
  rintro entry chunk ⟨_, hsame, hfinishes⟩
  cases hsame
  exact hfinishes

end Assembler

namespace Generated

variable {program : Program} {builtins : List Builtin} {resolution : Resolution}
  {a : Assembler}

theorem main?_eq (g : Generated program builtins resolution a) :
    a.main? = some g.before.length :=
  g.indexed.main?_eq g.entries

theorem chunks_eq (g : Generated program builtins resolution a) {b : Bytecode}
    (h : a.finalize = .ok b) :
    ∃ main others, b.chunks = main :: others ∧ g.main.finish a.chunkId = .ok main ∧
      List.Forall₂ a.Finishes (g.before ++ g.after) others :=
  Assembler.chunks_of_finalize g.indexed g.entries h

end Generated
end StackScript
