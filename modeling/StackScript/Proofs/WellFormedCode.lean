import StackScript.Proofs.FinishedCode

/-!
# Well-formed bytecode

What a machine would have to check before it runs a program is true of every
compiled program: its code can be swept from end to end, each jump goes to the
start of an instruction or to the end of the code, each constant that an
instruction uses is there and of the right kind, and each function constant
names a chunk other than the main one.
-/

namespace StackScript

/-!
## Targets of jumps
-/

def Opcode.JumpsTo (opcode : Opcode) (offset distance target : Nat) : Prop :=
  match opcode with
  | jumpForward | jumpForwardIfFalse => target = offset + 2 + distance
  | jumpBackward => target + distance = offset + 2
  | _ => False

theorem Opcode.not_isJump_of_takesConstant {opcode : Opcode} (h : opcode.takesConstant = true) :
    ¬ opcode.isJump = true := by
  cases opcode <;> first | exact Bool.false_ne_true | cases h

namespace Item

def Boundary (start : Nat) : List Item -> Nat -> Prop
  | [], target => target = start
  | item :: rest, target => target = start ∨ Boundary (start + item.size) rest target

def Lands (starts : Nat -> Prop) (start : Nat) : List Item -> Prop
  | [] => True
  | item :: rest =>
      (∀ opcode distance, item = jump opcode distance ->
        ∃ target, opcode.JumpsTo start distance target ∧ starts target) ∧
      Lands starts (start + item.size) rest

variable {starts : Nat -> Prop} {start : Nat} {item : Item} {items items' : List Item}

theorem boundary_start (start : Nat) (items : List Item) : Boundary start items start := by
  cases items with
  | nil => rfl
  | cons item rest => exact Or.inl rfl

theorem boundary_append {target : Nat} :
    Boundary start (items ++ items') target ↔
      Boundary start items target ∨ Boundary (start + total items) items' target := by
  induction items generalizing start with
  | nil =>
      simp only [List.nil_append, Boundary, total_nil, Nat.add_zero]
      constructor
      · exact Or.inr
      · rintro (rfl | h)
        · exact boundary_start _ _
        · exact h
  | cons item rest ih =>
      rw [List.cons_append, Boundary, Boundary, ih, total_cons, Nat.add_assoc, or_assoc]

theorem boundary_end (start : Nat) (items : List Item) :
    Boundary start items (start + total items) := by
  induction items generalizing start with
  | nil => rfl
  | cons item rest ih =>
      rw [total_cons, ← Nat.add_assoc]
      exact Or.inr (ih _)

theorem lands_append :
    Lands starts start (items ++ items') ↔
      Lands starts start items ∧ Lands starts (start + total items) items' := by
  induction items generalizing start with
  | nil => simp [Lands]
  | cons item rest ih =>
      rw [List.cons_append, Lands, Lands, ih, total_cons, Nat.add_assoc, and_assoc]

theorem lands_cons_of_not_jump (hitem : ∀ opcode distance, item ≠ jump opcode distance) :
    Lands starts start (item :: items) ↔ Lands starts (start + item.size) items := by
  rw [Lands, and_iff_right]
  intro opcode distance h
  exact absurd h (hitem opcode distance)

theorem lands_singleton (hitem : ∀ opcode distance, item ≠ jump opcode distance) :
    Lands starts start [item] :=
  (lands_cons_of_not_jump hitem).mpr trivial

theorem lands_pop : Lands starts start (pop :: items) ↔ Lands starts (start + 1) items :=
  lands_cons_of_not_jump nofun

theorem lands_jump {opcode : Opcode} {distance : Nat} :
    Lands starts start (jump opcode distance :: items) ↔
      (∃ target, opcode.JumpsTo start distance target ∧ starts target) ∧
        Lands starts (start + 2) items := by
  rw [Lands]
  apply and_congr_left
  intro _
  constructor
  · intro h
    exact h opcode distance rfl
  · rintro h _ _ heq
    cases heq
    exact h

theorem lands_of_mem (h : Lands starts start items) {offset : Nat} {opcode : Opcode}
    {distance : Nat} (hmem : (offset, jump opcode distance) ∈ located size start items) :
    ∃ target, opcode.JumpsTo offset distance target ∧ starts target := by
  induction items generalizing start with
  | nil => cases hmem
  | cons item rest ih =>
      rw [Lands] at h
      rw [located_cons, List.mem_cons] at hmem
      rcases hmem with heq | hrest
      · cases heq
        exact h.1 opcode distance rfl
      · exact ih h.2 hrest

theorem mem_located_of_boundary {target : Nat} (h : Boundary start items target) :
    target ∈ (located size start items).map Prod.fst ∨ target = start + total items := by
  induction items generalizing start with
  | nil => exact Or.inr h
  | cons item rest ih =>
      rw [located_cons, List.map_cons, List.mem_cons, total_cons, ← Nat.add_assoc]
      rcases h with rfl | hrest
      · exact Or.inl (Or.inl rfl)
      · rcases ih hrest with hmem | hend
        · exact Or.inl (Or.inr hmem)
        · exact Or.inr hend

end Item

namespace Fragment

open Item

mutual

theorem lands_items : ∀ (f : Fragment) {starts : Nat -> Prop} {start : Nat},
    (∀ target, Boundary start f.items target -> starts target) -> Lands starts start f.items
  | instr i, starts, start, _ => lands_singleton (by nofun)
  | pooled opcode c, starts, start, _ => lands_singleton (by nofun)
  | self, starts, start, _ => lands_singleton (by nofun)
  | builtin _, starts, start, _ => lands_singleton (by nofun)
  | define _ _ _, starts, start, _ => lands_singleton (by nofun)
  | sequence parts, starts, start, h => by
      rw [items] at h ⊢
      exact lands_itemsOfAll parts h
  | call callee arguments, starts, start, h => by
      simp only [items, boundary_append] at h
      simp only [items, lands_append]
      exact ⟨⟨lands_items callee fun t ht => h t (Or.inl (Or.inl ht)),
        lands_itemsOfAll arguments fun t ht => h t (Or.inl (Or.inr ht))⟩,
        lands_singleton (by nofun)⟩
  | both left right, starts, start, h => by
      have hend := h _ (boundary_end _ _)
      simp only [items, boundary_append, Boundary] at h
      simp only [items, total_append, total_cons, size_jump, size_pop] at hend
      simp only [items, lands_append, lands_jump, lands_pop]
      refine ⟨lands_items left fun t ht => h t (Or.inl ht), ⟨_, rfl, ?_⟩,
        lands_items right fun t ht => h t (Or.inr (Or.inr (Or.inr ht)))⟩
      convert hend using 1
      omega
  | either left right, starts, start, h => by
      have hend := h _ (boundary_end _ _)
      simp only [items, boundary_append, Boundary] at h
      simp only [items, total_append, total_cons, size_jump, size_pop] at hend
      simp only [items, lands_append, lands_jump, lands_pop]
      refine ⟨lands_items left fun t ht => h t (Or.inl ht), ⟨_, rfl, ?_⟩, ⟨_, rfl, ?_⟩,
        lands_items right fun t ht => h t (Or.inr (Or.inr (Or.inr (Or.inr ht))))⟩
      · exact h _ (Or.inr (Or.inr (Or.inr (Or.inl rfl))))
      · convert hend using 1
        omega
  | choose branches otherwise, starts, start, h => by
      have hend := h _ (boundary_end _ _)
      simp only [items, boundary_append] at h
      simp only [items, total_append] at hend
      simp only [items, lands_append]
      refine ⟨lands_itemsOfBranches branches (fun t ht => h t (Or.inl ht)) ?_,
        lands_items otherwise fun t ht => h t (Or.inr ht)⟩
      rw [Nat.add_assoc]
      exact hend
  | loop condition body, starts, start, h => by
      simp only [items, boundary_append, Boundary] at h
      simp only [items, lands_append, lands_jump, lands_pop]
      refine ⟨lands_items condition fun t ht => h t (Or.inl ht), ⟨_, rfl, ?_⟩,
        lands_items body fun t ht => h t (Or.inr (Or.inr (Or.inr (Or.inl ht)))), ⟨start, ?_, ?_⟩,
        trivial⟩
      · apply h
        simp only [size_jump, size_pop]
        omega
      · simp only [Opcode.JumpsTo]
        omega
      · exact h _ (Or.inl (boundary_start _ _))
  | store _, _, _, _ => trivial
  | position, _, _, _ => trivial
  | functionOrNull _, _, _, _ => trivial
  | label _, _, _, _ => trivial
  | place _, _, _, _ => trivial
  | jump _, _, _, _ => trivial
  | jumpIfFalse _, _, _, _ => trivial

theorem lands_itemsOfAll : ∀ (parts : List Fragment) {starts : Nat -> Prop} {start : Nat},
    (∀ target, Boundary start (itemsOfAll parts) target -> starts target) ->
    Lands starts start (itemsOfAll parts)
  | [], _, _, _ => trivial
  | part :: rest, starts, start, h => by
      simp only [itemsOfAll, boundary_append] at h
      simp only [itemsOfAll, lands_append]
      exact ⟨lands_items part fun t ht => h t (Or.inl ht),
        lands_itemsOfAll rest fun t ht => h t (Or.inr ht)⟩

theorem lands_itemsOfBranches : ∀ (branches : List FragmentBranch) {rest : Nat}
    {starts : Nat -> Prop} {start : Nat},
    (∀ target, Boundary start (itemsOfBranches rest branches) target -> starts target) ->
    starts (start + total (itemsOfBranches rest branches) + rest) ->
    Lands starts start (itemsOfBranches rest branches)
  | [], _, _, _, _, _ => trivial
  | { condition, body } :: others, rest, starts, start, h, hafter => by
      simp only [itemsOfBranches, boundary_append, Boundary] at h
      simp only [itemsOfBranches, total_append, total_cons, size_jump, size_pop] at hafter
      simp only [itemsOfBranches, lands_append, lands_jump, lands_pop]
      refine ⟨lands_items condition fun t ht => h t (Or.inl ht), ⟨_, rfl, ?_⟩,
        lands_items body fun t ht => h t (Or.inr (Or.inr (Or.inr (Or.inl ht)))), ⟨_, rfl, ?_⟩,
        lands_itemsOfBranches others
          (fun t ht => h t (Or.inr (Or.inr (Or.inr (Or.inr (Or.inr (Or.inr ht))))))) ?_⟩
      · apply h
        simp only [size_jump, size_pop]
        omega
      · convert hafter using 1
        omega
      · convert hafter using 1
        omega

end

end Fragment

/-!
## Function constants
-/

def Assembler.HasFunction (a : Assembler) (ref : ChunkRef) : Prop :=
  ∃ name, a.names[ref]? = some (some name)

theorem Assembler.HasFunction.mono {a a' : Assembler} {ref : ChunkRef} (h : a.HasFunction ref)
    (hnames : a.names <+: a'.names) : a'.HasFunction ref := by
  rcases h with ⟨name, hname⟩
  rcases hnames with ⟨more, hmore⟩
  refine ⟨name, ?_⟩
  rw [← hmore, List.getElem?_append_left (List.getElem?_eq_some_iff.mp hname).1]
  exact hname

theorem Assembler.Indexed.hasFunction {a : Assembler} (ha : a.Indexed) {name : String}
    {ref : ChunkRef} (h : a.named? name = some ref) : a.HasFunction ref :=
  ⟨name, (ha (some name) ref).mp h⟩

theorem Pool.mem_of_store {pool pool' : Pool} {c k : PoolConstant} {chunk : String} {index : UInt8}
    (h : pool.store c chunk = .ok index pool') (hmem : k ∈ pool'.constants) :
    k ∈ pool.constants ∨ k = c := by
  unfold store at h
  cases hlookup : pool.indices.lookup c with
  | some i =>
      rw [hlookup] at h
      cases h
      exact Or.inl hmem
  | none =>
      rw [hlookup] at h
      by_cases hroom : pool.constants.length < maxConstants
      · simp only [hroom, if_true] at h
        cases h
        simpa using hmem
      · simp [hroom] at h

/-- The handles that a draft holds are on chunks with names: those among its
constants, and its own if it is the draft of a function.  So are those that the
program gives out. -/
structure Draft.Linked (inFunction : Bool) (d : Draft) (a : Assembler) : Prop where
  indexed : a.Indexed
  self : inFunction = true -> a.HasFunction d.self
  constants : ∀ ref, .function ref ∈ d.pool.constants -> a.HasFunction ref

namespace Draft.Linked

variable {inFunction : Bool} {d d' : Draft} {a a' : Assembler}

theorem mono (h : d.Linked inFunction a) (hindexed : a'.Indexed) (hnames : a.names <+: a'.names) :
    d.Linked inFunction a' where
  indexed := hindexed
  self hfunction := (h.self hfunction).mono hnames
  constants ref hmem := (h.constants ref hmem).mono hnames

theorem of_same (h : d.Linked inFunction a) (hself : d'.self = d.self) (hpool : d'.pool = d.pool) :
    d'.Linked inFunction a where
  indexed := h.indexed
  self := hself ▸ h.self
  constants := hpool ▸ h.constants

theorem newLabel {name : Option String} {label : Label} (h : d.Linked inFunction a)
    (hnew : d.newLabel name = (label, d')) : d'.Linked inFunction a := by
  cases hnew
  exact h.of_same rfl rfl

theorem place {label : Label} (h : d.Linked inFunction a) (hplace : d.place label = .ok d') :
    d'.Linked inFunction a := by
  rw [(place_eq_ok hplace).2.2.2]
  exact h.of_same rfl rfl

theorem op {opcode : Opcode} (h : d.Linked inFunction a)
    (hop : (Emit.op opcode).Yields d a () d' a') : d'.Linked inFunction a' := by
  rcases Emit.yields_op_iff.mp hop with ⟨rfl, rfl⟩
  exact h.of_same rfl rfl

theorem jump {target : Label} (h : d.Linked inFunction a)
    (hjump : (Emit.jump target).Yields d a () d' a') : d'.Linked inFunction a' := by
  rcases Emit.yields_jump_iff.mp hjump with ⟨hplace, rfl⟩
  refine place ?_ hplace
  exact h.of_same rfl rfl

theorem jumpIfFalse {target : Label} (h : d.Linked inFunction a)
    (hjump : (Emit.jumpIfFalse target).Yields d a () d' a') : d'.Linked inFunction a' := by
  rcases Emit.yields_jumpIfFalse_iff.mp hjump with ⟨hplace, rfl⟩
  refine place ?_ hplace
  exact h.of_same rfl rfl

theorem pooled {opcode : Opcode} {c : PoolConstant} (h : d.Linked inFunction a)
    (hpooled : (Emit.pooled opcode c).Yields d a () d' a')
    (hc : ∀ ref, c = .function ref -> a.HasFunction ref) : d'.Linked inFunction a' := by
  rcases Emit.yields_pooled_iff.mp hpooled with ⟨index, d1, hstore, rfl, rfl⟩
  rcases store_eq_ok hstore with ⟨hpool, hrest⟩
  refine ⟨h.indexed, ?_, ?_⟩
  · show inFunction = true -> a.HasFunction d1.self
    rw [hrest]
    exact h.self
  · intro ref hmem
    rcases Pool.mem_of_store hpool hmem with hold | hnew
    · exact h.constants ref hold
    · exact hc ref hnew.symm

end Draft.Linked

theorem Assembly.hasFunction_of_addFunctionChunk {name : String} {arity : UInt8}
    {body : Fragment} {a a' : Assembler} {ref : ChunkRef}
    (h : addFunctionChunk name arity body.emit a = .ok ref a') : a'.HasFunction ref :=
  ⟨name, getElem?_names_of_addFunctionChunk h⟩

namespace Fragment

open Emit Draft

mutual

/-- Structured code stores only handles on chunks with names. -/
theorem linked_of_emit : ∀ (f : Fragment) {inFunction : Bool} {d d' : Draft} {a a' : Assembler},
    f.Structured inFunction -> d.Linked inFunction a -> f.emit.Yields d a () d' a' ->
    d'.Linked inFunction a'
  | instr i, _, d, d', a, a', _, hd, h => by
      rw [emit, yields_push_iff] at h
      rcases h with ⟨rfl, rfl⟩
      exact hd.of_same rfl rfl
  | pooled opcode c, _, d, d', a, a', hf, hd, h => by
      rw [emit] at h
      apply hd.pooled h
      rintro ref rfl
      cases hf
  | self, _, d, d', a, a', hf, hd, h => by
      simp only [emit, yields_bind_iff, yields_get_iff] at h
      rcases h with ⟨_, _, _, ⟨rfl, rfl, rfl⟩, hpooled⟩
      apply hd.pooled hpooled
      rintro ref ⟨⟩
      exact hd.self hf
  | builtin name, _, d, d', a, a', _, hd, h => by
      simp only [emit, yields_bind_iff, yields_named?_iff] at h
      rcases h with ⟨chunk?, _, _, ⟨hnamed, rfl, rfl⟩, hrest⟩
      cases chunk? with
      | some chunk =>
          apply hd.pooled hrest
          rintro ref ⟨⟩
          exact hd.indexed.hasFunction hnamed
      | none => exact absurd hrest not_yields_throw
  | define name arity body, _, d, d', a, a', _, hd, h => by
      simp only [emit, yields_bind_iff, yields_lift_iff] at h
      rcases h with ⟨ref, _, a1, ⟨hchunk, rfl⟩, hpooled⟩
      have hgrown := Grown.of_addFunctionChunk (grown_of_emit body) hchunk
      apply (hd.mono (hgrown.indexed hd.indexed) hgrown.keeps_names).pooled hpooled
      rintro _ ⟨⟩
      exact Assembly.hasFunction_of_addFunctionChunk hchunk
  | sequence parts, _, d, d', a, a', hf, hd, h => by
      rw [emit] at h
      rw [Structured] at hf
      exact linked_of_emitAll parts hf hd h
  | call callee arguments, _, d, d', a, a', hf, hd, h => by
      rw [emit] at h
      rw [Structured] at hf
      by_cases hcount : arguments.length ≤ maxCount
      · simp only [hcount, if_true, yields_bind_iff, yields_push_iff] at h
        rcases h with ⟨_, d1, a1, hcallee, _, d2, a2, harguments, rfl, rfl⟩
        have hd1 := linked_of_emit callee hf.1 hd hcallee
        have hd2 := linked_of_emitAll arguments hf.2 hd1 harguments
        exact hd2.of_same rfl rfl
      · simp only [hcount, if_false] at h
        exact absurd h not_yields_throw
  | both left right, _, d, d', a, a', hf, hd, h => by
      simp only [emit, yields_bind_iff, yields_newLabel_iff, yields_place_iff] at h
      rw [Structured] at hf
      rcases h with ⟨_, d1, _, ⟨hnew, rfl⟩, _, d2, _, hleft, _, d3, _, hjump, _, d4, _, hpop,
        _, d5, _, hright, hplace, rfl⟩
      have hd2 := linked_of_emit left hf.1 (hd.newLabel hnew) hleft
      have hd5 := linked_of_emit right hf.2 ((hd2.jumpIfFalse hjump).op hpop) hright
      exact hd5.place hplace
  | either left right, _, d, d', a, a', hf, hd, h => by
      simp only [emit, yields_bind_iff, yields_newLabel_iff, yields_place_iff] at h
      rw [Structured] at hf
      rcases h with ⟨_, d1, _, ⟨hnewRight, rfl⟩, _, d2, _, ⟨hnew, rfl⟩, _, d3, _, hleft,
        _, d4, _, hskip, _, d5, _, hjump, _, d6, _, ⟨hplaceRight, rfl⟩, _, d7, _, hpop,
        _, d8, _, hright, hplace, rfl⟩
      have hd3 := linked_of_emit left hf.1 ((hd.newLabel hnewRight).newLabel hnew) hleft
      have hd6 := ((hd3.jumpIfFalse hskip).jump hjump).place hplaceRight
      have hd8 := linked_of_emit right hf.2 (hd6.op hpop) hright
      exact hd8.place hplace
  | choose branches otherwise, _, d, d', a, a', hf, hd, h => by
      simp only [emit, yields_bind_iff, yields_newLabel_iff, yields_place_iff] at h
      rw [Structured] at hf
      rcases h with ⟨after, d1, _, ⟨hnew, rfl⟩, _, d2, _, hbranches, _, d3, _, hotherwise,
        hplace, rfl⟩
      have hd2 := linked_of_emitBranches after branches hf.1 (hd.newLabel hnew) hbranches
      have hd3 := linked_of_emit otherwise hf.2 hd2 hotherwise
      exact hd3.place hplace
  | loop condition body, _, d, d', a, a', hf, hd, h => by
      simp only [emit, yields_bind_iff, yields_newLabel_iff, yields_place_iff] at h
      rw [Structured] at hf
      rcases h with ⟨_, d1, _, ⟨hnewBefore, rfl⟩, _, d2, _, ⟨hnew, rfl⟩, _, d3, _,
        ⟨hplaceBefore, rfl⟩, _, d4, _, hcondition, _, d5, _, hjump, _, d6, _, hpop, _, d7, _,
        hbody, _, d8, _, hback, _, d9, _, ⟨hplace, rfl⟩, hlastPop⟩
      have hd3 := ((hd.newLabel hnewBefore).newLabel hnew).place hplaceBefore
      have hd4 := linked_of_emit condition hf.1 hd3 hcondition
      have hd7 := linked_of_emit body hf.2 ((hd4.jumpIfFalse hjump).op hpop) hbody
      exact ((hd7.jump hback).place hplace).op hlastPop
  | store _, _, _, _, _, _, hf, _, _ => by cases hf
  | position, _, _, _, _, _, hf, _, _ => by cases hf
  | functionOrNull _, _, _, _, _, _, hf, _, _ => by cases hf
  | label _, _, _, _, _, _, hf, _, _ => by cases hf
  | place _, _, _, _, _, _, hf, _, _ => by cases hf
  | jump _, _, _, _, _, _, hf, _, _ => by cases hf
  | jumpIfFalse _, _, _, _, _, _, hf, _, _ => by cases hf

theorem linked_of_emitAll : ∀ (parts : List Fragment) {inFunction : Bool} {d d' : Draft}
    {a a' : Assembler}, AllStructured inFunction parts -> d.Linked inFunction a ->
    (emitAll parts).Yields d a () d' a' -> d'.Linked inFunction a'
  | [], _, d, d', a, a', _, hd, h => by
      rw [emitAll, yields_pure_iff] at h
      rcases h with ⟨_, rfl, rfl⟩
      exact hd
  | part :: rest, _, d, d', a, a', hf, hd, h => by
      simp only [emitAll, yields_bind_iff] at h
      rw [AllStructured] at hf
      rcases h with ⟨_, d1, a1, hpart, hrest⟩
      exact linked_of_emitAll rest hf.2 (linked_of_emit part hf.1 hd hpart) hrest

theorem linked_of_emitBranches : ∀ (after : Label) (branches : List FragmentBranch)
    {inFunction : Bool} {d d' : Draft} {a a' : Assembler},
    BranchesStructured inFunction branches -> d.Linked inFunction a ->
    (emitBranches after branches).Yields d a () d' a' -> d'.Linked inFunction a'
  | _, [], _, d, d', a, a', _, hd, h => by
      rw [emitBranches, yields_pure_iff] at h
      rcases h with ⟨_, rfl, rfl⟩
      exact hd
  | after, { condition, body } :: others, _, d, d', a, a', hf, hd, h => by
      simp only [emitBranches, yields_bind_iff, yields_newLabel_iff, yields_place_iff] at h
      rw [BranchesStructured] at hf
      rcases h with ⟨_, d1, _, ⟨hnew, rfl⟩, _, d2, _, hcondition, _, d3, _, hjump, _, d4, _,
        hpop, _, d5, _, hbody, _, d6, _, hout, _, d7, _, ⟨hplace, rfl⟩, _, d8, _, hlastPop,
        hothers⟩
      have hd2 := linked_of_emit condition hf.1 (hd.newLabel hnew) hcondition
      have hd5 := linked_of_emit body hf.2.1 ((hd2.jumpIfFalse hjump).op hpop) hbody
      have hd8 := ((hd5.jump hout).place hplace).op hlastPop
      exact linked_of_emitBranches after others hf.2.2 hd8 hothers

end

end Fragment

/-!
## Programs
-/

namespace Generated

variable {program : Program} {builtins : List Builtin} {resolution : Resolution}
  {a : Assembler} {b : Bytecode}

theorem size_entries (g : Generated program builtins resolution a) (h : a.finalize = .ok b) :
    a.entries.size = b.chunks.length := by
  rcases g.chunks_eq h with ⟨main, others, hchunks, _, hothers⟩
  rw [← Array.length_toList, g.entries, hchunks, List.length_cons, ← hothers.length_eq]
  simp only [List.length_append, List.length_cons]
  omega

/-- A chunk with a name comes behind the main chunk in the finished program. -/
theorem chunkId_bounds (g : Generated program builtins resolution a) {ref : Nat}
    {id : UInt8} (href : a.HasFunction ref) (h : a.chunkId ref = .ok id) :
    1 ≤ id.toNat ∧ id.toNat < a.entries.size := by
  rcases href with ⟨name, hname⟩
  have hlt : ref < a.entries.size := by
    rw [← a.length_names]
    exact (List.getElem?_eq_some_iff.mp hname).1
  have hmain : ref ≠ g.before.length := by
    rintro rfl
    rw [Assembler.names, g.entries] at hname
    simp at hname
  have hmainLt : g.before.length < a.entries.size := by
    rw [← Array.length_toList, g.entries]
    simp
  unfold Assembler.chunkId at h
  simp only [g.main?_eq, Nat.not_le.mpr hlt, if_false, hmain] at h
  by_cases hbefore : ref < g.before.length
  · simp only [hbefore, if_true] at h
    by_cases hsmall : ref + 1 < maxChunks
    · rw [if_pos hsmall] at h
      cases h
      rw [UInt8.toNat_ofNat_of_lt' hsmall]
      omega
    · rw [if_neg hsmall] at h
      cases h
  · simp only [hbefore, if_false] at h
    by_cases hsmall : ref < maxChunks
    · rw [if_pos hsmall] at h
      cases h
      rw [UInt8.toNat_ofNat_of_lt' hsmall]
      omega
    · rw [if_neg hsmall] at h
      cases h

theorem function_bounds (g : Generated program builtins resolution a) (h : a.finalize = .ok b)
    {inFunction : Bool} {d : Draft} {a' : Assembler} {chunk : Chunk} (hd : d.Linked inFunction a')
    (hnames : a'.names <+: a.names) (hfinish : d.finish a.chunkId = .ok chunk) {id : UInt8}
    (hid : .function id ∈ chunk.constants) : 1 ≤ id.toNat ∧ id.toNat < b.chunks.length := by
  rcases forall₂_mem_right (Draft.finish_eq_ok_iff.mp hfinish).2.1 hid with ⟨c, hc, hfinished⟩
  cases c with
  | int n => cases hfinished
  | string text => cases hfinished
  | function ref =>
      rcases map_eq_ok_iff.mp hfinished with ⟨id', hchunkId, heq⟩
      cases heq
      rw [← g.size_entries h]
      exact g.chunkId_bounds ((hd.constants ref hc).mono hnames) hchunkId

end Generated

/-!
## Well-formed chunks
-/

structure Instruction.Valid (chunk : Chunk) (starts : List Nat) (offset : Nat)
    (i : Instruction) : Prop where
  jump : i.opcode.isJump = true -> ∃ distance target, i.argument = some distance ∧
    distance.toNat ≤ 127 ∧ i.opcode.JumpsTo offset distance.toNat target ∧
    (target ∈ starts ∨ target = chunk.code.length)
  constant : i.opcode.takesConstant = true -> ∃ index c, i.argument = some index ∧
    chunk.constants[index.toNat]? = some c ∧
    (i.opcode ∈ [.getGlobal, .setGlobal, .getField, .setField] -> ∃ text, c = .string text)

structure Chunk.WellFormed (count : Nat) (chunk : Chunk) : Prop where
  code : ∃ swept, sweep chunk.code = some swept ∧
    ∀ offset i, (offset, i) ∈ swept -> i.Valid chunk (swept.map Prod.fst) offset
  functions : ∀ id, .function id ∈ chunk.constants -> 1 ≤ id.toNat ∧ id.toNat < count

/-- An item of structured code is read as a valid instruction, if it is no jump
or one with a good target. -/
theorem Item.ReadAs.valid {chunk : Chunk} {starts : List Nat} {offset : Nat} {item : Item}
    {i : Instruction} (hsound : item.Sound) (hread : item.ReadAs chunk.constants i)
    (hjump : ∀ opcode distance, item = .jump opcode distance ->
      ∃ target, opcode.JumpsTo offset distance target ∧
        (target ∈ starts ∨ target = chunk.code.length)) :
    i.Valid chunk starts offset := by
  cases item with
  | plain j =>
      cases hread
      constructor
      · intro h
        rw [hsound.2.2] at h
        cases h
      · intro h
        rw [hsound.2.1] at h
        cases h
  | pooled opcode c =>
      rcases hread with ⟨index, k, rfl, hk, hshows⟩
      have htakes : opcode.takesConstant = true := Fragment.takesConstant_of_serves hsound
      constructor
      · intro h
        exact absurd h (Opcode.not_isJump_of_takesConstant htakes)
      · intro _
        refine ⟨index, k, rfl, hk, ?_⟩
        intro hopcode
        cases c with
        | int n =>
            cases hsound
            simp at hopcode
        | string text => exact ⟨text, hshows⟩
        | function ref => cases hsound
  | function =>
      rcases hread with ⟨index, id, rfl, hid⟩
      constructor
      · intro h
        cases h
      · intro _
        refine ⟨index, .function id, rfl, hid, ?_⟩
        intro hopcode
        simp at hopcode
  | call count =>
      rcases hread with ⟨rfl, _⟩
      constructor
      · intro h
        cases h
      · intro h
        cases h
  | jump opcode distance =>
      rcases hread with ⟨rfl, hdistance⟩
      rcases hjump opcode distance rfl with ⟨target, htarget, hstart⟩
      have hbyte := Item.toNat_distance hdistance
      constructor
      · intro _
        refine ⟨UInt8.ofNat distance, target, rfl, ?_, ?_, hstart⟩
        · rw [hbyte]
          exact hdistance
        · rw [hbyte]
          exact htarget
      · intro h
        exact absurd hsound (Opcode.not_isJump_of_takesConstant h)

theorem Chunk.Holds.valid {chunk : Chunk} {f : Fragment} (h : chunk.Holds f) :
    ∃ swept, sweep chunk.code = some swept ∧
      ∀ offset i, (offset, i) ∈ swept -> i.Valid chunk (swept.map Prod.fst) offset := by
  rcases h.sweep_eq with ⟨swept, hswept, hitems⟩
  have hstarts : swept.map Prod.fst = (located Item.size 0 f.items).map Prod.fst := by
    rw [← List.forall₂_eq_eq_eq, List.forall₂_map_left_iff, List.forall₂_map_right_iff]
    exact hitems.flip.imp fun _ _ hpair => hpair.1.symm
  refine ⟨swept, hswept, ?_⟩
  intro offset i hi
  rcases forall₂_mem_right hitems hi with ⟨⟨_, item⟩, hitem, rfl, hsound, hread⟩
  apply hread.valid hsound
  rintro opcode distance rfl
  rcases Item.lands_of_mem (Fragment.lands_items f fun _ ht => ht) hitem with
    ⟨target, htarget, hboundary⟩
  refine ⟨target, htarget, ?_⟩
  rcases Item.mem_located_of_boundary hboundary with hmem | hend
  · exact Or.inl (hstarts ▸ hmem)
  · rw [h.length_code]
    exact Or.inr (hend.trans (Nat.zero_add _))

theorem Builtin.HasStandardCode.structured {b : Builtin} (h : b.HasStandardCode) :
    ∀ f ∈ b.definitions, f.body.Structured true := by
  rcases h with ⟨standard, hmem, hcode⟩
  rw [definitions, hcode, definitions_of_mem_standard hmem]
  simpa using structured_of_mem_standard hmem

namespace Definition

theorem Built.wellFormed {program : Program} {builtins : List Builtin} {resolution : Resolution}
    {a : Assembler} {b : Bytecode} {f : Definition} {entry : ChunkEntry} {chunk : Chunk}
    (g : Generated program builtins resolution a) (hfinal : a.finalize = .ok b)
    (hf : f.body.Structured true) (h : f.Built a entry) (hfinish : a.Finishes entry chunk) :
    chunk.WellFormed b.chunks.length where
  code := ((h.finishedAs hfinish).2 hf).valid
  functions := by
    intro id hid
    rcases h with ⟨_, d, a0, a1, hdraft, hindexed, hself, hbody, hnames⟩
    rcases hfinish with ⟨_, hdraft', hfinish⟩
    cases hdraft.symm.trans hdraft'
    have hstart : (Assembly.functionDraft f.name f.arity d.self).Linked true a0 := by
      refine ⟨hindexed, ?_, ?_⟩
      · intro _
        exact ⟨f.name, hself⟩
      · intro ref href
        simp [Assembly.functionDraft] at href
    exact g.function_bounds hfinal (Fragment.linked_of_emit f.body hf hstart hbody) hnames hfinish
      hid

end Definition

theorem Generated.main_wellFormed {program : Program} {builtins : List Builtin}
    {resolution : Resolution} {a : Assembler} {b : Bytecode} {main : Chunk}
    (g : Generated program builtins resolution a) (hfinal : a.finalize = .ok b)
    (hfinish : g.main.finish a.chunkId = .ok main) : main.WellFormed b.chunks.length := by
  rcases g.main_built with ⟨a0, a1, hindexed, _, hnames, hyields⟩
  have hstructured : (Fragment.sequence g.body).Structured false :=
    Resolution.structured_of_lowerStmts _ g.body_lowered
  have hstart : Draft.Linked false { name := none, self := g.before.length } a0 := by
    refine ⟨hindexed, ?_, ?_⟩
    · intro h
      cases h
    · intro ref href
      cases href
  constructor
  · exact (Fragment.holds_of_finish hstructured .empty rfl hyields hfinish).valid
  · intro id hid
    exact g.function_bounds hfinal (Fragment.linked_of_emit _ hstructured hstart hyields) hnames
      hfinish hid

/-- Every chunk of a compiled program is well formed. -/
theorem compiled_chunks_wellFormed {source : String} {builtins : List Builtin} {c : Compilation}
    (hbuiltins : ∀ b ∈ builtins, b.HasStandardCode) (h : compile source builtins = .ok c) :
    ∀ chunk ∈ c.bytecode.chunks, chunk.WellFormed c.bytecode.chunks.length := by
  rcases compile_eq_ok_iff.mp h with ⟨program, resolution, a, _, _, hgenerate, hfinal, _⟩
  rcases exists_generated hgenerate with ⟨g⟩
  rcases g.chunks_eq hfinal with ⟨main, others, hchunks, hmain, hothers⟩
  have hbuilt := List.rel_append g.builtins_built g.functions_built
  have hstructured : ∀ f ∈ builtins.flatMap Builtin.definitions ++
      Fragment.definitionsOfAll g.body, f.body.Structured true := by
    intro f hf
    rcases List.mem_append.mp hf with hf | hf
    · rcases List.mem_flatMap.mp hf with ⟨b, hb, hf⟩
      exact (hbuiltins b hb).structured f hf
    · rcases forall₂_mem_right (Resolution.definitions_of_lowerStmts _ g.body_lowered) hf with
        ⟨fn, _, hlowered⟩
      exact hlowered.structured
  intro chunk hchunk
  rw [hchunks, List.mem_cons] at hchunk
  rcases hchunk with rfl | hchunk
  · exact g.main_wellFormed hfinal hmain
  · rcases forall₂_mem_right hothers hchunk with ⟨entry, hentry, hfinish⟩
    rcases forall₂_mem_right hbuilt hentry with ⟨f, hf, hfbuilt⟩
    exact hfbuilt.wellFormed g hfinal (hstructured f hf) hfinish

theorem Builtin.hasStandardCode_of_mem {b : Builtin} (h : b ∈ standard) : b.HasStandardCode :=
  ⟨b, h, rfl⟩

theorem compiled_chunks_wellFormed_nested :
    ∃ c, compile
        "fn f(a, b) \x7b \x7b fn g() \x7b return; \x7d \x7d return; \x7d" Builtin.standard = .ok c ∧
      (∀ b ∈ Builtin.standard, b.HasStandardCode) ∧ c.bytecode.chunks.length = 6 ∧
      ∀ chunk ∈ c.bytecode.chunks, chunk.WellFormed 6 := by
  have hstandard : ∀ b ∈ Builtin.standard, b.HasStandardCode :=
    fun _ => Builtin.hasStandardCode_of_mem
  apply exists_ok_of_map (fun c => c.bytecode.chunks.length) (y := 6)
  case h => decide +kernel
  case hP =>
    intro c hc hcount
    exact ⟨hstandard, hcount, hcount ▸ compiled_chunks_wellFormed hstandard hc⟩

end StackScript
