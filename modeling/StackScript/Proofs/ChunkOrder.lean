import Mathlib.GroupTheory.Perm.Fin
import StackScript.Proofs.ChunkRoutines
import StackScript.Proofs.Chunks
import StackScript.Proofs.Layout

/-!
# The order of chunks

A chunk is known by its handle while the program is built, and by its place in
the finished program.  The places are a permutation of the handles, the one that
takes the main chunk to the front, and constants that name a function follow it:
whatever the order in which chunks are started, inside one another or not, and
whether or not some of them failed on the way.
-/

namespace StackScript

/-!
## Chunks stay where they are
-/

/-- The draft of the entry, if there is one, was made for the chunk with this
handle. -/
def ChunkEntry.Owned (entry : ChunkEntry) (ref : ChunkRef) : Prop :=
  ∀ d, entry.draft = some d -> Draft.Extends { name := entry.name, self := ref } d

/-- Chunks were added behind those that were there, which stay as they are, and
the handles on them are in order if they were before. -/
structure Assembler.Continues (a a' : Assembler) : Prop where
  kept : a.entries.toList <+: a'.entries.toList
  owned : ∀ ref entry, a.entries.size ≤ ref -> a'.entries[ref]? = some entry -> entry.Owned ref
  indexed : a.Indexed -> a'.Indexed

namespace Assembler.Continues

variable {a a1 a2 : Assembler} {name : Option String} {ref : ChunkRef}

theorem refl (a : Assembler) : a.Continues a where
  kept := List.prefix_rfl
  owned ref entry hle hentry := by
    rw [Array.getElem?_eq_none hle] at hentry
    cases hentry
  indexed := id

theorem getElem? (h : a.Continues a1) (hlt : ref < a.entries.size) :
    a1.entries[ref]? = a.entries[ref]? := by
  rcases h.kept with ⟨more, hmore⟩
  rw [← Array.getElem?_toList, ← Array.getElem?_toList, ← hmore]
  exact List.getElem?_append_left hlt

theorem trans (h : a.Continues a1) (h' : a1.Continues a2) : a.Continues a2 where
  kept := h.kept.trans h'.kept
  owned ref entry hle hentry := by
    by_cases hlt : ref < a1.entries.size
    · rw [h'.getElem? hlt] at hentry
      exact h.owned ref entry hle hentry
    · exact h'.owned ref entry (Nat.not_lt.mp hlt) hentry
  indexed := h'.indexed ∘ h.indexed

theorem reserve (hreserve : a.reserve name = .ok (ref, a1)) : a.Continues a1 := by
  rcases reserve_eq_ok_iff.mp hreserve with ⟨hfree, _, rfl⟩
  refine ⟨?_, ?_, fun ha => ha.entered hfree⟩
  · rw [entries_entered, Array.toList_push]
    exact List.prefix_append _ _
  · intro other entry hle hentry d hd
    rw [entries_entered, Array.getElem?_push] at hentry
    by_cases hlast : other = a.entries.size
    · rw [if_pos hlast] at hentry
      cases hentry
      cases hd
    · rw [if_neg hlast, Array.getElem?_eq_none hle] at hentry
      cases hentry

/-- A chunk is completed in its own place, behind those that were there when it
was started. -/
theorem complete (hreserve : a.reserve name = .ok (ref, a1)) (h : a1.Continues a2) {d : Draft}
    (hd : Draft.Extends { name, self := ref } d) :
    a.Continues (a2.complete d) ∧ (a2.complete d).draft? ref = some d := by
  have hindexed := ((reserve hreserve).trans h).indexed
  rcases reserve_eq_ok_iff.mp hreserve with ⟨_, rfl, rfl⟩
  rcases h.kept with ⟨more, hmore⟩
  have hstarted := hmore.symm.trans (a.toList_entered_append name more)
  have hcomplete := toList_complete hstarted hd.self
  have hhere : (a2.complete d).entries[a.entries.size]? = some { name, draft := some d } := by
    rw [← Array.getElem?_toList, hcomplete, ← Array.length_toList]
    simp
  refine ⟨⟨?_, ?_, fun ha => (hindexed ha).complete d⟩, ?_⟩
  · rw [hcomplete]
    exact List.prefix_append _ _
  · intro other entry hle hentry
    by_cases hlast : other = a.entries.size
    · rw [hlast, hhere] at hentry
      cases hentry
      intro d' hd'
      cases hd'
      rw [hlast]
      exact hd
    · have hold : a2.entries[other]? = some entry := by
        rw [← hentry, Assembler.complete, Array.getElem?_modify, if_neg]
        rw [hd.self]
        exact Ne.symm hlast
      apply h.owned other entry _ hold
      rw [entries_entered, Array.size_push]
      omega
  · rw [draft?, hhere]
    rfl

end Assembler.Continues

/-- Whatever its outcome, the step only adds chunks. -/
def Assembly.Advances {α : Type} (step : Assembly α) : Prop :=
  ∀ a,
    match step a with
    | .ok _ a' | .error _ a' => a.Continues a'

/-- The same for a step on a draft, of which it makes a later state. -/
def Emit.Advances {α : Type} (step : Emit α) : Prop :=
  ∀ d a,
    match step d a with
    | .ok (_, d') a' => a.Continues a' ∧ d.Extends d'
    | .error _ a' => a.Continues a'

theorem Assembly.Advances.addChunk {body : Emit Unit} (name : Option String)
    (hbody : body.Advances) : Advances (addChunk name body) := by
  intro a
  unfold Assembly.addChunk
  cases hreserve : a.reserve name with
  | error e => exact .refl a
  | ok p =>
      rcases p with ⟨ref, a1⟩
      have hstarted := Assembler.Continues.reserve hreserve
      have hrun := hbody { name, self := ref } a1
      simp only
      cases hemit : body { name, self := ref } a1 with
      | error e a2 =>
          rw [hemit] at hrun
          exact hstarted.trans hrun
      | ok q a2 =>
          rcases q with ⟨_, d⟩
          rw [hemit] at hrun
          exact (Assembler.Continues.complete hreserve hrun.1 hrun.2).1

namespace Emit.Advances

variable {α β : Type}

theorem observed {step : Emit α} {next : Except AssembleError α -> Emit β}
    (h : Advances step) (hnext : ∀ outcome, Advances (next outcome)) :
    Advances (step.observed next) := by
  intro d a
  have hstep := h d a
  unfold Emit.observed Emit.followed
  cases hrun : step d a with
  | ok p a1 =>
      rcases p with ⟨x, d1⟩
      rw [hrun] at hstep
      rcases hstep with ⟨hfirst, hextends⟩
      have hrest := hnext (.ok x) d1 a1
      cases hlast : next (.ok x) d1 a1 with
      | ok q a2 =>
          rw [hlast] at hrest
          simp only [hlast]
          exact ⟨hfirst.trans hrest.1, hextends.trans hrest.2⟩
      | error e a2 =>
          rw [hlast] at hrest
          simp only [hlast]
          exact hfirst.trans hrest
  | error e a1 =>
      rw [hrun] at hstep
      have hrest := hnext (.error e) d a1
      cases hlast : next (.error e) d a1 with
      | ok q a2 =>
          rw [hlast] at hrest
          simp only [hlast]
          exact ⟨hstep.trans hrest.1, hrest.2⟩
      | error e' a2 =>
          rw [hlast] at hrest
          simp only [hlast]
          exact hstep.trans hrest

theorem of_draft {step : Emit α}
    (h : ∀ d a, (∃ x d', step.Yields d a x d' a ∧ d.Extends d') ∨ ∃ e, step d a = .error e a) :
    Advances step := by
  intro d a
  rcases h d a with ⟨x, d', hyields, hextends⟩ | ⟨e, he⟩
  · rw [hyields]
    exact ⟨.refl a, hextends⟩
  · rw [he]
    exact .refl a

theorem lift {step : Assembly α} (h : step.Advances) : Advances (liftM step) := by
  intro d a
  have hstep := h a
  show match EStateM.bind step (fun x => EStateM.pure (x, d)) a with
    | .ok (_, d') a' => a.Continues a' ∧ d.Extends d'
    | .error _ a' => a.Continues a'
  unfold EStateM.bind
  cases hrun : step a with
  | error e a' =>
      rw [hrun] at hstep
      exact hstep
  | ok x a' =>
      rw [hrun] at hstep
      exact ⟨hstep, .refl d⟩

theorem pure (x : α) : Advances (pure x) :=
  of_draft fun d _ => Or.inl ⟨x, d, rfl, .refl d⟩

theorem get : Advances get :=
  of_draft fun d _ => Or.inl ⟨d, d, rfl, .refl d⟩

theorem named? (name : String) : Advances (named? name) :=
  of_draft fun d a => Or.inl ⟨a.named? name, d, rfl, .refl d⟩

theorem throw (e : AssembleError) : Advances (throw e : Emit α) :=
  of_draft fun _ _ => Or.inr ⟨e, rfl⟩

theorem bind {step : Emit α} {next : α -> Emit β} (h : Advances step)
    (hnext : ∀ x, Advances (next x)) : Advances (step >>= next) := by
  rw [bind_eq_observed]
  apply h.observed
  intro outcome
  cases outcome with
  | ok x => exact hnext x
  | error e => exact throw e

theorem push (directive : Directive) : Advances (push directive) :=
  of_draft fun d _ => Or.inl ⟨(), _, rfl, d.extends_push directive⟩

theorem newLabel (name : Option String) : Advances (newLabel name) :=
  of_draft fun d _ => Or.inl ⟨_, _, rfl, d.extends_newLabel name⟩

theorem store (c : PoolConstant) : Advances (store c) := by
  apply of_draft
  intro d a
  rcases store_cases d a c with ⟨index, d', hstore, hyields⟩ | hfails
  · exact Or.inl ⟨index, d', hyields, Draft.extends_store hstore⟩
  · exact Or.inr hfails

theorem place (label : Label) : Advances (place label) := by
  apply of_draft
  intro d a
  rcases place_cases d a label with ⟨d', hplace, hyields⟩ | hfails
  · exact Or.inl ⟨(), d', hyields, Draft.extends_place hplace⟩
  · exact Or.inr hfails

theorem jump (target : Label) : Advances (jump target) :=
  (newLabel none).bind fun here => (push (.jump target here)).bind fun _ => place here

theorem jumpIfFalse (target : Label) : Advances (jumpIfFalse target) :=
  (newLabel none).bind fun here => (push (.jumpIfFalse target here)).bind fun _ => place here

theorem function {body : Emit Unit} (name : String) (arity : UInt8) (hbody : body.Advances) :
    Assembly.Advances (Assembly.addFunctionChunk name arity body) :=
  .addChunk _ ((store _).bind fun _ => (store _).bind fun _ => hbody)

end Emit.Advances

theorem Routine.advances_run : ∀ routine : Routine, routine.run.Advances
  | done => .pure ()
  | fail e => .throw e
  | look next => Emit.Advances.get.bind fun d => (next d).advances_run
  | find name next => (Emit.Advances.named? name).bind fun chunk? => (next chunk?).advances_run
  | instr i next => (Emit.Advances.push (.instr i)).bind fun _ => next.advances_run
  | store c next => (Emit.Advances.store c).observed fun outcome => (next outcome).advances_run
  | newLabel name next =>
      (Emit.Advances.newLabel name).bind fun label => (next label).advances_run
  | place label next =>
      (Emit.Advances.place label).observed fun outcome => (next outcome).advances_run
  | jump target next =>
      (Emit.Advances.jump target).observed fun outcome => (next outcome).advances_run
  | jumpIfFalse target next =>
      (Emit.Advances.jumpIfFalse target).observed fun outcome => (next outcome).advances_run
  | function name arity body next =>
      (Emit.Advances.lift (Emit.Advances.function name arity body.advances_run)).observed
        fun outcome => (next outcome).advances_run

/-!
## Programs behind calls
-/

namespace BuildCall

theorem run_eq_ok_iff {call : BuildCall} {a a' : Assembler} {ref : ChunkRef} :
    call.run a = .ok ref a' ↔
      ∃ a1 d a2, a.reserve call.name = .ok (ref, a1) ∧
        call.body.run.Yields (call.start ref) a1 () d a2 ∧ a2.complete d = a' := by
  cases call with
  | main body => exact Assembly.addChunk_eq_ok_iff
  | named name body => exact Assembly.addChunk_eq_ok_iff
  | function name arity body => exact Assembly.addFunctionChunk_eq_ok_iff

theorem advances_run (call : BuildCall) : call.run.Advances := by
  cases call with
  | main body => exact .addChunk _ body.advances_run
  | named name body => exact .addChunk _ body.advances_run
  | function name arity body => exact Emit.Advances.function name arity body.advances_run

theorem extends_start (call : BuildCall) (ref : ChunkRef) :
    Draft.Extends { name := call.name, self := ref } (call.start ref) := by
  cases call with
  | main body => exact .refl _
  | named name body => exact .refl _
  | function name arity body =>
      rcases Assembly.store_function_constants name arity ref with ⟨d, hname, harity⟩
      exact (Draft.extends_store hname).trans (Draft.extends_store harity)

end BuildCall

namespace Assembler

theorem continues_built (a : Assembler) (calls : List BuildCall) : a.Continues (a.built calls) := by
  induction calls generalizing a with
  | nil => exact .refl a
  | cons call rest ih =>
      have hrun := call.advances_run a
      refine Continues.trans ?_ (ih (Assembly.final (call.run a)))
      cases hcall : call.run a with
      | ok ref a' =>
          rw [hcall] at hrun
          exact hrun
      | error e a' =>
          rw [hcall] at hrun
          exact hrun

theorem indexed_built (calls : List BuildCall) : (built {} calls).Indexed :=
  (continues_built {} calls).indexed .start

variable {a a' : Assembler} {ref : ChunkRef} {d : Draft}

theorem Continues.draft? (h : a.Continues a') (hd : a.draft? ref = some d) :
    a'.draft? ref = some d := by
  rcases Option.bind_eq_some_iff.mp hd with ⟨entry, hentry, hdraft⟩
  rw [Assembler.draft?, h.getElem? (Array.getElem?_eq_some_iff.mp hentry).1, hentry]
  exact hdraft

/-- What a call returns is the handle on the chunk that its body filled, for
good. -/
theorem draft?_of_run {before later : List BuildCall} {call : BuildCall}
    (h : call.run (a.built before) = .ok ref a') :
    ∃ a1 d a2, call.body.run.Yields (call.start ref) a1 () d a2 ∧
      (a.built (before ++ call :: later)).draft? ref = some d := by
  rcases BuildCall.run_eq_ok_iff.mp h with ⟨a1, d, a2, hreserve, hyields, hcomplete⟩
  have hrun := call.body.advances_run (call.start ref) a1
  rw [hyields] at hrun
  have hdraft := (Continues.complete hreserve hrun.1 ((call.extends_start ref).trans hrun.2)).2
  refine ⟨a1, d, a2, hyields, ?_⟩
  rw [built_append, built, h]
  rw [hcomplete] at hdraft
  exact (continues_built _ later).draft? hdraft

theorem extends_of_draft? (calls : List BuildCall) (h : (built {} calls).draft? ref = some d) :
    ∃ name, (built {} calls).names[ref]? = some name ∧ Draft.Extends { name, self := ref } d := by
  rcases Option.bind_eq_some_iff.mp h with ⟨entry, hentry, hdraft⟩
  refine ⟨entry.name, ?_,
    (continues_built {} calls).owned ref entry (Nat.zero_le ref) hentry d hdraft⟩
  rw [names, List.getElem?_map, Array.getElem?_toList, hentry]
  rfl

theorem self_of_draft? (calls : List BuildCall) (h : (built {} calls).draft? ref = some d) :
    d.self = ref ∧ (built {} calls).names[ref]? = some d.name := by
  rcases extends_of_draft? calls h with ⟨name, hname, hextends⟩
  refine ⟨hextends.self, ?_⟩
  rw [hname, hextends.name]

/-!
## Places
-/

theorem Indexed.main?_lt (ha : a.Indexed) {main : ChunkRef} (h : a.main? = some main) :
    main < a.entries.size := by
  rw [← length_names]
  exact (List.getElem?_eq_some_iff.mp ((ha none main).mp h)).1

theorem val_cycleRange {n : Nat} (main ref : Fin n) :
    (main.cycleRange ref).val =
      if ref.val = main then 0 else if ref.val < main then ref.val + 1 else ref := by
  rcases lt_trichotomy ref main with hlt | heq | hgt
  · rw [Fin.coe_cycleRange_of_lt hlt, if_neg (Nat.ne_of_lt hlt), if_pos (Fin.lt_def.mp hlt)]
  · rw [heq, Fin.coe_cycleRange_of_le le_rfl, if_pos rfl, if_pos rfl]
  · rw [Fin.cycleRange_of_gt hgt, if_neg (Nat.ne_of_gt hgt),
      if_neg (Nat.lt_asymm (Fin.lt_def.mp hgt))]

theorem cycleRange_eq_zero_iff {n : Nat} (main ref : Fin n) :
    (main.cycleRange ref).val = 0 ↔ ref.val = main := by
  rw [val_cycleRange]
  by_cases hmain : ref.val = main
  · rw [if_pos hmain]
    exact iff_of_true rfl hmain
  · rw [if_neg hmain]
    refine iff_of_false ?_ hmain
    by_cases hbefore : ref.val < main
    · rw [if_pos hbefore]
      exact Nat.succ_ne_zero _
    · rw [if_neg hbefore]
      omega

theorem cycleRange_lt {n : Nat} (main ref ref' : Fin n) (href : ref.val ≠ main)
    (href' : ref'.val ≠ main) (hlt : ref < ref') : main.cycleRange ref < main.cycleRange ref' := by
  rw [Fin.lt_def] at hlt ⊢
  rw [val_cycleRange, val_cycleRange, if_neg href, if_neg href']
  split_ifs <;> omega

section Places

variable (main : Fin a.entries.size)

theorem chunkId_eq (hmain : a.main? = some main.val) (hsize : a.entries.size ≤ maxChunks)
    (ref : Fin a.entries.size) :
    ∃ id, a.chunkId ref = .ok id ∧ id.toNat = main.cycleRange ref := by
  have hlt : (main.cycleRange ref).val < maxChunks := Nat.lt_of_lt_of_le (Fin.is_lt _) hsize
  refine ⟨UInt8.ofNat (main.cycleRange ref), ?_, UInt8.toNat_ofNat_of_lt' hlt⟩
  simp only [chunkId, hmain, ← val_cycleRange, if_neg (Nat.not_le.mpr ref.is_lt), if_pos hlt]

theorem lt_of_chunkId {id : UInt8} (h : a.chunkId ref = .ok id) : ref < a.entries.size := by
  unfold chunkId at h
  cases hmain : a.main? with
  | none =>
      rw [hmain] at h
      cases h
  | some main =>
      simp only [hmain] at h
      by_cases hsize : a.entries.size ≤ ref
      · rw [if_pos hsize] at h
        cases h
      · exact Nat.not_le.mp hsize

theorem order_eq :
    a.order main =
      main.val :: (List.range main ++ List.range' (main + 1) (a.entries.size - (main + 1))) := by
  have hothers : (List.range a.entries.size).filter (· ≠ main.val) =
      (List.range a.entries.size).erase main := by
    rw [List.nodup_range.erase_eq_filter]
    apply List.filter_congr
    intro other _
    rw [decide_not, bne, beq_eq_decide]
  rw [order, hothers, List.erase_range, Nat.min_eq_right (Nat.le_of_lt main.is_lt)]

theorem length_order : (a.order main).length = a.entries.size := by
  have hlt := main.is_lt
  rw [order_eq, List.length_cons, List.length_append, List.length_range, List.length_range']
  omega

theorem getElem?_order (ref : Fin a.entries.size) :
    (a.order main)[(main.cycleRange ref).val]? = some ref.val := by
  rw [order_eq]
  rcases lt_trichotomy ref main with hlt | heq | hgt
  · rw [Fin.coe_cycleRange_of_lt hlt, List.getElem?_cons_succ,
      List.getElem?_append_left (by simpa using hlt)]
    exact List.getElem?_range hlt
  · rw [heq, Fin.coe_cycleRange_of_le le_rfl, if_pos rfl]
    rfl
  · rw [Fin.cycleRange_of_gt hgt]
    rcases Nat.exists_eq_succ_of_ne_zero (Nat.ne_zero_of_lt hgt) with ⟨index, hindex⟩
    have hgt' : main.val ≤ index := by omega
    have hback : index - main.val < a.entries.size - (main.val + 1) := by omega
    rw [hindex, List.getElem?_cons_succ, List.getElem?_append_right (by simpa using hgt'),
      List.length_range, List.getElem?_range' hback]
    congr 1
    omega

theorem ordered_eq_ok_iff (hmain : a.main? = some main.val) (hsize : a.entries.size ≤ maxChunks)
    {drafts : List Draft} :
    a.ordered = .ok drafts ↔
      List.Forall₂ (fun ref d => a.draft? ref = some d) (a.order main) drafts := by
  simp only [ordered, hmain, if_pos hsize, mapM_eq_ok_iff]
  apply iff_of_eq
  congr
  funext ref d
  cases a.draft? ref <;> simp

theorem getElem?_ordered (hmain : a.main? = some main.val) (hsize : a.entries.size ≤ maxChunks)
    {drafts : List Draft} (h : a.ordered = .ok drafts) :
    drafts.length = a.entries.size ∧
      ∀ ref : Fin a.entries.size,
        ∃ d, drafts[(main.cycleRange ref).val]? = some d ∧ a.draft? ref = some d := by
  have hall := (ordered_eq_ok_iff main hmain hsize).mp h
  constructor
  · rw [← hall.length_eq, length_order]
  · intro ref
    exact forall₂_getElem? hall (getElem?_order main ref)

theorem finalize_eq_ok_iff {b : Bytecode} :
    a.finalize = .ok b ↔ ∃ drafts, a.ordered = .ok drafts ∧
      List.Forall₂ (fun d chunk => d.finish a.chunkId = .ok chunk) drafts b.chunks := by
  simp only [finalize, bind_eq_ok_iff, pure_eq_ok_iff, mapM_eq_ok_iff]
  constructor
  · rintro ⟨drafts, hordered, chunks, hchunks, rfl⟩
    exact ⟨drafts, hordered, hchunks⟩
  · rintro ⟨drafts, hordered, hchunks⟩
    exact ⟨drafts, hordered, b.chunks, hchunks, rfl⟩

theorem getElem?_finalize (hmain : a.main? = some main.val) (hsize : a.entries.size ≤ maxChunks)
    {b : Bytecode} (h : a.finalize = .ok b) :
    b.chunks.length = a.entries.size ∧
      ∀ ref : Fin a.entries.size,
        ∃ d chunk, a.draft? ref = some d ∧ d.finish a.chunkId = .ok chunk ∧
          b.chunks[(main.cycleRange ref).val]? = some chunk := by
  rcases finalize_eq_ok_iff.mp h with ⟨drafts, hordered, hchunks⟩
  rcases getElem?_ordered main hmain hsize hordered with ⟨hlength, hdrafts⟩
  constructor
  · exact hchunks.length_eq.symm.trans hlength
  · intro ref
    rcases hdrafts ref with ⟨d, hplace, hdraft⟩
    rcases forall₂_getElem? hchunks hplace with ⟨chunk, hchunk, hfinish⟩
    exact ⟨d, chunk, hdraft, hfinish, hchunk⟩

end Places

theorem exists_main_of_ordered {drafts : List Draft} (h : a.ordered = .ok drafts) :
    ∃ main : Fin a.entries.size, a.main? = some main.val ∧ a.entries.size ≤ maxChunks := by
  unfold ordered at h
  cases hmain : a.main? with
  | none =>
      rw [hmain] at h
      cases h
  | some main =>
      simp only [hmain] at h
      by_cases hsize : a.entries.size ≤ maxChunks
      · rw [if_pos hsize, order, mapM_eq_ok_iff, List.forall₂_cons_left_iff] at h
        rcases h with ⟨d, _, hdraft, _, _⟩
        cases hd : a.draft? main with
        | none =>
            rw [hd] at hdraft
            cases hdraft
        | some d' =>
            rcases Option.bind_eq_some_iff.mp hd with ⟨entry, hentry, _⟩
            exact ⟨⟨main, (Array.getElem?_eq_some_iff.mp hentry).1⟩, rfl, hsize⟩
      · rw [if_neg hsize] at h
        cases h

theorem exists_finished {b : Bytecode} (h : a.finalize = .ok b) :
    ∃ main : Fin a.entries.size, a.main? = some main.val ∧ a.entries.size ≤ maxChunks ∧
      ∀ ref : Fin a.entries.size,
        ∃ d chunk, a.draft? ref = some d ∧ d.finish a.chunkId = .ok chunk ∧
          b.chunks[(main.cycleRange ref).val]? = some chunk := by
  rcases finalize_eq_ok_iff.mp h with ⟨drafts, hordered, _⟩
  rcases exists_main_of_ordered hordered with ⟨main, hmain, hsize⟩
  exact ⟨main, hmain, hsize, (getElem?_finalize main hmain hsize h).2⟩

/-- The number of a chunk is its place in the finished program. -/
theorem getElem?_of_chunkId {b : Bytecode} (h : a.finalize = .ok b) {id : UInt8}
    (hid : a.chunkId ref = .ok id) :
    ∃ d chunk, a.draft? ref = some d ∧ d.finish a.chunkId = .ok chunk ∧
      b.chunks[id.toNat]? = some chunk := by
  rcases exists_finished h with ⟨main, hmain, hsize, hfinished⟩
  rcases hfinished ⟨ref, lt_of_chunkId hid⟩ with ⟨d, chunk, hdraft, hfinish, hplace⟩
  rcases chunkId_eq main hmain hsize ⟨ref, lt_of_chunkId hid⟩ with ⟨id', hid', hvalue⟩
  cases hid.symm.trans hid'
  rw [← hvalue] at hplace
  exact ⟨d, chunk, hdraft, hfinish, hplace⟩

/-- A constant that names a function names its chunk in the finished program. -/
theorem function_of_finish {b : Bytecode} (h : a.finalize = .ok b) {chunk : Chunk}
    (hfinish : d.finish a.chunkId = .ok chunk) {index : Nat}
    (hconstant : d.pool.constants[index]? = some (.function ref)) :
    ∃ id d' chunk', chunk.constants[index]? = some (.function id) ∧ a.draft? ref = some d' ∧
      d'.finish a.chunkId = .ok chunk' ∧ b.chunks[id.toNat]? = some chunk' := by
  rcases forall₂_getElem? (Draft.finish_eq_ok_iff.mp hfinish).2.1 hconstant with ⟨c, hc, hfinished⟩
  rcases map_eq_ok_iff.mp hfinished with ⟨id, hid, rfl⟩
  rcases getElem?_of_chunkId h hid with ⟨d', chunk', hdraft, hfinish', hplace⟩
  exact ⟨id, d', chunk', hc, hdraft, hfinish', hplace⟩

/-- The place of a chunk and its number agree, and whatever names a function ends
up naming its chunk. -/
theorem chunks_in_place (calls : List BuildCall) {main : ChunkRef}
    (hmain : (built {} calls).main? = some main)
    (hsize : (built {} calls).entries.size ≤ maxChunks) :
    let a := built {} calls
    ∃ place : Equiv.Perm (Fin a.entries.size),
      (∀ ref : Fin a.entries.size, ∃ id, a.chunkId ref = .ok id ∧ id.toNat = place ref) ∧
      (∀ ref, (place ref).val = 0 ↔ ref.val = main) ∧
      (∀ ref ref', ref.val ≠ main -> ref'.val ≠ main -> ref < ref' -> place ref < place ref') ∧
      (∀ before call later ref a', calls = before ++ call :: later ->
        call.run (built {} before) = .ok ref a' ->
          ∃ a1 d a2, call.body.run.Yields (call.start ref) a1 () d a2 ∧ a.draft? ref = some d) ∧
      (∀ drafts, a.ordered = .ok drafts -> drafts.length = a.entries.size ∧
        ∀ ref : Fin a.entries.size,
          ∃ d, drafts[(place ref).val]? = some d ∧ a.draft? ref = some d ∧
          d.self = ref ∧ a.names[ref.val]? = some d.name) ∧
      ∀ b, a.finalize = .ok b -> b.chunks.length = a.entries.size ∧
        ∀ ref : Fin a.entries.size,
          ∃ d chunk, a.draft? ref = some d ∧ d.finish a.chunkId = .ok chunk ∧
          b.chunks[(place ref).val]? = some chunk ∧
          ∀ (index : Nat) (target : ChunkRef),
            d.pool.constants[index]? = some (.function target) ->
              ∃ id d' chunk', chunk.constants[index]? = some (.function id) ∧
                a.draft? target = some d' ∧ d'.finish a.chunkId = .ok chunk' ∧
                b.chunks[id.toNat]? = some chunk' := by
  intro a
  let first : Fin a.entries.size := ⟨main, (indexed_built calls).main?_lt hmain⟩
  refine ⟨first.cycleRange, chunkId_eq first hmain hsize, cycleRange_eq_zero_iff first,
    cycleRange_lt first, ?_, ?_, ?_⟩
  · intro before call later ref a' hcalls hrun
    subst hcalls
    exact draft?_of_run hrun
  · intro drafts hdrafts
    rcases getElem?_ordered first hmain hsize hdrafts with ⟨hlength, hplaces⟩
    refine ⟨hlength, fun ref => ?_⟩
    rcases hplaces ref with ⟨d, hplace, hd⟩
    rcases self_of_draft? calls hd with ⟨hself, hname⟩
    exact ⟨d, hplace, hd, hself, hname⟩
  · intro b hb
    rcases getElem?_finalize first hmain hsize hb with ⟨hlength, hplaces⟩
    refine ⟨hlength, fun ref => ?_⟩
    rcases hplaces ref with ⟨d, chunk, hd, hfinish, hplace⟩
    exact ⟨d, chunk, hd, hfinish, hplace, fun _ _ => function_of_finish hb hfinish⟩

/-- The main chunk comes between others, and one more is started inside it, where
the name of the first is tried again and the error dropped.  A later call for that
name fails. -/
def nestedCalls : List BuildCall :=
  [.function "f" 0 ((Fragment.sequence [.self, .op .giveBack]).routine .done),
    .main (.function "g" 1 ((Fragment.builtin "f").routine .done) fun _ =>
      .function "f" 0 .done fun _ => (Fragment.builtin "f").routine .done),
    .named "f" .done, .named "data" (.store (.int 3) fun _ => .done)]

theorem chunks_in_place_nested :
    (built {} nestedCalls).main? = some 1 ∧ (built {} nestedCalls).entries.size ≤ maxChunks ∧
      ∃ b, (built {} nestedCalls).finalize = .ok b ∧ b.chunks.length = 4 ∧
        b.chunks.map (·.name) = [none, some "f", some "g", some "data"] ∧
        b.chunks.map (·.constants.getLast?) =
          [some (.function 1), some (.function 1), some (.function 1), some (.int 3)] := by
  have hmain : (built {} nestedCalls).main? = some 1 := by decide +kernel
  have hsize : (built {} nestedCalls).entries.size ≤ maxChunks := by decide +kernel
  have hfour : (built {} nestedCalls).entries.size = 4 := by decide +kernel
  rcases chunks_in_place nestedCalls hmain hsize with ⟨_, _, _, _, _, _, hfinal⟩
  refine ⟨hmain, hsize, ?_⟩
  apply exists_ok_of_map
    (fun b => (b.chunks.map (·.name), b.chunks.map (·.constants.getLast?)))
    (y := ([none, some "f", some "g", some "data"],
      [some (.function 1), some (.function 1), some (.function 1), some (.int 3)]))
  · decide +kernel
  · intro b hb hview
    exact ⟨(hfinal b hb).1.trans hfour, congrArg Prod.fst hview, congrArg Prod.snd hview⟩

end Assembler

/-!
## Calls of a program
-/

def Builtin.buildCall (b : Builtin) : BuildCall :=
  .function b.name b.arity (b.code.routine .done)

theorem Assembler.built_of_addBuiltins {builtins : List Builtin} {a a' : Assembler}
    (h : Assembly.addBuiltins builtins a = .ok () a') :
    a.built (builtins.map Builtin.buildCall) = a' := by
  induction builtins generalizing a with
  | nil =>
      cases h
      rfl
  | cons b rest ih =>
      rw [Assembly.addBuiltins, stateBind_eq_ok_iff] at h
      rcases h with ⟨ref, a1, hfirst, hrest⟩
      rw [List.map_cons, built, Builtin.buildCall, BuildCall.run_function, hfirst]
      exact ih hrest

def buildCalls (builtins : List Builtin) (body : List Fragment) : List BuildCall :=
  builtins.map Builtin.buildCall ++ [.main ((Fragment.sequence body).routine .done)]

theorem Program.generate_eq_ok {program : Program} {builtins : List Builtin}
    {resolution : Resolution} {a : Assembler}
    (h : program.generate builtins resolution = .ok a) :
    ∃ body, resolution.lowerStmts [] program.statements = .ok body ∧
      a = Assembler.built {} (buildCalls builtins body) := by
  simp only [generate, bind_eq_ok_iff, pure_eq_ok_iff] at h
  rcases h with ⟨⟨_, a1⟩, hbuiltins, body, hlowered, ⟨ref, a2⟩, hmain, rfl⟩
  rw [Assembly.runFrom_eq_ok_iff] at hbuiltins hmain
  refine ⟨body, hlowered, ?_⟩
  rw [buildCalls, Assembler.built_append, Assembler.built_of_addBuiltins hbuiltins,
    Assembler.built, BuildCall.run_main, hmain]
  rfl

end StackScript
