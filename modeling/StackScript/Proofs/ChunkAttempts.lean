import StackScript.Proofs.ChunkOrder
import StackScript.Proofs.EmissionLimits

/-!
# Attempts at chunks

Whatever is called to build a program, and whatever fails on the way, the
program keeps a full account of it: every chunk that was ever started, in order,
with its name and whether it was completed.  Nothing is ever taken off the
account or changed in it, and only a program with a clean one can be finished.
-/

namespace StackScript

/-- A chunk that was started: its name, and whether it was completed.  The main
chunk has no name. -/
structure ChunkAttempt where
  name : Option String
  succeeded : Bool
  deriving DecidableEq, Repr

namespace Assembler

def attempts (a : Assembler) : List ChunkAttempt :=
  a.entries.toList.map fun entry => { name := entry.name, succeeded := entry.draft.isSome }

theorem map_name_attempts (a : Assembler) : a.attempts.map (·.name) = a.names := by
  rw [attempts, List.map_map]
  rfl

theorem getElem?_attempts {a : Assembler} {ref : ChunkRef} {attempt : ChunkAttempt} :
    a.attempts[ref]? = some attempt ↔
      ∃ draft, a.entries[ref]? = some { name := attempt.name, draft } ∧
        draft.isSome = attempt.succeeded := by
  rw [attempts, List.getElem?_map, Array.getElem?_toList]
  cases hentry : a.entries[ref]? with
  | none => simp
  | some entry =>
      rcases entry with ⟨name, draft⟩
      rcases attempt with ⟨name', succeeded⟩
      simp only [Option.map_some, Option.some.injEq, ChunkAttempt.mk.injEq, ChunkEntry.mk.injEq]
      constructor
      · rintro ⟨rfl, rfl⟩
        exact ⟨draft, ⟨rfl, rfl⟩, rfl⟩
      · rintro ⟨_, ⟨rfl, rfl⟩, rfl⟩
        exact ⟨rfl, rfl⟩

end Assembler

/-!
## Building a chunk
-/

namespace Assembly

variable {α : Type}

def succeeds : EStateM.Result AssembleError Assembler α -> Bool
  | .ok _ _ => true
  | .error _ _ => false

def fill (name : Option String) (start : ChunkRef -> Draft) (body : Emit Unit) :
    Assembly ChunkRef := fun a =>
  match a.reserve name with
  | .error e => .error e a
  | .ok (chunk, a) =>
      match body (start chunk) a with
      | .error e a => .error e a
      | .ok ((), d) a => .ok chunk (a.complete d)

theorem addFunctionChunk_eq_fill (name : String) (arity : UInt8) (body : Emit Unit) :
    addFunctionChunk name arity body = fill (some name) (functionDraft name arity) body := by
  funext a
  unfold addFunctionChunk addChunk fill
  cases a.reserve (some name) with
  | error e => rfl
  | ok p => rfl

theorem fill_of_taken {name : Option String} {a : Assembler} (h : (a.handle? name).isSome)
    (start : ChunkRef -> Draft) (body : Emit Unit) :
    fill name start body a = .error (.duplicateChunk (name.getD mainName)) a := by
  rw [fill, Assembler.reserve, if_pos h]

def history (name : Option String) (start : ChunkRef -> Draft) (body : Emit Unit)
    (inside : Draft -> Assembler -> List ChunkAttempt) (a : Assembler) : List ChunkAttempt :=
  match a.reserve name with
  | .error _ => []
  | .ok (ref, a) =>
      { name, succeeded := succeeds (body (start ref) a) } :: inside (start ref) a

theorem history_of_free {name : Option String} {a : Assembler} (h : a.handle? name = none)
    (start : ChunkRef -> Draft) (body : Emit Unit)
    (inside : Draft -> Assembler -> List ChunkAttempt) :
    (∃ more, history name start body inside a =
      { name, succeeded := succeeds (fill name start body a) } :: more) ∧
      ∀ ref a', fill name start body a = .ok ref a' -> ref = a.entries.size := by
  have hreserve := Assembler.reserve_eq_ok_iff.mpr ⟨h, rfl, rfl⟩
  unfold history fill
  rw [hreserve]
  simp only
  cases body (start a.entries.size) (a.entered name) with
  | ok p a1 =>
      refine ⟨⟨_, rfl⟩, ?_⟩
      rintro ref a' hok
      cases hok
      rfl
  | error e a1 =>
      refine ⟨⟨_, rfl⟩, ?_⟩
      rintro ref a' hok
      cases hok

end Assembly

/-- The second program has the account of the first, with more behind it. -/
def Assembler.Records (a : Assembler) (new : List ChunkAttempt) (a' : Assembler) : Prop :=
  a'.attempts = a.attempts ++ new

namespace Assembler.Records

variable {a a1 a2 : Assembler} {new new' : List ChunkAttempt}

theorem refl (a : Assembler) : a.Records [] a :=
  (List.append_nil _).symm

theorem trans (h : a.Records new a1) (h' : a1.Records new' a2) : a.Records (new ++ new') a2 := by
  rw [Records] at h h' ⊢
  rw [h', h, List.append_assoc]

theorem reserve {name : Option String} {ref : ChunkRef}
    (h : a.reserve name = .ok (ref, a1)) : a.Records [{ name, succeeded := false }] a1 := by
  rcases reserve_eq_ok_iff.mp h with ⟨_, _, rfl⟩
  simp [Records, attempts, entries_entered]

/-- Completing a chunk changes its own line of the account only. -/
theorem complete {name : Option String} {ref : ChunkRef} {d : Draft}
    (hreserve : a.reserve name = .ok (ref, a1)) (hcontinues : a1.Continues a2)
    (h : a1.Records new a2) (hself : d.self = ref) :
    a.Records ({ name, succeeded := true } :: new) (a2.complete d) := by
  rcases reserve_eq_ok_iff.mp hreserve with ⟨_, rfl, rfl⟩
  rcases hcontinues.kept with ⟨more, hmore⟩
  have hentries := hmore.symm.trans (a.toList_entered_append name more)
  rw [Records, attempts, ← hmore, List.map_append, ← attempts] at h
  rw [Records, attempts, toList_complete hentries hself, List.map_append, List.map_cons,
    List.append_cancel_left h]
  rfl

theorem fill (name : Option String) {start : ChunkRef -> Draft} {body : Emit Unit}
    {inside : Draft -> Assembler -> List ChunkAttempt} (hstart : ∀ ref, (start ref).self = ref)
    (hbody : body.Advances)
    (hinside : ∀ d (a : Assembler), a.Records (inside d a) (Assembly.final (body d a)))
    (a : Assembler) :
    a.Records (Assembly.history name start body inside a)
      (Assembly.final (Assembly.fill name start body a)) := by
  unfold Assembly.history Assembly.fill
  cases hreserve : a.reserve name with
  | error e => exact .refl a
  | ok p =>
      rcases p with ⟨ref, a1⟩
      have hadvances := hbody (start ref) a1
      have hrecords := hinside (start ref) a1
      simp only
      cases hrun : body (start ref) a1 with
      | error e a2 =>
          rw [hrun] at hrecords
          exact (Records.reserve hreserve).trans hrecords
      | ok q a2 =>
          rw [hrun] at hrecords hadvances
          exact complete hreserve hadvances.1 hrecords (hadvances.2.self.trans (hstart ref))

theorem observed {α : Type} {step : Emit α} {next : Except AssembleError α -> Emit Unit}
    {behind : Except AssembleError α -> Draft -> Assembler -> List ChunkAttempt} {d : Draft}
    (hstep : a.Records new (Assembly.final (step d a)))
    (hnext : ∀ outcome d (a : Assembler),
      a.Records (behind outcome d a) (Assembly.final (next outcome d a))) :
    a.Records (new ++ step.followed behind d a) (Assembly.final (step.observed next d a)) := by
  unfold Emit.observed Emit.followed
  cases hrun : step d a with
  | ok p a' =>
      rw [hrun] at hstep
      exact hstep.trans (hnext (.ok p.1) p.2 a')
  | error e a' =>
      rw [hrun] at hstep
      exact hstep.trans (hnext (.error e) d a')

theorem observed_alone {α : Type} {step : Emit α} {next : Except AssembleError α -> Emit Unit}
    {behind : Except AssembleError α -> Draft -> Assembler -> List ChunkAttempt} {d : Draft}
    (hstep : Assembly.final (step d a) = a)
    (hnext : ∀ outcome d (a : Assembler),
      a.Records (behind outcome d a) (Assembly.final (next outcome d a))) :
    a.Records (step.followed behind d a) (Assembly.final (step.observed next d a)) := by
  have hnone : a.Records [] (Assembly.final (step d a)) := by
    rw [hstep]
    exact .refl a
  exact hnone.observed hnext

end Assembler.Records

/-!
## What routines start
-/

namespace Emit

variable (d : Draft) (a : Assembler)

theorem final_store (c : PoolConstant) : Assembly.final (Emit.store c d a) = a := by
  unfold Emit.store
  cases d.store c <;> rfl

theorem final_place (label : Label) : Assembly.final (Emit.place label d a) = a := by
  unfold Emit.place
  cases d.place label <;> rfl

theorem final_jump (target : Label) : Assembly.final (Emit.jump target d a) = a := by
  have hjump : (Emit.jump target).Yields d a () _ a :=
    yields_jump_iff.mpr ⟨d.place_mark rfl, rfl⟩
  rw [hjump]
  rfl

theorem final_jumpIfFalse (target : Label) : Assembly.final (Emit.jumpIfFalse target d a) = a := by
  have hjump : (Emit.jumpIfFalse target).Yields d a () _ a :=
    yields_jumpIfFalse_iff.mpr ⟨d.place_mark rfl, rfl⟩
  rw [hjump]
  rfl

theorem final_lift {α : Type} (step : Assembly α) :
    Assembly.final ((liftM step : Emit α) d a) = Assembly.final (step a) := by
  show Assembly.final (EStateM.bind step (fun x => EStateM.pure (x, d)) a) = _
  unfold EStateM.bind
  cases step a <;> rfl

end Emit

namespace Routine

def history : Routine -> Draft -> Assembler -> List ChunkAttempt
  | done, _, _ | fail _, _, _ => []
  | look next, d, a => (next d).history d a
  | find name next, d, a => (next (a.named? name)).history d a
  | instr i next, d, a => next.history (d.push (.instr i)) a
  | store c next, d, a => (Emit.store c).followed (fun outcome => (next outcome).history) d a
  | newLabel name next, d, a => (next (d.newLabel name).1).history (d.newLabel name).2 a
  | place label next, d, a =>
      (Emit.place label).followed (fun outcome => (next outcome).history) d a
  | jump target next, d, a =>
      (Emit.jump target).followed (fun outcome => (next outcome).history) d a
  | jumpIfFalse target next, d, a =>
      (Emit.jumpIfFalse target).followed (fun outcome => (next outcome).history) d a
  | function name arity body next, d, a =>
      Assembly.history (some name) (Assembly.functionDraft name arity) body.run body.history a ++
        Emit.followed (liftM (Assembly.addFunctionChunk name arity body.run))
          (fun outcome => (next outcome).history) d a

theorem records_history : ∀ (routine : Routine) (d : Draft) (a : Assembler),
    a.Records (routine.history d a) (Assembly.final (routine.run d a))
  | done, _, a => .refl a
  | fail _, _, a => .refl a
  | look next, d, a => (next d).records_history d a
  | find name next, d, a => (next (a.named? name)).records_history d a
  | instr i next, d, a => next.records_history (d.push (.instr i)) a
  | store c next, d, a =>
      .observed_alone (Emit.final_store d a c) fun outcome => (next outcome).records_history
  | newLabel name next, d, a =>
      (next (d.newLabel name).1).records_history (d.newLabel name).2 a
  | place label next, d, a =>
      .observed_alone (Emit.final_place d a label) fun outcome => (next outcome).records_history
  | jump target next, d, a =>
      .observed_alone (Emit.final_jump d a target) fun outcome => (next outcome).records_history
  | jumpIfFalse target next, d, a =>
      .observed_alone (Emit.final_jumpIfFalse d a target) fun outcome => (next outcome).records_history
  | function name arity body next, d, a => by
      have hstart : ∀ ref, (Assembly.functionDraft name arity ref).self = ref := fun _ => rfl
      have hchunk := Assembler.Records.fill (some name) hstart body.advances_run
        body.records_history a
      rw [← Assembly.addFunctionChunk_eq_fill, ← Emit.final_lift d] at hchunk
      exact hchunk.observed fun outcome => (next outcome).records_history

theorem name_of_history : ∀ (routine : Routine) (d : Draft) (a : Assembler),
    none ∉ (routine.history d a).map (·.name)
  | done, _, _ | fail _, _, _ => List.not_mem_nil
  | look next, d, a => (next d).name_of_history d a
  | find name next, d, a => (next (a.named? name)).name_of_history d a
  | instr i next, d, a => next.name_of_history (d.push (.instr i)) a
  | store _ next, d, a | place _ next, d, a | jump _ next, d, a | jumpIfFalse _ next, d, a =>
      Emit.followed_of_forall (P := fun new : List ChunkAttempt => none ∉ new.map (·.name))
        (fun outcome => (next outcome).name_of_history) d a
  | newLabel name next, d, a =>
      (next (d.newLabel name).1).name_of_history (d.newLabel name).2 a
  | function name arity body next, d, a => by
      rw [history, List.map_append, List.mem_append, not_or]
      constructor
      · unfold Assembly.history
        cases a.reserve (some name) with
        | error e => exact List.not_mem_nil
        | ok p => simpa using body.name_of_history (Assembly.functionDraft name arity p.1) p.2
      · exact Emit.followed_of_forall (P := fun new : List ChunkAttempt => none ∉ new.map (·.name))
          (fun outcome => (next outcome).name_of_history) d a

end Routine

/-!
## Calls from outside
-/

namespace BuildCall

theorem run_eq_fill : ∀ call : BuildCall,
    call.run = Assembly.fill call.name call.start call.body.run
  | main _ | named _ _ => rfl
  | function name arity body => Assembly.addFunctionChunk_eq_fill name arity body.run

def history (call : BuildCall) : Assembler -> List ChunkAttempt :=
  Assembly.history call.name call.start call.body.run call.body.history

theorem records_history (call : BuildCall) (a : Assembler) :
    a.Records (call.history a) (Assembly.final (call.run a)) := by
  rw [run_eq_fill]
  exact .fill call.name (fun ref => (call.extends_start ref).self) call.body.advances_run
    call.body.records_history a

end BuildCall

namespace Assembler

def history (a : Assembler) : List BuildCall -> List ChunkAttempt
  | [] => []
  | call :: rest => call.history a ++ (Assembly.final (call.run a)).history rest

theorem records_history (a : Assembler) (calls : List BuildCall) :
    a.Records (a.history calls) (a.built calls) := by
  induction calls generalizing a with
  | nil => exact .refl a
  | cons call rest ih => exact (call.records_history a).trans (ih _)

theorem history_append (a : Assembler) (before later : List BuildCall) :
    a.history (before ++ later) = a.history before ++ (a.built before).history later := by
  induction before generalizing a with
  | nil => rfl
  | cons call rest ih =>
      rw [List.cons_append, history, ih, history, List.append_assoc]
      rfl

theorem attempts_built (calls : List BuildCall) : (built {} calls).attempts = history {} calls :=
  records_history {} calls

theorem names_built (calls : List BuildCall) :
    (built {} calls).names = (history {} calls).map (·.name) := by
  rw [← attempts_built, map_name_attempts]

theorem size_built (calls : List BuildCall) :
    (built {} calls).entries.size = (history {} calls).length := by
  rw [← length_names, names_built, List.length_map]

theorem getElem?_history (calls : List BuildCall) {ref : ChunkRef} {name : Option String}
    {succeeded : Bool} :
    (history {} calls)[ref]? = some { name, succeeded } ↔
      ∃ draft, (built {} calls).entries[ref]? = some { name, draft } ∧ draft.isSome = succeeded ∧
        ∀ d, draft = some d -> d.self = ref ∧ d.name = name := by
  rw [← attempts_built, getElem?_attempts]
  constructor
  · rintro ⟨draft, hentry, hdraft⟩
    refine ⟨draft, hentry, hdraft, ?_⟩
    intro d hd
    have howned := (continues_built {} calls).owned ref _ (Nat.zero_le ref) hentry d hd
    exact ⟨howned.self, howned.name⟩
  · rintro ⟨draft, hentry, hdraft, _⟩
    exact ⟨draft, hentry, hdraft⟩

theorem exists_main_of_history {a : Assembler} {calls : List BuildCall}
    (h : none ∈ (a.history calls).map (·.name)) : ∃ call ∈ calls, call.name = none := by
  induction calls generalizing a with
  | nil => cases h
  | cons call rest ih =>
      rw [history, List.map_append, List.mem_append] at h
      rcases h with hfirst | hrest
      · refine ⟨call, List.mem_cons_self, ?_⟩
        unfold BuildCall.history Assembly.history at hfirst
        cases hreserve : a.reserve call.name with
        | error e =>
            rw [hreserve] at hfirst
            cases hfirst
        | ok p =>
            rw [hreserve] at hfirst
            rcases List.mem_cons.mp hfirst with hnone | hinside
            · exact hnone.symm
            · exact absurd hinside (call.body.name_of_history _ _)
      · rcases ih hrest with ⟨other, hother, hname⟩
        exact ⟨other, List.mem_cons_of_mem call hother, hname⟩

/-!
## The account
-/

theorem history_of_call {before : List BuildCall} {call : BuildCall} (later : List BuildCall)
    (h : call.name ∉ (history {} before).map (·.name)) :
    (history {} (before ++ call :: later))[(history {} before).length]? = some
        { name := call.name, succeeded := Assembly.succeeds (call.run (built {} before)) } ∧
      ∀ ref a', call.run (built {} before) = .ok ref a' -> ref = (history {} before).length := by
  rw [← names_built, ← (indexed_built before).handle?_eq_none_iff] at h
  rcases Assembly.history_of_free h call.start call.body.run call.body.history with
    ⟨⟨more, hmore⟩, hsize⟩
  rw [← call.run_eq_fill] at hmore hsize
  refine ⟨?_, fun ref a' hok => (hsize ref a' hok).trans (size_built before)⟩
  rw [history_append, List.getElem?_append_right (Nat.le_refl _), Nat.sub_self, history,
    BuildCall.history, hmore]
  rfl

theorem exists_first_main {calls : List BuildCall} {call : BuildCall} (hcall : call ∈ calls)
    (hname : call.name = none) :
    ∃ before body later, calls = before ++ .main body :: later ∧
      ∀ other, .main other ∉ before := by
  have hfound : (calls.find? (·.name.isNone)).isSome :=
    List.find?_isSome.mpr ⟨call, hcall, by rw [hname]; rfl⟩
  rcases Option.isSome_iff_exists.mp hfound with ⟨first, hfirst⟩
  rcases List.find?_eq_some_iff_append.mp hfirst with ⟨hnone, before, later, rfl, hbefore⟩
  cases first with
  | main body =>
      refine ⟨before, body, later, rfl, ?_⟩
      intro other hother
      have hnot := hbefore _ hother
      cases hnot
  | named name body => cases hnone
  | function name arity body => cases hnone

/-- The main chunk is the one that the first call for it started. -/
theorem main?_built_iff (calls : List BuildCall) (ref : ChunkRef) :
    (built {} calls).main? = some ref ↔
      ∃ before body later, calls = before ++ .main body :: later ∧
        (∀ other, .main other ∉ before) ∧ ref = (history {} before).length := by
  have hstarted : ∀ before body later, calls = before ++ .main body :: later ->
      (∀ other, .main other ∉ before) ->
      (built {} calls).names[(history {} before).length]? = some none := by
    rintro before body later rfl hfirst
    have hfree : BuildCall.name (.main body) ∉ (history {} before).map (·.name) := by
      intro hmem
      rcases exists_main_of_history hmem with ⟨call, hcall, hname⟩
      cases call with
      | main other => exact hfirst other hcall
      | named name other => cases hname
      | function name arity other => cases hname
    rw [names_built, List.getElem?_map, (history_of_call later hfree).1]
    rfl
  rw [show (built {} calls).main? = some ref ↔ _ from indexed_built calls none ref]
  constructor
  · intro hmain
    have hmem : none ∈ (history {} calls).map (·.name) := by
      rw [← names_built]
      exact List.mem_of_getElem? hmain
    rcases exists_main_of_history hmem with ⟨call, hcall, hname⟩
    rcases exists_first_main hcall hname with ⟨before, body, later, hcalls, hfirst⟩
    refine ⟨before, body, later, hcalls, hfirst, ?_⟩
    have hlt := (List.getElem?_eq_some_iff.mp hmain).1
    exact (List.getElem?_inj hlt (indexed_built calls).nodup_names).mp
      (hmain.trans (hstarted before body later hcalls hfirst).symm)
  · rintro ⟨before, body, later, hcalls, hfirst, rfl⟩
    exact hstarted before body later hcalls hfirst

/-- Only a program all of whose chunks are complete, one of them the main chunk,
can be finished. -/
theorem attempts_of_finalize {a : Assembler} {b : Bytecode} (h : a.finalize = .ok b) :
    (∃ ref, a.main? = some ref) ∧ ∀ attempt ∈ a.attempts, attempt.succeeded = true := by
  rcases exists_finished h with ⟨main, hmain, _, hfinished⟩
  refine ⟨⟨main, hmain⟩, ?_⟩
  intro attempt hattempt
  rcases List.getElem?_of_mem hattempt with ⟨ref, href⟩
  rcases getElem?_attempts.mp href with ⟨draft, hentry, hdraft⟩
  have hlt := (Array.getElem?_eq_some_iff.mp hentry).1
  rcases hfinished ⟨ref, hlt⟩ with ⟨d, _, hd, _⟩
  rw [draft?, hentry] at hd
  obtain rfl : draft = some d := hd
  exact hdraft.symm

/-- However chunks were called for, by fragments or by other routines, and
whatever failed on the way: the places of a program hold the chunks that were
started, each with its name, and a draft of its own if it was completed; a name
leads to the only chunk that was started under it, and the chunk without a name
is that of the first call for the main chunk; a call for a name that is taken
changes nothing; a call that fails later leaves its place empty and its name
taken for good; and only a program all of whose chunks were completed, one of
them the main chunk, can be finished. -/
theorem account_of_calls (calls : List BuildCall) :
    let a := built {} calls
    let attempts := history {} calls
    (∀ ref name succeeded, attempts[ref]? = some { name, succeeded } ↔
      ∃ draft, a.entries[ref]? = some { name, draft } ∧ draft.isSome = succeeded ∧
        ∀ d : Draft, draft = some d -> d.self = ref ∧ d.name = name) ∧
    ((attempts.map (·.name)).Nodup ∧
      (∀ name ref, a.named? name = some ref ↔
        (attempts.map (·.name))[ref]? = some (some name)) ∧
      (∀ ref, a.main? = some ref ↔ (attempts.map (·.name))[ref]? = some none) ∧
      ∀ ref, a.main? = some ref ↔
        ∃ before body later, calls = before ++ .main body :: later ∧
          (∀ other, .main other ∉ before) ∧ ref = (history {} before).length) ∧
    (∀ before (call : BuildCall), call.name ∈ (history {} before).map (·.name) ->
      call.run (built {} before) =
        .error (.duplicateChunk (call.name.getD mainName)) (built {} before)) ∧
    (∀ before call later, calls = before ++ call :: later ->
      call.name ∉ (history {} before).map (·.name) ->
        (∀ ref a', call.run (built {} before) = .ok ref a' ->
          ref = (history {} before).length ∧ ∃ d, a.draft? ref = some d) ∧
        ∀ e a', call.run (built {} before) = .error e a' ->
          a.entries[(history {} before).length]? = some { name := call.name, draft := none }) ∧
    ∀ b, a.finalize = .ok b ->
      (∃ ref, a.main? = some ref) ∧ ∀ attempt ∈ attempts, attempt.succeeded = true := by
  intro a attempts
  have hindexed : a.Indexed := indexed_built calls
  refine ⟨fun _ _ _ => getElem?_history calls, ⟨?_, ?_, ?_, main?_built_iff calls⟩, ?_, ?_, ?_⟩
  · rw [← names_built]
    exact hindexed.nodup_names
  · rw [← names_built]
    exact fun name => hindexed (some name)
  · rw [← names_built]
    exact hindexed none
  · intro before call htaken
    rw [← names_built] at htaken
    rw [call.run_eq_fill]
    apply Assembly.fill_of_taken
    rw [← Option.ne_none_iff_isSome, ne_eq, (indexed_built before).handle?_eq_none_iff]
    exact not_not_intro htaken
  · rintro before call later rfl hfree
    rcases history_of_call later hfree with ⟨hattempt, hsize⟩
    rcases (getElem?_history _).mp hattempt with ⟨draft, hentry, hdraft, _⟩
    constructor
    · intro ref a' hok
      obtain rfl := hsize ref a' hok
      rw [hok] at hdraft
      rcases Option.isSome_iff_exists.mp hdraft with ⟨d, rfl⟩
      refine ⟨rfl, d, ?_⟩
      rw [draft?, hentry]
      rfl
    · intro e a' herror
      rw [herror] at hdraft
      obtain rfl : draft = none := Option.not_isSome_iff_eq_none.mp (Bool.eq_false_iff.mp hdraft)
      exact hentry
  · intro b hb
    rw [show attempts = a.attempts from (attempts_built calls).symm]
    exact attempts_of_finalize hb

/-- A function that fails inside another one, which goes on without it, keeps its
name and its place; and nothing that is built later makes up for it. -/
theorem account_of_dropped_failure :
    let calls : List BuildCall :=
      [.function "f" 0 (.function "g" 1 (.fail (.labelNotPlaced "end")) fun _ => .done),
        .named "g" .done, .main .done, .main .done]
    (built {} calls).entries[1]? = some { name := some "g", draft := none } ∧
      (built {} calls).main? = some 2 ∧ ∀ b, (built {} calls).finalize ≠ .ok b := by
  intro calls
  have hattempts : history {} calls = [⟨some "f", true⟩, ⟨some "g", false⟩, ⟨none, true⟩] := by
    decide +kernel
  rcases account_of_calls calls with ⟨hplaces, ⟨_, _, hmain, _⟩, _, _, hfinal⟩
  rw [hattempts] at hplaces hmain hfinal
  refine ⟨?_, (hmain 2).mpr rfl, ?_⟩
  · rcases (hplaces 1 (some "g") false).mp rfl with ⟨draft, hentry, hdraft, _⟩
    obtain rfl : draft = none := Option.not_isSome_iff_eq_none.mp (Bool.eq_false_iff.mp hdraft)
    exact hentry
  · intro b hb
    exact absurd ((hfinal b hb).2 ⟨some "g", false⟩ (by simp)) Bool.false_ne_true

end Assembler
end StackScript
