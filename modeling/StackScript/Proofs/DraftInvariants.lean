import StackScript.Proofs.ChunkOrder
import StackScript.Proofs.JumpResolution

/-!
# What all drafts keep

Every draft of a program is filled by smallest steps alone, whatever the
routines behind it and whether or not some of their steps fail.  So a property that
an empty draft has and that no such step breaks is one of all drafts.  What it
takes of the instructions is a parameter.
-/

namespace StackScript

/-!
## Instructions with a property
-/

namespace Fragment

mutual

/-- Every instruction that the fragment names has the property. -/
def EmitsOnly (P : Instruction -> Prop) : Fragment -> Prop
  | instr i => P i
  | pooled opcode _ => ∀ index, P { opcode := opcode, argument := some index }
  | define _ _ body => body.EmitsOnly P
  | sequence parts => AllEmitOnly P parts
  | call callee arguments => callee.EmitsOnly P ∧ AllEmitOnly P arguments
  | both left right => left.EmitsOnly P ∧ right.EmitsOnly P
  | either left right => left.EmitsOnly P ∧ right.EmitsOnly P
  | choose branches otherwise => BranchesEmitOnly P branches ∧ otherwise.EmitsOnly P
  | loop condition body => condition.EmitsOnly P ∧ body.EmitsOnly P
  | _ => True

def AllEmitOnly (P : Instruction -> Prop) : List Fragment -> Prop
  | [] => True
  | part :: rest => part.EmitsOnly P ∧ AllEmitOnly P rest

def BranchesEmitOnly (P : Instruction -> Prop) : List FragmentBranch -> Prop
  | [] => True
  | { condition, body } :: rest =>
      condition.EmitsOnly P ∧ body.EmitsOnly P ∧ BranchesEmitOnly P rest

end

end Fragment

/-- Every instruction of the routine has the property, whatever comes out of the
steps before it. -/
def Routine.EmitsOnly (P : Instruction -> Prop) : Routine -> Prop
  | done | fail _ => True
  | look next => ∀ d, (next d).EmitsOnly P
  | find _ next => ∀ chunk?, (next chunk?).EmitsOnly P
  | instr i next => P i ∧ next.EmitsOnly P
  | store _ next => ∀ outcome, (next outcome).EmitsOnly P
  | newLabel _ next => ∀ label, (next label).EmitsOnly P
  | place _ next | jump _ next | jumpIfFalse _ next => ∀ outcome, (next outcome).EmitsOnly P
  | function _ _ body next => body.EmitsOnly P ∧ ∀ outcome, (next outcome).EmitsOnly P

section Instructions

-- What a fragment emits of its own accord is well-formed, so the properties that
-- are of use here are no stronger than that.
variable {P : Instruction -> Prop}

namespace Fragment

mutual

theorem emitsOnly_of_structured (hP : Instruction.WellFormed ≤ P) :
    ∀ (f : Fragment) {inFunction : Bool}, f.Structured inFunction -> f.EmitsOnly P
  | instr i, _, h => hP i h.1
  | pooled opcode c, _, h => by
      have htakes := takesConstant_of_serves h
      intro index
      apply hP
      cases opcode <;> first | rfl | cases htakes
  | define name arity body, _, h => emitsOnly_of_structured hP body h
  | sequence parts, _, h => allEmitOnly_of_structured hP parts h
  | call callee arguments, _, h =>
      ⟨emitsOnly_of_structured hP callee h.1, allEmitOnly_of_structured hP arguments h.2⟩
  | both left right, _, h =>
      ⟨emitsOnly_of_structured hP left h.1, emitsOnly_of_structured hP right h.2⟩
  | either left right, _, h =>
      ⟨emitsOnly_of_structured hP left h.1, emitsOnly_of_structured hP right h.2⟩
  | choose branches otherwise, _, h =>
      ⟨branchesEmitOnly_of_structured hP branches h.1, emitsOnly_of_structured hP otherwise h.2⟩
  | loop condition body, _, h =>
      ⟨emitsOnly_of_structured hP condition h.1, emitsOnly_of_structured hP body h.2⟩
  | store _, _, _ | self, _, _ | position, _, _ | functionOrNull _, _, _ | builtin _, _, _
  | label _, _, _ | place _, _, _ | jump _, _, _ | jumpIfFalse _, _, _ => trivial

theorem allEmitOnly_of_structured (hP : Instruction.WellFormed ≤ P) :
    ∀ (parts : List Fragment) {inFunction : Bool},
      AllStructured inFunction parts -> AllEmitOnly P parts
  | [], _, _ => trivial
  | part :: rest, _, h =>
      ⟨emitsOnly_of_structured hP part h.1, allEmitOnly_of_structured hP rest h.2⟩

theorem branchesEmitOnly_of_structured (hP : Instruction.WellFormed ≤ P) :
    ∀ (branches : List FragmentBranch) {inFunction : Bool},
      BranchesStructured inFunction branches -> BranchesEmitOnly P branches
  | [], _, _ => trivial
  | { condition, body } :: rest, _, h =>
      ⟨emitsOnly_of_structured hP condition h.1, emitsOnly_of_structured hP body h.2.1,
        branchesEmitOnly_of_structured hP rest h.2.2⟩

end

end Fragment

namespace Routine.EmitsOnly

variable {next : Routine}

theorem onSuccess {α : Type} {next : α -> Routine} (h : ∀ x, (next x).EmitsOnly P) :
    ∀ outcome, (Routine.onSuccess next outcome).EmitsOnly P
  | .ok x => h x
  | .error _ => trivial

theorem andThen (h : next.EmitsOnly P) : ∀ outcome, (Routine.andThen next outcome).EmitsOnly P :=
  onSuccess fun _ => h

theorem op (hP : Instruction.WellFormed ≤ P) {opcode : Opcode}
    (hopcode : opcode.argumentBytes = 0) (h : next.EmitsOnly P) :
    (Routine.op opcode next).EmitsOnly P :=
  ⟨hP _ (by simp [Instruction.WellFormed, hopcode]), h⟩

theorem constant (hP : Instruction.WellFormed ≤ P) (c : PoolConstant)
    (h : next.EmitsOnly P) : (Routine.pooled .constant c next).EmitsOnly P :=
  onSuccess fun _ => ⟨hP _ rfl, h⟩

end Routine.EmitsOnly

namespace Fragment

open Routine.EmitsOnly

mutual

theorem emitsOnly_routine (hP : Instruction.WellFormed ≤ P) : ∀ (f : Fragment) {next : Routine},
    f.EmitsOnly P -> next.EmitsOnly P -> (f.routine next).EmitsOnly P
  | instr i, _, hf, hnext => ⟨hf, hnext⟩
  | pooled opcode c, _, hf, hnext => onSuccess fun index => ⟨hf index, hnext⟩
  | store c, _, _, hnext => onSuccess fun _ => hnext
  | self, _, _, hnext => fun _ => .constant hP _ hnext
  | position, _, _, hnext => fun _ => .constant hP _ hnext
  | functionOrNull name, _, _, hnext => by
      intro chunk?
      cases chunk? with
      | some chunk => exact .constant hP _ hnext
      | none => exact .op hP rfl hnext
  | builtin name, _, _, hnext => by
      intro chunk?
      cases chunk? with
      | some chunk => exact .constant hP _ hnext
      | none => trivial
  | define name arity body, _, hf, hnext =>
      ⟨emitsOnly_routine hP body hf trivial, onSuccess fun _ => .constant hP _ hnext⟩
  | label name, _, _, hnext => fun _ => hnext
  | place mark, _, _, hnext => andThen hnext
  | jump target, _, _, hnext => andThen hnext
  | jumpIfFalse target, _, _, hnext => andThen hnext
  | sequence parts, _, hf, hnext => by
      rw [routine]
      exact emitsOnly_routineOfAll hP parts hf hnext
  | call callee arguments, _, hf, hnext => by
      rw [routine]
      by_cases hcount : arguments.length ≤ maxCount
      · rw [if_pos hcount]
        exact emitsOnly_routine hP callee hf.1
          (emitsOnly_routineOfAll hP arguments hf.2 ⟨hP _ rfl, hnext⟩)
      · rw [if_neg hcount]
        trivial
  | both left right, _, hf, hnext => by
      rw [routine]
      exact fun _ => emitsOnly_routine hP left hf.1 (andThen (.op hP rfl
        (emitsOnly_routine hP right hf.2 (andThen hnext))))
  | either left right, _, hf, hnext => by
      rw [routine]
      exact fun _ _ => emitsOnly_routine hP left hf.1 (andThen (andThen (andThen (.op hP rfl
        (emitsOnly_routine hP right hf.2 (andThen hnext))))))
  | choose branches otherwise, _, hf, hnext => by
      rw [routine]
      exact fun after => emitsOnly_routineOfBranches hP after branches hf.1
        (emitsOnly_routine hP otherwise hf.2 (andThen hnext))
  | loop condition body, _, hf, hnext => by
      rw [routine]
      exact fun _ _ => andThen (emitsOnly_routine hP condition hf.1 (andThen (.op hP rfl
        (emitsOnly_routine hP body hf.2 (andThen (andThen (.op hP rfl hnext)))))))

theorem emitsOnly_routineOfAll (hP : Instruction.WellFormed ≤ P) :
    ∀ (parts : List Fragment) {next : Routine}, AllEmitOnly P parts -> next.EmitsOnly P ->
      (routineOfAll parts next).EmitsOnly P
  | [], _, _, hnext => hnext
  | part :: rest, _, hparts, hnext => by
      rw [routineOfAll]
      exact emitsOnly_routine hP part hparts.1 (emitsOnly_routineOfAll hP rest hparts.2 hnext)

theorem emitsOnly_routineOfBranches (hP : Instruction.WellFormed ≤ P) :
    ∀ (after : Label) (branches : List FragmentBranch) {next : Routine},
      BranchesEmitOnly P branches -> next.EmitsOnly P ->
        (routineOfBranches after branches next).EmitsOnly P
  | _, [], _, _, hnext => hnext
  | after, { condition, body } :: rest, _, hbranches, hnext => by
      rw [routineOfBranches]
      exact fun _ => emitsOnly_routine hP condition hbranches.1 (andThen (.op hP rfl
        (emitsOnly_routine hP body hbranches.2.1 (andThen (andThen (.op hP rfl
          (emitsOnly_routineOfBranches hP after rest hbranches.2.2 hnext)))))))

end

end Fragment

end Instructions

/-!
## Steps that keep a property
-/

/-- An empty draft has the property, and neither a smallest step breaks it nor an
instruction of the given ones. -/
structure Draft.Kept (I : Instruction -> Prop) (P : Draft -> Prop) : Prop where
  start : ∀ name self, P { name, self }
  instr : ∀ d i, P d -> I i -> P (d.push (.instr i))
  step : ∀ d d', P d -> d.Step d' -> P d'

def Assembler.Every (P : Draft -> Prop) (a : Assembler) : Prop :=
  ∀ ref d, a.draft? ref = some d -> P d

namespace Assembler.Every

variable {P : Draft -> Prop} {a a' : Assembler}

theorem start : Every P {} := by
  intro ref d h
  cases h

theorem reserve {name : Option String} {ref : ChunkRef} (h : a.Every P)
    (hreserve : a.reserve name = .ok (ref, a')) : a'.Every P := by
  intro other d hd
  rcases reserve_eq_ok_iff.mp hreserve with ⟨_, _, rfl⟩
  apply h other d
  rw [draft?, entries_entered, Array.getElem?_push] at hd
  by_cases hlast : other = a.entries.size
  · rw [if_pos hlast] at hd
    cases hd
  · rw [if_neg hlast] at hd
    exact hd

theorem complete {d : Draft} (h : a.Every P) (hd : P d) : (a.complete d).Every P := by
  intro ref d' hd'
  rw [draft?, Assembler.complete, Array.getElem?_modify] at hd'
  by_cases hself : d.self = ref
  · rw [if_pos hself] at hd'
    cases hentry : a.entries[ref]? with
    | none =>
        rw [hentry] at hd'
        cases hd'
    | some entry =>
        rw [hentry] at hd'
        cases hd'
        exact hd
  · rw [if_neg hself] at hd'
    exact h ref d' hd'

end Assembler.Every

/-- The step keeps the property for all complete drafts, and for the one that it
works on unless it fails. -/
def Emit.Maintains {α : Type} (P : Draft -> Prop) (step : Emit α) : Prop :=
  ∀ d a, P d -> a.Every P ->
    match step d a with
    | .ok (_, d') a' => P d' ∧ a'.Every P
    | .error _ a' => a'.Every P

def Assembly.Maintains {α : Type} (P : Draft -> Prop) (step : Assembly α) : Prop :=
  ∀ a, a.Every P ->
    match step a with
    | .ok _ a' | .error _ a' => a'.Every P

theorem Assembly.Maintains.addChunk {I : Instruction -> Prop} {P : Draft -> Prop}
    {body : Emit Unit} (hP : Draft.Kept I P) (name : Option String) (hbody : body.Maintains P) :
    Maintains P (addChunk name body) := by
  intro a ha
  unfold Assembly.addChunk
  cases hreserve : a.reserve name with
  | error e => exact ha
  | ok p =>
      rcases p with ⟨ref, a1⟩
      have hrun := hbody { name, self := ref } a1 (hP.start name ref) (ha.reserve hreserve)
      simp only
      cases hemit : body { name, self := ref } a1 with
      | error e a2 =>
          rw [hemit] at hrun
          exact hrun
      | ok q a2 =>
          rcases q with ⟨_, d⟩
          rw [hemit] at hrun
          exact hrun.2.complete hrun.1

namespace Emit.Maintains

variable {α β : Type} {I : Instruction -> Prop} {P : Draft -> Prop}

theorem observed {step : Emit α} {next : Except AssembleError α -> Emit β} (h : Maintains P step)
    (hnext : ∀ outcome, Maintains P (next outcome)) : Maintains P (step.observed next) := by
  intro d a hd ha
  have hstep := h d a hd ha
  unfold Emit.observed Emit.followed
  cases hrun : step d a with
  | ok p a1 =>
      rcases p with ⟨x, d1⟩
      rw [hrun] at hstep
      exact hnext (.ok x) d1 a1 hstep.1 hstep.2
  | error e a1 =>
      rw [hrun] at hstep
      exact hnext (.error e) d a1 hd hstep

theorem throw (e : AssembleError) : Maintains P (throw e : Emit α) :=
  fun _ _ _ ha => ha

theorem bind {step : Emit α} {next : α -> Emit β} (h : Maintains P step)
    (hnext : ∀ x, Maintains P (next x)) : Maintains P (step >>= next) := by
  rw [bind_eq_observed]
  apply h.observed
  intro outcome
  cases outcome with
  | ok x => exact hnext x
  | error e => exact throw e

theorem lift {step : Assembly α} (h : step.Maintains P) : Maintains P (liftM step) := by
  intro d a hd ha
  have hstep := h a ha
  show match EStateM.bind step (fun x => EStateM.pure (x, d)) a with
    | .ok (_, d') a' => P d' ∧ a'.Every P
    | .error _ a' => a'.Every P
  unfold EStateM.bind
  cases hrun : step a with
  | error e a' =>
      rw [hrun] at hstep
      exact hstep
  | ok x a' =>
      rw [hrun] at hstep
      exact ⟨hd, hstep⟩

theorem of_step (hP : Draft.Kept I P) {step : Emit α}
    (h : ∀ d a, (∃ x d', step.Yields d a x d' a ∧ d.Step d') ∨ ∃ e, step d a = .error e a) :
    Maintains P step := by
  intro d a hd ha
  rcases h d a with ⟨x, d', hyields, hstep⟩ | ⟨e, he⟩
  · rw [hyields]
    exact ⟨hP.step d d' hd hstep, ha⟩
  · rw [he]
    exact ha

section Steps

variable (hP : Draft.Kept I P)

include hP

theorem pure (x : α) : Maintains P (pure x) :=
  of_step hP fun d _ => Or.inl ⟨x, d, rfl, .fail⟩

theorem get : Maintains P get :=
  of_step hP fun d _ => Or.inl ⟨d, d, rfl, .fail⟩

theorem named? (name : String) : Maintains P (named? name) :=
  of_step hP fun d a => Or.inl ⟨a.named? name, d, rfl, .fail⟩

theorem instr {i : Instruction} (hi : I i) : Maintains P (push (.instr i)) :=
  fun d _ hd ha => ⟨hP.instr d i hd hi, ha⟩

theorem newLabel (name : Option String) : Maintains P (newLabel name) :=
  of_step hP fun _ _ => Or.inl ⟨_, _, rfl, .label name⟩

theorem store (c : PoolConstant) : Maintains P (store c) := by
  apply of_step hP
  intro d a
  rcases store_cases d a c with ⟨index, d', hstore, hyields⟩ | hfails
  · exact Or.inl ⟨index, d', hyields, .store hstore⟩
  · exact Or.inr hfails

theorem place (label : Label) : Maintains P (place label) := by
  apply of_step hP
  intro d a
  rcases place_cases d a label with ⟨d', hplace, hyields⟩ | hfails
  · exact Or.inl ⟨(), d', hyields, .place hplace⟩
  · exact Or.inr hfails

theorem jump (target : Label) : Maintains P (jump target) :=
  of_step hP fun d _ => Or.inl
    ⟨(), _, yields_jump_iff.mpr ⟨d.place_mark rfl, rfl⟩, .jump target⟩

theorem jumpIfFalse (target : Label) : Maintains P (jumpIfFalse target) :=
  of_step hP fun d _ => Or.inl
    ⟨(), _, yields_jumpIfFalse_iff.mpr ⟨d.place_mark rfl, rfl⟩, .jumpIfFalse target⟩

theorem function {body : Emit Unit} (name : String) (arity : UInt8)
    (hbody : Maintains P body) :
    Assembly.Maintains P (Assembly.addFunctionChunk name arity body) :=
  .addChunk hP _ ((store hP _).bind fun _ => (store hP _).bind fun _ => hbody)

end Steps

end Emit.Maintains

section Runs

variable {I : Instruction -> Prop} {P : Draft -> Prop} (hP : Draft.Kept I P)

include hP

theorem Routine.maintains_run :
    ∀ routine : Routine, routine.EmitsOnly I -> routine.run.Maintains P
  | done, _ => .pure hP ()
  | fail e, _ => .throw e
  | look next, h => (Emit.Maintains.get hP).bind fun d => (next d).maintains_run (h d)
  | find name next, h =>
      (Emit.Maintains.named? hP name).bind fun chunk? => (next chunk?).maintains_run (h chunk?)
  | instr _ next, h => (Emit.Maintains.instr hP h.1).bind fun _ => next.maintains_run h.2
  | store c next, h =>
      (Emit.Maintains.store hP c).observed fun outcome => (next outcome).maintains_run (h outcome)
  | newLabel name next, h =>
      (Emit.Maintains.newLabel hP name).bind fun label => (next label).maintains_run (h label)
  | place label next, h =>
      (Emit.Maintains.place hP label).observed fun outcome =>
        (next outcome).maintains_run (h outcome)
  | jump target next, h =>
      (Emit.Maintains.jump hP target).observed fun outcome =>
        (next outcome).maintains_run (h outcome)
  | jumpIfFalse target next, h =>
      (Emit.Maintains.jumpIfFalse hP target).observed fun outcome =>
        (next outcome).maintains_run (h outcome)
  | function name arity body next, h =>
      (Emit.Maintains.lift (Emit.Maintains.function hP name arity
        (body.maintains_run h.1))).observed fun outcome =>
          (next outcome).maintains_run (h.2 outcome)

theorem BuildCall.maintains_run {call : BuildCall} (h : call.body.EmitsOnly I) :
    call.run.Maintains P := by
  have hbody := call.body.maintains_run hP h
  cases call with
  | main body => exact .addChunk hP _ hbody
  | named name body => exact .addChunk hP _ hbody
  | function name arity body => exact Emit.Maintains.function hP name arity hbody

/-- What an empty draft has and no step breaks holds of every draft, whatever the
calls and their outcomes. -/
theorem Assembler.every_built {a : Assembler} (ha : a.Every P) {calls : List BuildCall}
    (hcalls : ∀ call ∈ calls, call.body.EmitsOnly I) :
    (a.built calls).Every P := by
  induction calls generalizing a with
  | nil => exact ha
  | cons call rest ih =>
      rw [List.forall_mem_cons] at hcalls
      have hrun := call.maintains_run hP hcalls.1 a ha
      refine ih (a := Assembly.final (call.run a)) ?_ hcalls.2
      cases hresult : call.run a with
      | ok ref a' =>
          rw [hresult] at hrun
          exact hrun
      | error e a' =>
          rw [hresult] at hrun
          exact hrun

end Runs

/-!
## Sound drafts
-/

/-- The draft is measured, its constants can be counted, and its labels stand
between directives. -/
structure Draft.Sound (d : Draft) : Prop extends Draft.Measured d where
  fits : d.pool.Fits
  labels : ∀ label position, d.positionOf label = some position ->
    ∃ index, index ≤ d.directives.size ∧ position = d.offset index

namespace Draft

variable {d d' : Draft}

theorem offset_eq_of_extends (h : d.Extends d') {index : Nat} (hindex : index ≤ d.directives.size) :
    d'.offset index = d.offset index := by
  rcases h.directives with ⟨more, hmore⟩
  rw [offset, offset, ← hmore, List.take_append_of_le_length]
  exact hindex

theorem size_le_of_extends (h : d.Extends d') : d.directives.size ≤ d'.directives.size := by
  simpa using h.directives.length_le

theorem Measured.offset_size (h : d.Measured) : d.offset d.directives.size = d.position :=
  offset_of_extends h (.refl d)

theorem positionOf_of_push {entry : LabelEntry} (h : d'.labels = d.labels.push entry)
    {label : Label} {position : Nat} (hposition : d'.positionOf label = some position) :
    d.positionOf label = some position ∨ entry.position = some position := by
  by_cases hlabel : label = d.labels.size
  · rw [hlabel, positionOf_new h] at hposition
    exact Or.inr hposition
  · rw [positionOf_push h (lt_of_push h (positionOf_lt hposition) hlabel)] at hposition
    exact Or.inl hposition

/-- A step places a label where it starts or where it ends. -/
theorem Step.positionOf (h : d.Step d') {label : Label} {position : Nat}
    (hposition : d'.positionOf label = some position) :
    d.positionOf label = some position ∨ position = d.position ∨ position = d'.position := by
  cases h with
  | fail => exact Or.inl hposition
  | instr hi => exact Or.inl hposition
  | store hstore =>
      rw [(store_eq_ok hstore).2] at hposition
      exact Or.inl hposition
  | pooled hstore hopcode =>
      rw [(store_eq_ok hstore).2] at hposition
      exact Or.inl hposition
  | label name =>
      rcases positionOf_of_push rfl hposition with hold | hnew
      · exact Or.inl hold
      · cases hnew
  | @place _ mark hplace =>
      rcases place_eq_ok hplace with ⟨_, hhere, hothers, _⟩
      by_cases hlabel : label = mark
      · rw [hlabel, hhere] at hposition
        cases hposition
        exact Or.inr (Or.inl rfl)
      · rw [hothers label hlabel] at hposition
        exact Or.inl hposition
  | jump target =>
      rcases positionOf_of_push (labels_mark d _) hposition with hold | hnew
      · exact Or.inl hold
      · cases hnew
        exact Or.inr (Or.inr rfl)
  | jumpIfFalse target =>
      rcases positionOf_of_push (labels_mark d _) hposition with hold | hnew
      · exact Or.inl hold
      · cases hnew
        exact Or.inr (Or.inr rfl)

namespace Sound

theorem start (name : Option String) (self : ChunkRef) : Sound { name, self } where
  toMeasured := .start name self
  fits := .empty
  labels := by
    intro label position h
    cases h

theorem step (h : d.Sound) (hstep : d.Step d') : d'.Sound where
  toMeasured := h.toMeasured.step hstep
  fits := hstep.extends.fits h.fits
  labels := by
    intro label position hposition
    have hmeasured := h.toMeasured.step hstep
    have hsize := size_le_of_extends hstep.extends
    rcases hstep.positionOf hposition with hold | hbefore | hbehind
    · rcases h.labels label position hold with ⟨index, hindex, rfl⟩
      exact ⟨index, Nat.le_trans hindex hsize, (offset_eq_of_extends hstep.extends hindex).symm⟩
    · refine ⟨d.directives.size, hsize, ?_⟩
      rw [hbefore, offset_of_extends h.toMeasured hstep.extends]
    · exact ⟨d'.directives.size, Nat.le_refl _, hbehind.trans hmeasured.offset_size.symm⟩

theorem kept : Kept Instruction.WellFormed Sound where
  start := start
  instr _ _ h hi := h.step (.instr hi)
  step _ _ := step

end Sound

end Draft

end StackScript
