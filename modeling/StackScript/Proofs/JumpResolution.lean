import Mathlib.Data.Nat.Dist
import StackScript.Proofs.EmissionLimits

/-!
# Labels and jumps

Labels are made, placed and jumped to in any order, and a step that fails leaves
the draft as it was.  Whatever the order, a label stays at the offset of the
directive that came next, and every jump gets the distance from behind itself to
the place of its target.  Code cannot be made only if it is too long or if a jump
has no target within its reach.
-/

namespace StackScript

theorem Instruction.isPrefix_drop_flatMap_encode {instructions : List Instruction} {offset : Nat}
    {i : Instruction} (h : ∀ i ∈ instructions, i.WellFormed)
    (hi : (offset, i) ∈ located byteLength 0 instructions) :
    i.encode <+: (instructions.flatMap encode).drop offset := by
  rcases mem_located_iff.mp hi with ⟨before, later, rfl, rfl⟩
  have hbefore : ∀ j ∈ before, j.WellFormed := fun j hj => h j (List.mem_append_left _ hj)
  rw [List.flatMap_append, List.flatMap_cons, Nat.zero_add, ← length_flatMap_encode hbefore,
    List.drop_left]
  exact List.prefix_append _ _

/-!
## Steps on a draft
-/

/-- A smallest step of emission, with an argument exactly where the opcode takes
one. -/
def Fragment.Basic : Fragment -> Prop
  | instr i => i.WellFormed
  | pooled opcode _ => opcode.argumentBytes = 1
  | store _ | label _ | place _ | jump _ | jumpIfFalse _ => True
  | _ => False

namespace Draft

/-- The draft behind a step in the program `a`.  A step that fails changes
nothing. -/
def attempt (a : Assembler) (d : Draft) (f : Fragment) : Draft :=
  match f.emit d a with
  | .ok (_, d') _ => d'
  | .error _ _ => d

def after (a : Assembler) (d : Draft) (steps : List Fragment) : Draft :=
  steps.foldl (attempt a) d

theorem after_append (a : Assembler) (d : Draft) (steps steps' : List Fragment) :
    d.after a (steps ++ steps') = (d.after a steps).after a steps' :=
  List.foldl_append

inductive Step (d : Draft) : Draft -> Prop where
  | fail : Step d d
  | instr {i : Instruction} (h : i.WellFormed) : Step d (d.push (.instr i))
  | store {d' : Draft} {c : PoolConstant} {index : UInt8} (h : d.store c = .ok (index, d')) :
      Step d d'
  | pooled {d' : Draft} {c : PoolConstant} {index : UInt8} {opcode : Opcode}
      (h : d.store c = .ok (index, d')) (hopcode : opcode.argumentBytes = 1) :
      Step d (d'.push (.instr { opcode := opcode, argument := some index }))
  | label (name : Option String) : Step d (d.newLabel name).2
  | place {d' : Draft} {label : Label} (h : d.place label = .ok d') : Step d d'
  | jump (target : Label) : Step d (d.mark (.jump target d.labels.size))
  | jumpIfFalse (target : Label) : Step d (d.mark (.jumpIfFalse target d.labels.size))

theorem attempt_of_yields {a a' : Assembler} {d d' : Draft} {f : Fragment}
    (h : f.emit.Yields d a () d' a') : d.attempt a f = d' := by
  unfold attempt
  rw [h]

theorem attempt_cases (a : Assembler) (d : Draft) (f : Fragment) :
    d.attempt a f = d ∨ ∃ d' a', f.emit.Yields d a () d' a' ∧ d.attempt a f = d' := by
  cases hrun : f.emit d a with
  | ok p a' =>
      rcases p with ⟨_, d'⟩
      exact Or.inr ⟨d', a', hrun, attempt_of_yields hrun⟩
  | error e a' =>
      apply Or.inl
      unfold attempt
      rw [hrun]

theorem step_attempt (a : Assembler) (d : Draft) {f : Fragment} (hf : f.Basic) :
    d.Step (d.attempt a f) := by
  rcases attempt_cases a d f with hsame | ⟨d', a', hyields, hnext⟩
  · rw [hsame]
    exact .fail
  · rw [hnext]
    cases f with
    | instr i =>
        rw [Fragment.emit, Emit.yields_push_iff] at hyields
        rw [← hyields.1]
        exact .instr hf
    | pooled opcode c =>
        rw [Fragment.emit, Emit.yields_pooled_iff] at hyields
        rcases hyields with ⟨index, d1, hstore, rfl, _⟩
        exact .pooled hstore hf
    | store c =>
        simp only [Fragment.emit, Emit.yields_bind_iff, Emit.yields_store_iff,
          Emit.yields_pure_iff] at hyields
        rcases hyields with ⟨index, d1, a1, ⟨hstore, _⟩, _, rfl, _⟩
        exact .store hstore
    | label name =>
        simp only [Fragment.emit, Emit.yields_bind_iff, Emit.yields_newLabel_iff,
          Emit.yields_pure_iff] at hyields
        rcases hyields with ⟨mark, d1, a1, ⟨hnew, _⟩, _, rfl, _⟩
        cases hnew
        exact .label name
    | place mark =>
        rw [Fragment.emit, Emit.yields_place_iff] at hyields
        exact .place hyields.1
    | jump target =>
        rw [Fragment.emit, Emit.yields_jump_iff, place_mark d rfl] at hyields
        cases hyields.1
        exact .jump target
    | jumpIfFalse target =>
        rw [Fragment.emit, Emit.yields_jumpIfFalse_iff, place_mark d rfl] at hyields
        cases hyields.1
        exact .jumpIfFalse target
    | _ => exact hf.elim

theorem extends_mark (d : Draft) (directive : Directive) : d.Extends (d.mark directive) where
  name := rfl
  self := rfl
  fits := id
  constants := fun _ => List.prefix_rfl
  directives := by
    rw [mark, Array.toList_push]
    exact List.prefix_append _ _
  placed := by
    intro label position h
    rw [positionOf_push (labels_mark d directive) (positionOf_lt h), h]

theorem Step.extends {d d' : Draft} (h : d.Step d') : d.Extends d' := by
  cases h with
  | fail => exact .refl d
  | instr _ => exact extends_push d _
  | store h => exact extends_store h
  | pooled h _ => exact (extends_store h).trans (extends_push _ _)
  | label name => exact extends_newLabel d name
  | place h => exact extends_place h
  | jump target => exact extends_mark d _
  | jumpIfFalse target => exact extends_mark d _

/-!
## Offsets of directives
-/

def locations (d : Draft) : List (Nat × Directive) :=
  located Directive.byteLength 0 d.directives.toList

/-- The offset at which the directive with a number starts, or the end of the
code. -/
def offset (d : Draft) (index : Nat) : Nat :=
  totalSize Directive.byteLength (d.directives.toList.take index)

/-- The directive at an offset is an instruction with the argument that it takes,
or a jump whose own label stands behind it. -/
def Sits (d : Draft) (offset : Nat) : Directive -> Prop
  | .instr i => i.WellFormed
  | .jump _ here | .jumpIfFalse _ here => d.positionOf here = some (offset + 2)

/-- Positions are the lengths of what was added. -/
structure Measured (d : Draft) : Prop where
  position : d.position = totalSize Directive.byteLength d.directives.toList
  directives : ∀ offset directive, (offset, directive) ∈ d.locations -> d.Sits offset directive

variable {d d' : Draft}

theorem Sits.mono {offset : Nat} {directive : Directive} (h : d.Sits offset directive)
    (hextends : d.Extends d') : d'.Sits offset directive := by
  cases directive with
  | instr i => exact h
  | jump target here => exact hextends.placed here _ h
  | jumpIfFalse target here => exact hextends.placed here _ h

namespace Measured

theorem start (name : Option String) (self : ChunkRef) : Measured { name, self } where
  position := rfl
  directives := nofun

theorem same (h : d.Measured) (hextends : d.Extends d') (hposition : d'.position = d.position)
    (hdirectives : d'.directives = d.directives) : d'.Measured where
  position := by
    rw [hposition, hdirectives]
    exact h.position
  directives := by
    rw [locations, hdirectives]
    exact fun offset directive hmem => (h.directives offset directive hmem).mono hextends

theorem added (h : d.Measured) (hextends : d.Extends d') {directive : Directive}
    (hposition : d'.position = d.position + directive.byteLength)
    (hdirectives : d'.directives = d.directives.push directive)
    (hsits : d'.Sits d.position directive) : d'.Measured where
  position := by
    rw [hposition, hdirectives, Array.toList_push, totalSize_append, h.position]
    rfl
  directives := by
    intro offset other hmem
    rw [locations, hdirectives, Array.toList_push, located_append, List.mem_append, Nat.zero_add,
      ← h.position] at hmem
    rcases hmem with hold | hnew
    · exact (h.directives offset other hold).mono hextends
    · cases List.mem_singleton.mp hnew
      exact hsits

theorem pushed (h : d.Measured) {i : Instruction} (hi : i.WellFormed) :
    (d.push (.instr i)).Measured :=
  h.added (extends_push d _) rfl rfl hi

theorem stored (h : d.Measured) {c : PoolConstant} {index : UInt8}
    (hstore : d.store c = .ok (index, d')) : d'.Measured := by
  have hrest := (store_eq_ok hstore).2
  apply h.same (extends_store hstore)
  · rw [hrest]
  · rw [hrest]

theorem marked (h : d.Measured) {directive : Directive} (hlength : directive.byteLength = 2)
    (hsits : (d.mark directive).Sits d.position directive) : (d.mark directive).Measured := by
  apply h.added (extends_mark d directive) _ rfl hsits
  rw [hlength]
  rfl

theorem step (h : d.Measured) (hstep : d.Step d') : d'.Measured := by
  cases hstep with
  | fail => exact h
  | instr hi => exact h.pushed hi
  | store hstore => exact h.stored hstore
  | pooled hstore hopcode =>
      apply (h.stored hstore).pushed
      simp [Instruction.WellFormed, hopcode]
  | label name => exact h.same (extends_newLabel d name) rfl rfl
  | place hplace =>
      have hrest := (place_eq_ok hplace).2.2.2
      apply h.same (extends_place hplace)
      · rw [hrest]
      · rw [hrest]
  | jump target => exact h.marked rfl (positionOf_new (labels_mark d _))
  | jumpIfFalse target => exact h.marked rfl (positionOf_new (labels_mark d _))

end Measured

theorem measured_after (a : Assembler) (h : d.Measured) {steps : List Fragment}
    (hsteps : ∀ f ∈ steps, f.Basic) :
    (d.after a steps).Measured ∧ d.Extends (d.after a steps) := by
  induction steps generalizing d with
  | nil => exact ⟨h, .refl d⟩
  | cons f rest ih =>
      rw [List.forall_mem_cons] at hsteps
      have hstep := step_attempt a d hsteps.1
      rcases ih (h.step hstep) hsteps.2 with ⟨hmeasured, hextends⟩
      exact ⟨hmeasured, hstep.extends.trans hextends⟩

theorem offset_of_extends (h : d.Measured) (hextends : d.Extends d') :
    d'.offset d.directives.size = d.position := by
  rcases hextends.directives with ⟨more, hmore⟩
  rw [offset, ← hmore, ← Array.length_toList, List.take_left, h.position]

/-!
## Resolved jumps
-/

/-- The instruction of the directive at an offset: itself, or a jump over the
distance from behind it to the place of its target. -/
def Leads (d : Draft) (offset : Nat) : Directive -> Instruction -> Prop
  | .instr j, i => i = j
  | .jump target _, i =>
      ∃ there distance, d.positionOf target = some there ∧ distance.toNat ≤ maxJump ∧
        (i = { opcode := .jumpForward, argument := some distance } ∧
            offset + 2 + distance.toNat = there ∨
          i = { opcode := .jumpBackward, argument := some distance } ∧
            there + distance.toNat = offset + 2)
  | .jumpIfFalse target _, i =>
      ∃ there distance, d.positionOf target = some there ∧ distance.toNat ≤ maxJump ∧
        i = { opcode := .jumpForwardIfFalse, argument := some distance } ∧
        offset + 2 + distance.toNat = there

def Misses (d : Draft) (offset : Nat) : Directive -> Prop
  | .instr _ => False
  | .jump target _ =>
      d.positionOf target = none ∨
        ∃ there, d.positionOf target = some there ∧ maxJump < Nat.dist there (offset + 2)
  | .jumpIfFalse target _ =>
      d.positionOf target = none ∨
        ∃ there, d.positionOf target = some there ∧
          (maxJump < Nat.dist there (offset + 2) ∨ there < offset + 2)

theorem jumpInstruction_cases (d : Draft) (opcode : Opcode) (target : Label) (distance : Nat) :
    (∃ byte, d.jumpInstruction opcode target distance =
        .ok { opcode := opcode, argument := some byte } ∧
      byte.toNat = distance ∧ distance ≤ maxJump) ∨
      (∃ e, d.jumpInstruction opcode target distance = .error e) ∧ maxJump < distance := by
  by_cases hreach : distance ≤ maxJump
  · exact Or.inl ⟨_, if_pos hreach, Item.toNat_distance hreach, hreach⟩
  · exact Or.inr ⟨⟨_, if_neg hreach⟩, Nat.not_le.mp hreach⟩

theorem labelPosition_of_none {label : Label} (h : d.positionOf label = none) :
    ∃ e, d.labelPosition label = .error e := by
  unfold positionOf at h
  unfold labelPosition
  rw [h]
  exact ⟨_, rfl⟩

section Placed

variable {offset there : Nat} {target here : Label}

theorem resolve_jump_of_placed (hhere : d.positionOf here = some (offset + 2))
    (hthere : d.positionOf target = some there) :
    d.resolve (.jump target here) =
      if offset + 2 < there then
        d.jumpInstruction .jumpForward target (there - (offset + 2))
      else
        d.jumpInstruction .jumpBackward target (offset + 2 - there) := by
  rw [resolve, labelPosition_eq_ok_iff.mpr hthere, labelPosition_eq_ok_iff.mpr hhere]
  rfl

theorem resolve_jumpIfFalse_of_placed (hhere : d.positionOf here = some (offset + 2))
    (hthere : d.positionOf target = some there) :
    d.resolve (.jumpIfFalse target here) =
      if there < offset + 2 then
        .error (.jumpNotForward (d.labelName target))
      else
        d.jumpInstruction .jumpForwardIfFalse target (there - (offset + 2)) := by
  rw [resolve, labelPosition_eq_ok_iff.mpr hthere, labelPosition_eq_ok_iff.mpr hhere]
  rfl

theorem misses_jump_iff (hthere : d.positionOf target = some there) :
    d.Misses offset (.jump target here) ↔ maxJump < Nat.dist there (offset + 2) := by
  simp [Misses, hthere]

theorem misses_jumpIfFalse_iff (hthere : d.positionOf target = some there) :
    d.Misses offset (.jumpIfFalse target here) ↔
      maxJump < Nat.dist there (offset + 2) ∨ there < offset + 2 := by
  simp [Misses, hthere]

end Placed

/-- How the directive at an offset is resolved: to an instruction that leads to
its target, or not at all if it misses that. -/
def Settles (d : Draft) (offset : Nat) (directive : Directive) : Prop :=
  (∃ i, d.resolve directive = .ok i ∧ d.Leads offset directive i ∧
      ¬ d.Misses offset directive) ∨
    (∃ e, d.resolve directive = .error e) ∧ d.Misses offset directive

theorem settles_jump {offset : Nat} {target here : Label}
    (hhere : d.positionOf here = some (offset + 2)) : d.Settles offset (.jump target here) := by
  cases hthere : d.positionOf target with
  | none =>
      rcases labelPosition_of_none hthere with ⟨e, he⟩
      refine Or.inr ⟨⟨e, ?_⟩, Or.inl hthere⟩
      rw [resolve, he]
      rfl
  | some there =>
      unfold Settles
      rw [resolve_jump_of_placed hhere hthere, misses_jump_iff hthere, Nat.dist]
      by_cases hforward : offset + 2 < there
      · rw [if_pos hforward]
        rcases jumpInstruction_cases d .jumpForward target (there - (offset + 2)) with
          ⟨byte, hok, hbyte, hreach⟩ | ⟨herror, hfar⟩
        · have hlands : offset + 2 + byte.toNat = there := by omega
          exact Or.inl ⟨_, hok, ⟨there, byte, hthere, hbyte ▸ hreach, Or.inl ⟨rfl, hlands⟩⟩,
            by omega⟩
        · exact Or.inr ⟨herror, by omega⟩
      · rw [if_neg hforward]
        rcases jumpInstruction_cases d .jumpBackward target (offset + 2 - there) with
          ⟨byte, hok, hbyte, hreach⟩ | ⟨herror, hfar⟩
        · have hlands : there + byte.toNat = offset + 2 := by omega
          exact Or.inl ⟨_, hok, ⟨there, byte, hthere, hbyte ▸ hreach, Or.inr ⟨rfl, hlands⟩⟩,
            by omega⟩
        · exact Or.inr ⟨herror, by omega⟩

theorem settles_jumpIfFalse {offset : Nat} {target here : Label}
    (hhere : d.positionOf here = some (offset + 2)) :
    d.Settles offset (.jumpIfFalse target here) := by
  cases hthere : d.positionOf target with
  | none =>
      rcases labelPosition_of_none hthere with ⟨e, he⟩
      refine Or.inr ⟨⟨e, ?_⟩, Or.inl hthere⟩
      rw [resolve, he]
      rfl
  | some there =>
      unfold Settles
      rw [resolve_jumpIfFalse_of_placed hhere hthere, misses_jumpIfFalse_iff hthere, Nat.dist]
      by_cases hbackward : there < offset + 2
      · rw [if_pos hbackward]
        exact Or.inr ⟨⟨_, rfl⟩, Or.inr hbackward⟩
      · rw [if_neg hbackward]
        rcases jumpInstruction_cases d .jumpForwardIfFalse target (there - (offset + 2)) with
          ⟨byte, hok, hbyte, hreach⟩ | ⟨herror, hfar⟩
        · have hlands : offset + 2 + byte.toNat = there := by omega
          exact Or.inl ⟨_, hok, ⟨there, byte, hthere, hbyte ▸ hreach, rfl, hlands⟩, by omega⟩
        · exact Or.inr ⟨herror, Or.inl (by omega)⟩

theorem settles_of_sits {offset : Nat} {directive : Directive} (h : d.Sits offset directive) :
    d.Settles offset directive := by
  cases directive with
  | instr i => exact Or.inl ⟨i, rfl, rfl, id⟩
  | jump target here => exact settles_jump h
  | jumpIfFalse target here => exact settles_jumpIfFalse h

/-- A resolved directive takes as many bytes as it was given room for. -/
theorem wellFormed_of_leads {offset : Nat} {directive : Directive} {i : Instruction}
    (hsits : d.Sits offset directive) (h : d.Leads offset directive i) :
    i.WellFormed ∧ i.byteLength = directive.byteLength := by
  cases directive with
  | instr j =>
      cases h
      exact ⟨hsits, rfl⟩
  | jump target here =>
      rcases h with ⟨there, byte, _, _, ⟨rfl, _⟩ | ⟨rfl, _⟩⟩
      · exact ⟨rfl, rfl⟩
      · exact ⟨rfl, rfl⟩
  | jumpIfFalse target here =>
      rcases h with ⟨there, byte, _, _, rfl, _⟩
      exact ⟨rfl, rfl⟩

/-!
## Resolved code
-/

theorem code_eq_ok_iff {code : List UInt8} :
    d.code = .ok code ↔
      d.position ≤ maxCodeLength ∧
        ∃ instructions,
          List.Forall₂ (fun directive i => d.resolve directive = .ok i)
            d.directives.toList instructions ∧
          code = instructions.flatMap Instruction.encode := by
  unfold Draft.code
  by_cases hlength : d.position ≤ maxCodeLength
  · rw [if_pos hlength]
    simp only [bind_eq_ok_iff, pure_eq_ok_iff, mapM_eq_ok_iff, hlength, true_and,
      eq_comm (a := code)]
  · rw [if_neg hlength]
    simp [hlength]

theorem leads_of_resolve {offset : Nat} {directive : Directive} {i : Instruction}
    (hsits : d.Sits offset directive) (hi : d.resolve directive = .ok i) :
    d.Leads offset directive i := by
  rcases settles_of_sits hsits with ⟨j, hj, hleads, _⟩ | ⟨⟨e, he⟩, _⟩
  · cases hi.symm.trans hj
    exact hleads
  · cases hi.symm.trans he

theorem misses_iff {offset : Nat} {directive : Directive} (hsits : d.Sits offset directive) :
    d.Misses offset directive ↔ ¬ ∃ i, d.resolve directive = .ok i := by
  rcases settles_of_sits hsits with ⟨i, hi, _, hhits⟩ | ⟨⟨e, he⟩, hmisses⟩
  · exact iff_of_false hhits fun hnone => hnone ⟨i, hi⟩
  · simp [he, hmisses]

theorem exists_location {directive : Directive} (h : directive ∈ d.directives.toList) :
    ∃ offset, (offset, directive) ∈ d.locations := by
  rcases List.append_of_mem h with ⟨before, later, hsplit⟩
  exact ⟨_, mem_located_iff.mpr ⟨before, later, hsplit, rfl⟩⟩

namespace Measured

theorem forall₂_resolved (h : d.Measured) {instructions : List Instruction}
    (hresolved : List.Forall₂ (fun directive i => d.resolve directive = .ok i)
      d.directives.toList instructions) :
    List.Forall₂
      (fun directive i => d.resolve directive = .ok i ∧ i.WellFormed ∧
        directive.byteLength = i.byteLength)
      d.directives.toList instructions := by
  have hsits : ∀ directive ∈ d.directives.toList, ∃ offset, d.Sits offset directive := by
    intro directive hmem
    rcases exists_location hmem with ⟨offset, hoffset⟩
    exact ⟨offset, h.directives offset directive hoffset⟩
  apply ((List.forall₂_and_left _ _).mpr ⟨hsits, hresolved⟩).imp
  intro directive i hpair
  rcases hpair with ⟨⟨offset, hsits⟩, hi⟩
  rcases wellFormed_of_leads hsits (leads_of_resolve hsits hi) with ⟨hi', hlength⟩
  exact ⟨hi, hi', hlength.symm⟩

/-- Code is as long as it was measured, and each directive is resolved at its
offset. -/
theorem code_eq_ok (h : d.Measured) {code : List UInt8} (hcode : d.code = .ok code) :
    code.length = d.position ∧
      ∀ offset directive, (offset, directive) ∈ d.locations ->
        ∃ i, d.Leads offset directive i ∧ i.encode <+: code.drop offset := by
  rcases code_eq_ok_iff.mp hcode with ⟨_, instructions, hresolved, rfl⟩
  have hpairs := h.forall₂_resolved hresolved
  have hwell : ∀ i ∈ instructions, i.WellFormed := by
    intro i hi
    rcases forall₂_mem_right hpairs hi with ⟨_, _, _, hwell, _⟩
    exact hwell
  constructor
  · rw [Instruction.length_flatMap_encode hwell, h.position]
    exact (forall₂_totalSize (fun _ _ hpair => hpair.2.2) hpairs).symm
  · intro offset directive hmem
    rcases forall₂_mem_left (forall₂_located (fun _ _ hpair => hpair.2.2) hpairs 0) hmem with
      ⟨⟨_, i⟩, hi, rfl, hresolve, _⟩
    exact ⟨i, leads_of_resolve (h.directives _ _ hmem) hresolve,
      Instruction.isPrefix_drop_flatMap_encode hwell hi⟩

/-- Code fails for its length, or for a jump that misses its target. -/
theorem code_eq_error_iff (h : d.Measured) :
    (∃ e, d.code = .error e) ↔
      maxCodeLength < d.position ∨
        ∃ offset directive, (offset, directive) ∈ d.locations ∧ d.Misses offset directive := by
  have hfails : (∃ e, d.code = .error e) ↔ ¬ ∃ code, d.code = .ok code := by
    cases d.code <;> simp
  have hresolved : (∀ directive ∈ d.directives.toList, ∃ i, d.resolve directive = .ok i) ↔
      ∀ offset directive, (offset, directive) ∈ d.locations -> ¬ d.Misses offset directive := by
    constructor
    · intro hall offset directive hmem
      rw [misses_iff (h.directives offset directive hmem), not_not]
      rcases mem_located_iff.mp hmem with ⟨before, later, hsplit, _⟩
      exact hall directive (by simp [hsplit])
    · intro hall directive hmem
      rcases exists_location hmem with ⟨offset, hoffset⟩
      have hhits := hall offset directive hoffset
      rwa [misses_iff (h.directives offset directive hoffset), not_not] at hhits
  have hok : (∃ code, d.code = .ok code) ↔
      d.position ≤ maxCodeLength ∧
        ∀ offset directive, (offset, directive) ∈ d.locations -> ¬ d.Misses offset directive := by
    rw [← hresolved, ← exists_forall₂_iff]
    simp [code_eq_ok_iff]
  rw [hfails, hok]
  simp [imp_iff_not_or]

end Measured

/-- A label that is placed among other steps has the offset of the directive that
is added next. -/
theorem positionOf_placed (a : Assembler) (h : d.Measured) {before later : List Fragment}
    {label : Label} (hsteps : ∀ f ∈ before ++ .place label :: later, f.Basic)
    (hplace : (d.after a before).place label = .ok d') :
    (d.after a (before ++ .place label :: later)).positionOf label =
      some ((d.after a (before ++ .place label :: later)).offset
        (d.after a before).directives.size) := by
  rw [List.forall_mem_append, List.forall_mem_cons] at hsteps
  rcases hsteps with ⟨hbefore, _, hlater⟩
  have hmeasured := (measured_after a h hbefore).1
  have hattempt : (d.after a before).attempt a (.place label) = d' := by
    apply attempt_of_yields
    rw [Fragment.emit, Emit.yields_place_iff]
    exact ⟨hplace, rfl⟩
  have hafter : d.after a (before ++ .place label :: later) = d'.after a later := by
    rw [after_append, ← hattempt]
    rfl
  have hextends := (measured_after a (hmeasured.step (.place hplace)) hlater).2
  rw [hafter, offset_of_extends hmeasured ((extends_place hplace).trans hextends)]
  exact hextends.placed label _ (place_eq_ok hplace).2.1

/-- Labels and jumps are resolved exactly, whatever the steps. -/
theorem jumps_resolved (a : Assembler) (name : Option String) (self : ChunkRef)
    (steps : List Fragment) (hsteps : ∀ f ∈ steps, f.Basic) :
    let start : Draft := { name, self }
    let d := start.after a steps
    d.position = totalSize Directive.byteLength d.directives.toList ∧
      (∀ before label later placed, steps = before ++ .place label :: later ->
        (start.after a before).place label = .ok placed ->
          d.positionOf label = some (d.offset (start.after a before).directives.size)) ∧
      (∀ before later label position, steps = before ++ later ->
        (start.after a before).positionOf label = some position ->
          d.positionOf label = some position) ∧
      (∀ code, d.code = .ok code ->
        code.length = d.position ∧
          ∀ offset directive, (offset, directive) ∈ d.locations ->
            ∃ i, d.Leads offset directive i ∧ i.encode <+: code.drop offset) ∧
      ((∃ e, d.code = .error e) ↔
        maxCodeLength < d.position ∨
          ∃ offset directive, (offset, directive) ∈ d.locations ∧
            d.Misses offset directive) := by
  intro start d
  have hstart : start.Measured := .start name self
  have hmeasured : d.Measured := (measured_after a hstart hsteps).1
  refine ⟨hmeasured.position, ?_, ?_, fun code => hmeasured.code_eq_ok,
    hmeasured.code_eq_error_iff⟩
  · intro before label later placed hsplit hplace
    subst hsplit
    exact positionOf_placed a hstart hsteps hplace
  · intro before later label position hsplit hposition
    subst hsplit
    rw [List.forall_mem_append] at hsteps
    have hbefore := (measured_after a hstart hsteps.1).1
    have hextends := (measured_after a hbefore hsteps.2).2
    rw [← after_append] at hextends
    exact hextends.placed label position hposition

def loopSteps : List Fragment :=
  [.label (some "top"), .place 0, .label (some "end"), .pooled .constant (.int 7),
    .jumpIfFalse 1, .instr { opcode := .pop }, .jump 0, .place 1, .place 1]

theorem jumps_resolved_loop :
    (∀ f ∈ loopSteps, f.Basic) ∧
      (after {} { name := none, self := 0 } loopSteps).code =
        .ok [Opcode.constant.byte, 0, Opcode.jumpForwardIfFalse.byte, 3, Opcode.pop.byte,
          Opcode.jumpBackward.byte, 7] ∧
      (after {} { name := none, self := 0 } loopSteps).position = 7 ∧
      (after {} { name := none, self := 0 } loopSteps).positionOf 1 =
        some ((after {} { name := none, self := 0 } loopSteps).offset 4) := by
  have hbasic : ∀ f ∈ loopSteps, f.Basic := by
    simp [loopSteps, Fragment.Basic, Instruction.WellFormed, Opcode.argumentBytes,
      Opcode.takesConstant]
  have hcode : (after {} { name := none, self := 0 } loopSteps).code =
      .ok [Opcode.constant.byte, 0, Opcode.jumpForwardIfFalse.byte, 3, Opcode.pop.byte,
        Opcode.jumpBackward.byte, 7] := by
    decide +kernel
  rcases jumps_resolved {} none 0 loopSteps hbasic with ⟨_, hplaced, _, hlength, _⟩
  exact ⟨hbasic, hcode, (hlength _ hcode).1.symm, hplaced (loopSteps.take 7) 1 [.place 1] _ rfl rfl⟩

end Draft
end StackScript
