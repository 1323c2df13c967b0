import StackScript.Bytecode.Fragment

/-!
# What emission does

Emission is a chain of steps on a draft and on the program around it.  This
module reads a successful chain back into its steps, says once what a single
step can be, and derives what every chain keeps: the constants, the directives
and the positions of labels that were there before it.
-/

namespace StackScript
namespace Emit

variable {α β : Type}

/-!
## Successful steps
-/

/-- The step succeeds with the result `x`, the draft `d'` and the program `a'`. -/
def Yields (step : Emit α) (d : Draft) (a : Assembler) (x : α) (d' : Draft)
    (a' : Assembler) : Prop :=
  step d a = .ok (x, d') a'

theorem yields_pure_iff {x y : α} {d d' : Draft} {a a' : Assembler} :
    Yields (pure x) d a y d' a' ↔ x = y ∧ d = d' ∧ a = a' := by
  show EStateM.Result.ok (x, d) a = .ok (y, d') a' ↔ _
  simp [and_assoc]

theorem yields_bind_iff {step : Emit α} {next : α -> Emit β} {d d'' : Draft}
    {a a'' : Assembler} {y : β} :
    Yields (step >>= next) d a y d'' a'' ↔
      ∃ x d' a', Yields step d a x d' a' ∧ Yields (next x) d' a' y d'' a'' := by
  unfold Yields
  show EStateM.bind (step d) (fun p => next p.1 p.2) a = _ ↔ _
  unfold EStateM.bind
  cases hstep : step d a with
  | ok p a1 =>
      rcases p with ⟨x, d1⟩
      simp only [EStateM.Result.ok.injEq, Prod.mk.injEq]
      constructor
      · intro h
        exact ⟨x, d1, a1, ⟨⟨rfl, rfl⟩, rfl⟩, h⟩
      · rintro ⟨_, _, _, ⟨⟨rfl, rfl⟩, rfl⟩, h⟩
        exact h
  | error e a1 => simp

theorem yields_push_iff {directive : Directive} {d d' : Draft} {a a' : Assembler} {u : Unit} :
    Yields (push directive) d a u d' a' ↔ d.push directive = d' ∧ a = a' := by
  show EStateM.Result.ok ((), d.push directive) a = .ok (u, d') a' ↔ _
  simp

theorem yields_store_iff {c : PoolConstant} {index : UInt8} {d d' : Draft} {a a' : Assembler} :
    Yields (store c) d a index d' a' ↔ d.store c = .ok (index, d') ∧ a = a' := by
  unfold Yields store
  cases hstore : d.store c with
  | ok p =>
      rcases p with ⟨i, d1⟩
      show EStateM.Result.ok (i, d1) a = .ok (index, d') a' ↔ _
      simp
  | error e =>
      show EStateM.Result.error e a = .ok (index, d') a' ↔ _
      simp

theorem yields_newLabel_iff {name : Option String} {label : Label} {d d' : Draft}
    {a a' : Assembler} :
    Yields (newLabel name) d a label d' a' ↔ d.newLabel name = (label, d') ∧ a = a' := by
  show EStateM.Result.ok (d.newLabel name) a = .ok (label, d') a' ↔ _
  simp

theorem yields_place_iff {label : Label} {d d' : Draft} {a a' : Assembler} {u : Unit} :
    Yields (place label) d a u d' a' ↔ d.place label = .ok d' ∧ a = a' := by
  unfold Yields place
  cases hplace : d.place label with
  | ok d1 =>
      show EStateM.Result.ok ((), d1) a = .ok (u, d') a' ↔ _
      simp
  | error e =>
      show EStateM.Result.error e a = .ok (u, d') a' ↔ _
      simp

section Cases

variable (d : Draft) (a : Assembler)

theorem store_cases (c : PoolConstant) :
    (∃ index d', d.store c = .ok (index, d') ∧ Yields (store c) d a index d' a) ∨
      ∃ e, store c d a = .error e a := by
  cases hstore : d.store c with
  | ok p => exact Or.inl ⟨p.1, p.2, rfl, yields_store_iff.mpr ⟨hstore, rfl⟩⟩
  | error e =>
      refine Or.inr ⟨e, ?_⟩
      unfold store
      rw [hstore]
      rfl

theorem place_cases (label : Label) :
    (∃ d', d.place label = .ok d' ∧ Yields (place label) d a () d' a) ∨
      ∃ e, place label d a = .error e a := by
  cases hplace : d.place label with
  | ok d' => exact Or.inl ⟨d', rfl, yields_place_iff.mpr ⟨hplace, rfl⟩⟩
  | error e =>
      refine Or.inr ⟨e, ?_⟩
      unfold place
      rw [hplace]
      rfl

end Cases

theorem yields_get_iff {d d' x : Draft} {a a' : Assembler} :
    Yields get d a x d' a' ↔ d = x ∧ d = d' ∧ a = a' := by
  show EStateM.Result.ok (d, d) a = .ok (x, d') a' ↔ _
  simp [and_assoc]

theorem yields_named?_iff {name : String} {x : Option ChunkRef} {d d' : Draft}
    {a a' : Assembler} :
    Yields (named? name) d a x d' a' ↔ a.named? name = x ∧ d = d' ∧ a = a' := by
  show EStateM.Result.ok (a.named? name, d) a = .ok (x, d') a' ↔ _
  simp [and_assoc]

theorem not_yields_throw {e : AssembleError} {x : α} {d d' : Draft} {a a' : Assembler} :
    ¬ Yields (throw e) d a x d' a' := by
  intro h
  change EStateM.Result.error e a = .ok (x, d') a' at h
  cases h

theorem yields_lift_iff {step : Assembly α} {x : α} {d d' : Draft} {a a' : Assembler} :
    Yields (liftM step) d a x d' a' ↔ step a = .ok x a' ∧ d = d' := by
  unfold Yields
  show EStateM.bind step (fun y => pure (y, d)) a = _ ↔ _
  unfold EStateM.bind
  cases hstep : step a with
  | ok y a1 =>
      show EStateM.Result.ok (y, d) a1 = .ok (x, d') a' ↔ _
      simp [and_right_comm]
  | error e a1 => simp

theorem yields_op_iff {opcode : Opcode} {d d' : Draft} {a a' : Assembler} {u : Unit} :
    Yields (op opcode) d a u d' a' ↔ d.push (.instr { opcode := opcode }) = d' ∧ a = a' :=
  yields_push_iff

theorem yields_pooled_iff {opcode : Opcode} {c : PoolConstant} {d d' : Draft}
    {a a' : Assembler} {u : Unit} :
    Yields (pooled opcode c) d a u d' a' ↔
      ∃ index d1, d.store c = .ok (index, d1) ∧
        d1.push (.instr { opcode := opcode, argument := some index }) = d' ∧ a = a' := by
  unfold pooled
  simp only [yields_bind_iff, yields_store_iff, yields_push_iff]
  constructor
  · rintro ⟨index, d1, a1, ⟨hstore, rfl⟩, hpush, rfl⟩
    exact ⟨index, d1, hstore, hpush, rfl⟩
  · rintro ⟨index, d1, hstore, hpush, rfl⟩
    exact ⟨index, d1, a, ⟨hstore, rfl⟩, hpush, rfl⟩

/-- A jump makes a label for the place behind itself, and places it there. -/
theorem yields_jump_iff {target : Label} {d d' : Draft} {a a' : Assembler} {u : Unit} :
    Yields (jump target) d a u d' a' ↔
      ((d.newLabel none).2.push (.jump target d.labels.size)).place d.labels.size = .ok d' ∧
        a = a' := by
  unfold jump
  simp only [yields_bind_iff, yields_newLabel_iff, yields_push_iff, yields_place_iff]
  constructor
  · rintro ⟨here, d1, a1, ⟨hnew, rfl⟩, _, d2, a2, ⟨rfl, rfl⟩, hplace, rfl⟩
    cases hnew
    exact ⟨hplace, rfl⟩
  · rintro ⟨hplace, rfl⟩
    exact ⟨_, _, a, ⟨rfl, rfl⟩, (), _, a, ⟨rfl, rfl⟩, hplace, rfl⟩

theorem yields_jumpIfFalse_iff {target : Label} {d d' : Draft} {a a' : Assembler} {u : Unit} :
    Yields (jumpIfFalse target) d a u d' a' ↔
      ((d.newLabel none).2.push (.jumpIfFalse target d.labels.size)).place d.labels.size = .ok d' ∧
        a = a' := by
  unfold jumpIfFalse
  simp only [yields_bind_iff, yields_newLabel_iff, yields_push_iff, yields_place_iff]
  constructor
  · rintro ⟨here, d1, a1, ⟨hnew, rfl⟩, _, d2, a2, ⟨rfl, rfl⟩, hplace, rfl⟩
    cases hnew
    exact ⟨hplace, rfl⟩
  · rintro ⟨hplace, rfl⟩
    exact ⟨_, _, a, ⟨rfl, rfl⟩, (), _, a, ⟨rfl, rfl⟩, hplace, rfl⟩

end Emit

/-!
## Effects on a draft
-/

namespace Draft

def positionOf (d : Draft) (label : Label) : Option Nat :=
  d.labels[label]?.bind (·.position)

theorem labelPosition_eq_ok_iff {d : Draft} {label : Label} {position : Nat} :
    d.labelPosition label = .ok position ↔ d.positionOf label = some position := by
  unfold labelPosition positionOf
  cases d.labels[label]?.bind (·.position) <;> simp

end Draft

namespace Pool

/-- The pool has no more constants than a byte can count, and the indices that it
keeps are those of its constants. -/
structure Fits (pool : Pool) : Prop where
  count : pool.constants.length ≤ maxConstants
  indexed : ∀ c (index : UInt8),
    pool.indices.lookup c = some index ↔ pool.constants[index.toNat]? = some c

namespace Fits

variable {pool : Pool} {c : PoolConstant}

theorem empty : ({} : Pool).Fits where
  count := Nat.zero_le _
  indexed := by simp

theorem toNat_ofNat {index : Nat} (h : index ≤ maxConstants) :
    (UInt8.ofNat index).toNat = index :=
  UInt8.toNat_ofNat_of_lt (Nat.lt_of_le_of_lt h (by decide))

theorem lookup_eq_none_iff (h : pool.Fits) :
    pool.indices.lookup c = none ↔ c ∉ pool.constants := by
  constructor
  · intro hnone hmem
    rcases List.getElem?_of_mem hmem with ⟨index, hindex⟩
    have hlt : index < pool.constants.length := (List.getElem?_eq_some_iff.mp hindex).1
    rw [← toNat_ofNat (Nat.le_trans (Nat.le_of_lt hlt) h.count), ← h.indexed, hnone] at hindex
    cases hindex
  · intro hnew
    cases hlookup : pool.indices.lookup c with
    | none => rfl
    | some index =>
        exact absurd (List.mem_of_getElem? ((h.indexed c index).mp hlookup)) hnew

theorem push (h : pool.Fits) (hnew : c ∉ pool.constants)
    (hroom : pool.constants.length < maxConstants) :
    Pool.Fits { constants := pool.constants ++ [c]
                indices := (c, UInt8.ofNat pool.constants.length) :: pool.indices } where
  count := by
    rw [List.length_append]
    exact hroom
  indexed := by
    intro k index
    have hlast := toNat_ofNat (Nat.le_of_lt hroom)
    by_cases hindex : index.toNat = pool.constants.length
    · have hsame : UInt8.ofNat pool.constants.length = index := by
        rw [← hindex, UInt8.ofNat_toNat]
      have hfree : pool.indices.lookup k ≠ some index := by
        rw [Ne, h.indexed, hindex]
        simp
      by_cases hk : k = c
      · simp [hk, hindex, hsame]
      · simp [List.lookup_cons, hindex, hfree, beq_false_of_ne hk, Ne.symm hk]
    · have hother : UInt8.ofNat pool.constants.length ≠ index := by
        intro heq
        rw [← heq, hlast] at hindex
        exact hindex rfl
      have hkept : (pool.constants ++ [c])[index.toNat]? = some k ↔
          pool.constants[index.toNat]? = some k := by
        rw [List.getElem?_append]
        split
        · rfl
        · next hge =>
            have hbehind : [c].length ≤ index.toNat - pool.constants.length := by
              rw [List.length_singleton]
              omega
            rw [List.getElem?_eq_none hbehind, List.getElem?_eq_none (Nat.le_of_not_lt hge)]
      rw [hkept]
      by_cases hk : k = c
      · have habsent : pool.constants[index.toNat]? ≠ some c :=
          fun hget => hnew (List.mem_of_getElem? hget)
        simp [hk, hother, habsent]
      · rw [List.lookup_cons, beq_false_of_ne hk]
        exact h.indexed k index

end Fits

/-- The index of a stored constant leads back to it, and a constant is added
only if it is new. -/
theorem store_eq_ok {pool pool' : Pool} {c : PoolConstant} {chunk : String} {index : UInt8}
    (hfits : pool.Fits) (h : pool.store c chunk = .ok index pool') :
    pool'.Fits ∧ pool'.constants[index.toNat]? = some c ∧
      (c ∈ pool.constants ∧ pool' = pool ∨
        c ∉ pool.constants ∧ pool'.constants = pool.constants ++ [c]) := by
  unfold store at h
  cases hlookup : pool.indices.lookup c with
  | some i =>
      rw [hlookup] at h
      cases h
      have hget := (hfits.indexed c index).mp hlookup
      exact ⟨hfits, hget, Or.inl ⟨List.mem_of_getElem? hget, rfl⟩⟩
  | none =>
      rw [hlookup] at h
      have hnew := hfits.lookup_eq_none_iff.mp hlookup
      by_cases hroom : pool.constants.length < maxConstants
      · simp only [hroom, if_true] at h
        cases h
        refine ⟨hfits.push hnew hroom, ?_, Or.inr ⟨hnew, rfl⟩⟩
        rw [Fits.toNat_ofNat (Nat.le_of_lt hroom)]
        simp
      · simp [hroom] at h

end Pool

namespace Draft

/-- One draft is a later state of another: what was stored, added or placed is
still there. -/
structure Extends (d d' : Draft) : Prop where
  name : d'.name = d.name
  self : d'.self = d.self
  fits : d.pool.Fits -> d'.pool.Fits
  constants : d.pool.Fits -> d.pool.constants <+: d'.pool.constants
  directives : d.directives.toList <+: d'.directives.toList
  placed : ∀ label position, d.positionOf label = some position ->
    d'.positionOf label = some position

theorem Extends.refl (d : Draft) : d.Extends d where
  name := rfl
  self := rfl
  fits := id
  constants := fun _ => List.prefix_rfl
  directives := List.prefix_rfl
  placed := fun _ _ h => h

theorem Extends.trans {d d' d'' : Draft} (h : d.Extends d') (h' : d'.Extends d'') :
    d.Extends d'' where
  name := h'.name.trans h.name
  self := h'.self.trans h.self
  fits := fun hfits => h'.fits (h.fits hfits)
  constants := fun hfits => (h.constants hfits).trans (h'.constants (h.fits hfits))
  directives := h.directives.trans h'.directives
  placed := fun label position hpos => h'.placed label position (h.placed label position hpos)

theorem extends_push (d : Draft) (directive : Directive) : d.Extends (d.push directive) where
  name := rfl
  self := rfl
  fits := id
  constants := fun _ => List.prefix_rfl
  directives := by
    show d.directives.toList <+: (d.directives.push directive).toList
    rw [Array.toList_push]
    exact List.prefix_append _ _
  placed := fun _ _ h => h

theorem store_eq_ok {d d' : Draft} {c : PoolConstant} {index : UInt8}
    (h : d.store c = .ok (index, d')) :
    d.pool.store c d.displayName = .ok index d'.pool ∧ d' = { d with pool := d'.pool } := by
  unfold store at h
  cases hstore : d.pool.store c d.displayName with
  | ok i pool =>
      rw [hstore] at h
      cases h
      exact ⟨rfl, rfl⟩
  | error e pool =>
      rw [hstore] at h
      cases h

theorem extends_store {d d' : Draft} {c : PoolConstant} {index : UInt8}
    (h : d.store c = .ok (index, d')) : d.Extends d' := by
  rcases store_eq_ok h with ⟨hpool, hrest⟩
  have hkeep := fun hfits => Pool.store_eq_ok hfits hpool
  rw [hrest]
  constructor
  case name => rfl
  case self => rfl
  case fits => exact fun hfits => (hkeep hfits).1
  case directives => exact List.prefix_rfl
  case placed => exact fun _ _ hpos => hpos
  case constants =>
    intro hfits
    rcases (hkeep hfits).2.2 with ⟨_, hsame⟩ | ⟨_, hadded⟩
    · exact hsame ▸ List.prefix_rfl
    · show d.pool.constants <+: d'.pool.constants
      rw [hadded]
      exact List.prefix_append _ _

theorem extends_newLabel (d : Draft) (name : Option String) :
    d.Extends (d.newLabel name).2 where
  name := rfl
  self := rfl
  fits := id
  constants := fun _ => List.prefix_rfl
  directives := List.prefix_rfl
  placed := by
    intro label position hpos
    unfold positionOf at hpos ⊢
    rcases Option.bind_eq_some_iff.mp hpos with ⟨entry, hentry, hposition⟩
    have hlt : label < d.labels.size := (Array.getElem?_eq_some_iff.mp hentry).1
    show (d.labels.push _)[label]?.bind _ = _
    rw [Array.getElem?_push_lt hlt, ← Array.getElem?_eq_getElem hlt, hentry]
    exact hposition

theorem extends_of_newLabel {d d' : Draft} {name : Option String} {label : Label}
    (h : d.newLabel name = (label, d')) : d.Extends d' := by
  have heq : (d.newLabel name).2 = d' := congrArg Prod.snd h
  rw [← heq]
  exact extends_newLabel d name

theorem place_eq_ok {d d' : Draft} {label : Label} (h : d.place label = .ok d') :
    d.positionOf label = none ∧ d'.positionOf label = some d.position ∧
      (∀ other, other ≠ label -> d'.positionOf other = d.positionOf other) ∧
      d' = { d with labels := d'.labels } := by
  unfold place at h
  cases hentry : d.labels[label]? with
  | none =>
      rw [hentry] at h
      cases h
  | some entry =>
      rw [hentry] at h
      cases hpos : entry.position with
      | some first =>
          simp [hpos] at h
      | none =>
          simp only [hpos] at h
          cases h
          have hlt : label < d.labels.size := (Array.getElem?_eq_some_iff.mp hentry).1
          refine ⟨?_, ?_, ?_, rfl⟩
          · simp [positionOf, hentry, hpos]
          · simp [positionOf, hlt]
          · intro other hne
            simp [positionOf, Ne.symm hne]

theorem extends_place {d d' : Draft} {label : Label} (h : d.place label = .ok d') :
    d.Extends d' := by
  rcases place_eq_ok h with ⟨hbefore, _, hothers, hrest⟩
  constructor
  case name => rw [hrest]
  case self => rw [hrest]
  case fits => rw [hrest]; exact id
  case constants => rw [hrest]; exact fun _ => List.prefix_rfl
  case directives =>
    have hsame : d'.directives = d.directives := by rw [hrest]
    exact hsame ▸ List.prefix_rfl
  case placed =>
    intro other position hpos
    have hne : other ≠ label := by
      intro heq
      rw [heq, hbefore] at hpos
      cases hpos
    rw [hothers other hne, hpos]

end Draft

/-!
## Chunks
-/

namespace Assembly

theorem addChunk_eq_ok_iff {name : Option String} {body : Emit Unit} {a a' : Assembler}
    {ref : ChunkRef} :
    addChunk name body a = .ok ref a' ↔
      ∃ a1 d a2, a.reserve name = .ok (ref, a1) ∧
        body.Yields { name := name, self := ref } a1 () d a2 ∧ a2.complete d = a' := by
  unfold addChunk Emit.Yields
  cases hreserve : a.reserve name with
  | error e => simp
  | ok p =>
      rcases p with ⟨chunk, a1⟩
      cases hbody : body { name := name, self := chunk } a1 with
      | error e a2 =>
          simp only [hbody]
          constructor
          · intro h
            cases h
          · rintro ⟨_, _, _, heq, hok, _⟩
            cases heq
            rw [hbody] at hok
            cases hok
      | ok q a2 =>
          rcases q with ⟨_, d⟩
          simp only [hbody]
          constructor
          · intro h
            cases h
            exact ⟨a1, d, a2, rfl, hbody, rfl⟩
          · rintro ⟨_, _, _, heq, hok, hdone⟩
            cases heq
            rw [hbody] at hok
            cases hok
            rw [hdone]

def functionDraft (name : String) (arity : UInt8) (ref : ChunkRef) : Draft where
  name := some name
  self := ref
  pool :=
    { constants := [.string name, .int (Int32.ofNat arity.toNat)]
      indices := [(.int (Int32.ofNat arity.toNat), 1), (.string name, 0)] }

theorem store_function_constants (name : String) (arity : UInt8) (ref : ChunkRef) :
    ∃ d, Draft.store { name := some name, self := ref } (.string name) = .ok (0, d) ∧
      d.store (.int (Int32.ofNat arity.toNat)) = .ok (1, functionDraft name arity ref) :=
  ⟨{ name := some name
     self := ref
     pool := { constants := [.string name], indices := [(.string name, 0)] } }, rfl, rfl⟩

theorem fits_functionDraft (name : String) (arity : UInt8) (ref : ChunkRef) :
    (functionDraft name arity ref).pool.Fits :=
  (Pool.Fits.empty.push (c := .string name) (by simp) (by decide)).push (by simp)
    (by decide : 1 < maxConstants)

theorem addFunctionChunk_eq_ok_iff {name : String} {arity : UInt8} {body : Emit Unit}
    {a a' : Assembler} {ref : ChunkRef} :
    addFunctionChunk name arity body a = .ok ref a' ↔
      ∃ a1 d a2, a.reserve (some name) = .ok (ref, a1) ∧
        body.Yields (functionDraft name arity ref) a1 () d a2 ∧ a2.complete d = a' := by
  unfold addFunctionChunk
  rw [addChunk_eq_ok_iff]
  rcases store_function_constants name arity ref with ⟨d0, hname, harity⟩
  simp only [Emit.yields_bind_iff, Emit.yields_store_iff, hname]
  constructor
  · rintro ⟨a1, d, a2, hreserve, ⟨_, _, _, ⟨hfirst, rfl⟩, _, _, _, ⟨hsecond, rfl⟩, hbody⟩, hdone⟩
    cases hfirst
    rw [harity] at hsecond
    cases hsecond
    exact ⟨a1, d, a2, hreserve, hbody, hdone⟩
  · rintro ⟨a1, d, a2, hreserve, hbody, hdone⟩
    exact ⟨a1, d, a2, hreserve, ⟨0, d0, a1, ⟨rfl, rfl⟩, 1, _, a1, ⟨harity, rfl⟩, hbody⟩, hdone⟩

end Assembly

/-!
## Chains of steps
-/

/-- A chain of steps that emission can be made of: adding a directive, storing
a constant, making a label, placing one, and building the chunk of a function
by a chain of its own. -/
inductive Actions : Draft -> Assembler -> Draft -> Assembler -> Prop where
  | done (d : Draft) (a : Assembler) : Actions d a d a
  | push {d d' : Draft} {a a' : Assembler} (directive : Directive)
      (next : Actions (d.push directive) a d' a') : Actions d a d' a'
  | store {d d1 d' : Draft} {a a' : Assembler} {c : PoolConstant} {index : UInt8}
      (step : d.store c = .ok (index, d1)) (next : Actions d1 a d' a') : Actions d a d' a'
  | label {d d' : Draft} {a a' : Assembler} (name : Option String)
      (next : Actions (d.newLabel name).2 a d' a') : Actions d a d' a'
  | place {d d1 d' : Draft} {a a' : Assembler} {label : Label}
      (step : d.place label = .ok d1) (next : Actions d1 a d' a') : Actions d a d' a'
  | chunk {d d1 d' : Draft} {a a1 a2 a' : Assembler} {name : String} {arity : UInt8}
      {ref : ChunkRef} (step : a.reserve (some name) = .ok (ref, a1))
      (body : Actions (Assembly.functionDraft name arity ref) a1 d1 a2)
      (next : Actions d (a2.complete d1) d' a') : Actions d a d' a'

namespace Actions

theorem trans {d d' d'' : Draft} {a a' a'' : Assembler} (h : Actions d a d' a')
    (h' : Actions d' a' d'' a'') : Actions d a d'' a'' := by
  induction h with
  | done => exact h'
  | push directive _ ih => exact .push directive (ih h')
  | store step _ ih => exact .store step (ih h')
  | label name _ ih => exact .label name (ih h')
  | place step _ ih => exact .place step (ih h')
  | chunk step body _ _ ih => exact .chunk step body (ih h')

theorem draft_extends {d d' : Draft} {a a' : Assembler} (h : Actions d a d' a') :
    d.Extends d' := by
  induction h with
  | done d => exact .refl d
  | push directive _ ih => exact (Draft.extends_push _ directive).trans ih
  | store step _ ih => exact (Draft.extends_store step).trans ih
  | label name _ ih => exact (Draft.extends_newLabel _ name).trans ih
  | place step _ ih => exact (Draft.extends_place step).trans ih
  | chunk _ _ _ _ ih => exact ih

/-!
Each building block of emission is a short chain.
-/

theorem of_pooled {opcode : Opcode} {c : PoolConstant} {d d' : Draft} {a a' : Assembler}
    (h : (Emit.pooled opcode c).Yields d a () d' a') : Actions d a d' a' := by
  rcases Emit.yields_pooled_iff.mp h with ⟨index, d1, hstore, rfl, rfl⟩
  exact .store hstore (.push _ (.done _ _))

theorem of_op {opcode : Opcode} {d d' : Draft} {a a' : Assembler}
    (h : (Emit.op opcode).Yields d a () d' a') : Actions d a d' a' := by
  rcases Emit.yields_op_iff.mp h with ⟨rfl, rfl⟩
  exact .push _ (.done _ _)

theorem of_place {label : Label} {d d' : Draft} {a a' : Assembler}
    (h : (Emit.place label).Yields d a () d' a') : Actions d a d' a' := by
  rcases Emit.yields_place_iff.mp h with ⟨hplace, rfl⟩
  exact .place hplace (.done _ _)

theorem of_newLabel {name : Option String} {label : Label} {d d' : Draft} {a a' : Assembler}
    (h : (Emit.newLabel name).Yields d a label d' a') : Actions d a d' a' := by
  rcases Emit.yields_newLabel_iff.mp h with ⟨hnew, rfl⟩
  cases hnew
  exact .label name (.done _ _)

theorem of_jump {target : Label} {d d' : Draft} {a a' : Assembler}
    (h : (Emit.jump target).Yields d a () d' a') : Actions d a d' a' := by
  rcases Emit.yields_jump_iff.mp h with ⟨hplace, rfl⟩
  exact .label none (.push _ (.place hplace (.done _ _)))

theorem of_jumpIfFalse {target : Label} {d d' : Draft} {a a' : Assembler}
    (h : (Emit.jumpIfFalse target).Yields d a () d' a') : Actions d a d' a' := by
  rcases Emit.yields_jumpIfFalse_iff.mp h with ⟨hplace, rfl⟩
  exact .label none (.push _ (.place hplace (.done _ _)))

end Actions

namespace Fragment

open Emit

mutual

theorem actions_of_emit : ∀ (f : Fragment) {d d' : Draft} {a a' : Assembler},
    f.emit.Yields d a () d' a' -> Actions d a d' a'
  | instr i, d, d', a, a', h => by
      rw [emit, yields_push_iff] at h
      rcases h with ⟨rfl, rfl⟩
      exact .push _ (.done _ _)
  | pooled opcode c, d, d', a, a', h => by
      rw [emit] at h
      exact .of_pooled h
  | store c, d, d', a, a', h => by
      simp only [emit, yields_bind_iff, yields_store_iff, yields_pure_iff] at h
      rcases h with ⟨index, d1, a1, ⟨hstore, rfl⟩, _, rfl, rfl⟩
      exact .store hstore (.done _ _)
  | self, d, d', a, a', h => by
      simp only [emit, yields_bind_iff, yields_get_iff] at h
      rcases h with ⟨_, _, _, ⟨rfl, rfl, rfl⟩, hpooled⟩
      exact .of_pooled hpooled
  | position, d, d', a, a', h => by
      simp only [emit, yields_bind_iff, yields_get_iff] at h
      rcases h with ⟨_, _, _, ⟨rfl, rfl, rfl⟩, hpooled⟩
      exact .of_pooled hpooled
  | functionOrNull name, d, d', a, a', h => by
      simp only [emit, yields_bind_iff, yields_named?_iff] at h
      rcases h with ⟨chunk?, _, _, ⟨hname, rfl, rfl⟩, hrest⟩
      cases chunk? with
      | some chunk => exact .of_pooled hrest
      | none => exact .of_op hrest
  | builtin name, d, d', a, a', h => by
      simp only [emit, yields_bind_iff, yields_named?_iff] at h
      rcases h with ⟨chunk?, _, _, ⟨hname, rfl, rfl⟩, hrest⟩
      cases chunk? with
      | some chunk => exact .of_pooled hrest
      | none => exact absurd hrest not_yields_throw
  | define name arity body, d, d', a, a', h => by
      simp only [emit, yields_bind_iff, yields_lift_iff,
        Assembly.addFunctionChunk_eq_ok_iff] at h
      rcases h with ⟨ref, _, _, ⟨⟨a1, d1, a2, hreserve, hbody, rfl⟩, rfl⟩, hpooled⟩
      exact .chunk hreserve (actions_of_emit body hbody) (.of_pooled hpooled)
  | label name, d, d', a, a', h => by
      simp only [emit, yields_bind_iff, yields_pure_iff] at h
      rcases h with ⟨_, _, _, hnew, _, rfl, rfl⟩
      exact .of_newLabel hnew
  | place mark, d, d', a, a', h => by
      rw [emit] at h
      exact .of_place h
  | jump target, d, d', a, a', h => by
      rw [emit] at h
      exact .of_jump h
  | jumpIfFalse target, d, d', a, a', h => by
      rw [emit] at h
      exact .of_jumpIfFalse h
  | sequence parts, d, d', a, a', h => by
      rw [emit] at h
      exact actions_of_emitAll parts h
  | call callee arguments, d, d', a, a', h => by
      rw [emit] at h
      by_cases hcount : arguments.length ≤ maxCount
      · simp only [hcount, if_true, yields_bind_iff, yields_push_iff] at h
        rcases h with ⟨_, _, _, hcallee, _, _, _, harguments, rfl, rfl⟩
        exact (actions_of_emit callee hcallee).trans
          ((actions_of_emitAll arguments harguments).trans (.push _ (.done _ _)))
      · simp only [hcount, if_false] at h
        exact absurd h not_yields_throw
  | both left right, d, d', a, a', h => by
      simp only [emit, yields_bind_iff] at h
      rcases h with ⟨after, _, _, hnew, _, _, _, hleft, _, _, _, hjump, _, _, _, hpop, _, _, _,
        hright, hplace⟩
      exact (Actions.of_newLabel hnew).trans ((actions_of_emit left hleft).trans
        ((Actions.of_jumpIfFalse hjump).trans ((Actions.of_op hpop).trans
          ((actions_of_emit right hright).trans (.of_place hplace)))))
  | either left right, d, d', a, a', h => by
      simp only [emit, yields_bind_iff] at h
      rcases h with ⟨rightSide, _, _, hnewRight, after, _, _, hnew, _, _, _, hleft, _, _, _,
        hjumpRight, _, _, _, hjump, _, _, _, hplaceRight, _, _, _, hpop, _, _, _, hright, hplace⟩
      exact (Actions.of_newLabel hnewRight).trans ((Actions.of_newLabel hnew).trans
        ((actions_of_emit left hleft).trans ((Actions.of_jumpIfFalse hjumpRight).trans
          ((Actions.of_jump hjump).trans ((Actions.of_place hplaceRight).trans
            ((Actions.of_op hpop).trans
              ((actions_of_emit right hright).trans (.of_place hplace))))))))
  | choose branches otherwise, d, d', a, a', h => by
      simp only [emit, yields_bind_iff] at h
      rcases h with ⟨after, _, _, hnew, _, _, _, hbranches, _, _, _, hotherwise, hplace⟩
      exact (Actions.of_newLabel hnew).trans
        ((actions_of_emitBranches after branches hbranches).trans
          ((actions_of_emit otherwise hotherwise).trans (.of_place hplace)))
  | loop condition body, d, d', a, a', h => by
      simp only [emit, yields_bind_iff] at h
      rcases h with ⟨before, _, _, hnewBefore, after, _, _, hnew, _, _, _, hplaceBefore, _, _, _,
        hcondition, _, _, _, hjump, _, _, _, hpop, _, _, _, hbody, _, _, _, hback, _, _, _,
        hplace, hlast⟩
      exact (Actions.of_newLabel hnewBefore).trans ((Actions.of_newLabel hnew).trans
        ((Actions.of_place hplaceBefore).trans ((actions_of_emit condition hcondition).trans
          ((Actions.of_jumpIfFalse hjump).trans ((Actions.of_op hpop).trans
            ((actions_of_emit body hbody).trans ((Actions.of_jump hback).trans
              ((Actions.of_place hplace).trans (.of_op hlast)))))))))

theorem actions_of_emitAll : ∀ (parts : List Fragment) {d d' : Draft} {a a' : Assembler},
    (emitAll parts).Yields d a () d' a' -> Actions d a d' a'
  | [], d, d', a, a', h => by
      rw [emitAll, yields_pure_iff] at h
      rcases h with ⟨_, rfl, rfl⟩
      exact .done _ _
  | part :: rest, d, d', a, a', h => by
      simp only [emitAll, yields_bind_iff] at h
      rcases h with ⟨_, _, _, hpart, hrest⟩
      exact (actions_of_emit part hpart).trans (actions_of_emitAll rest hrest)

theorem actions_of_emitBranches : ∀ (after : Label) (branches : List FragmentBranch)
    {d d' : Draft} {a a' : Assembler},
    (emitBranches after branches).Yields d a () d' a' -> Actions d a d' a'
  | _, [], d, d', a, a', h => by
      rw [emitBranches, yields_pure_iff] at h
      rcases h with ⟨_, rfl, rfl⟩
      exact .done _ _
  | after, { condition, body } :: rest, d, d', a, a', h => by
      simp only [emitBranches, yields_bind_iff] at h
      rcases h with ⟨next, _, _, hnew, _, _, _, hcondition, _, _, _, hjump, _, _, _, hpop, _, _, _,
        hbody, _, _, _, hout, _, _, _, hplace, _, _, _, hlast, hrest⟩
      exact (Actions.of_newLabel hnew).trans ((actions_of_emit condition hcondition).trans
        ((Actions.of_jumpIfFalse hjump).trans ((Actions.of_op hpop).trans
          ((actions_of_emit body hbody).trans ((Actions.of_jump hout).trans
            ((Actions.of_place hplace).trans ((Actions.of_op hlast).trans
              (actions_of_emitBranches after rest hrest))))))))

end

end Fragment
end StackScript
