import StackScript.Proofs.WellFormedCode

/-!
# Why emission fails

The ways to misuse labels and chunks are closed to the fragments that programs
are made of: every label that they make is placed once, at or behind the jumps
forward to it, and every chunk that they name was started before.  So emission
ends early only at a limit, and what it leaves behind can be resolved.
-/

namespace StackScript

/-- The error is a limit of programs: of a size, of a distance, or of one chunk
for each name. -/
def AssembleError.IsLimit : AssembleError -> Prop
  | constantPoolFull _ _ | jumpOutOfRange _ _ | codeTooLong _ _ | duplicateChunk _
  | tooManyChunks _ => True
  | labelPlacedTwice _ _ _ | labelNotPlaced _ | argumentOutOfRange _ _ | jumpNotForward _
  | stringTooLong _ | missingMain | unknownChunk _ => False

/-!
## Drafts between two steps
-/

namespace Draft

/-- The directive can be resolved as soon as its target has a place. -/
def Aims (d : Draft) : Directive -> Prop
  | .instr _ => True
  | .jump target here => target < d.labels.size ∧ ∃ behind, d.positionOf here = some behind
  | .jumpIfFalse target here =>
      target < d.labels.size ∧ ∃ behind, d.positionOf here = some behind ∧
        ∀ there, d.positionOf target = some there -> behind ≤ there

end Draft

def PoolConstant.Within (chunks : Nat) : PoolConstant -> Prop
  | function ref => ref < chunks
  | int _ | string _ => True

/-- A draft in a program with so many chunks, with the labels that still have to
be placed and labels that are known to be there. -/
structure Draft.Consistent (opens known : List Label) (d : Draft) (chunks : Nat) : Prop where
  nodup : opens.Nodup
  unplaced : ∀ label ∈ opens, label < d.labels.size ∧ d.positionOf label = none
  placed : ∀ label, label < d.labels.size -> label ∉ opens -> ∃ p, d.positionOf label = some p
  known : ∀ label ∈ known, label < d.labels.size
  reached : ∀ label p, d.positionOf label = some p -> p ≤ d.position
  directives : ∀ directive ∈ d.directives.toList, d.Aims directive
  self : d.self < chunks
  constants : ∀ c ∈ d.pool.constants, c.Within chunks

namespace Draft

variable {opens known : List Label} {d d' : Draft} {chunks : Nat}

theorem positionOf_lt {label : Label} {p : Nat} (h : d.positionOf label = some p) :
    label < d.labels.size := by
  rcases Option.bind_eq_some_iff.mp h with ⟨entry, hentry, _⟩
  exact (Array.getElem?_eq_some_iff.mp hentry).1

theorem positionOf_push {entry : LabelEntry} (h : d'.labels = d.labels.push entry) {label : Label}
    (hlt : label < d.labels.size) : d'.positionOf label = d.positionOf label := by
  rw [positionOf, h, Array.getElem?_push_lt hlt, ← Array.getElem?_eq_getElem hlt, positionOf]

theorem positionOf_new {entry : LabelEntry} (h : d'.labels = d.labels.push entry) :
    d'.positionOf d.labels.size = entry.position := by
  rw [positionOf, h, Array.getElem?_push_size]
  rfl

theorem lt_of_push {entry : LabelEntry} (h : d'.labels = d.labels.push entry) {label : Label}
    (hlt : label < d'.labels.size) (hne : label ≠ d.labels.size) : label < d.labels.size := by
  rw [h, Array.size_push] at hlt
  exact Nat.lt_of_le_of_ne (Nat.le_of_lt_succ hlt) hne

theorem reached_of_push {entry : LabelEntry} (h : d'.labels = d.labels.push entry) {bound : Nat}
    (hold : ∀ label p, d.positionOf label = some p -> p ≤ bound)
    (hnew : ∀ p, entry.position = some p -> p ≤ bound) {label : Label} {p : Nat}
    (hp : d'.positionOf label = some p) : p ≤ bound := by
  by_cases hlabel : label = d.labels.size
  · rw [hlabel, positionOf_new h] at hp
    exact hnew p hp
  · rw [positionOf_push h (lt_of_push h (positionOf_lt hp) hlabel)] at hp
    exact hold label p hp

theorem Aims.of_push {directive : Directive} {entry : LabelEntry} (h : d.Aims directive)
    (hlabels : d'.labels = d.labels.push entry) : d'.Aims directive := by
  have hsize : d.labels.size ≤ d'.labels.size := by
    rw [hlabels, Array.size_push]
    exact Nat.le_succ _
  have hkept : ∀ {label p}, d.positionOf label = some p -> d'.positionOf label = some p :=
    fun hp => (positionOf_push hlabels (positionOf_lt hp)).trans hp
  cases directive with
  | instr i => trivial
  | jump target here =>
      rcases h with ⟨htarget, behind, hhere⟩
      exact ⟨Nat.lt_of_lt_of_le htarget hsize, behind, hkept hhere⟩
  | jumpIfFalse target here =>
      rcases h with ⟨htarget, behind, hhere, hforward⟩
      refine ⟨Nat.lt_of_lt_of_le htarget hsize, behind, hkept hhere, ?_⟩
      rw [positionOf_push hlabels htarget]
      exact hforward

theorem size_of_place {label : Label} (h : d.place label = .ok d') :
    d'.labels.size = d.labels.size := by
  unfold place at h
  split at h
  · cases h
  · split at h
    · cases h
    · cases h
      exact Array.size_setIfInBounds

/-- A target that is placed now is behind every jump so far. -/
theorem Aims.of_place {directive : Directive} {label : Label} (h : d.Aims directive)
    (hreached : ∀ label p, d.positionOf label = some p -> p ≤ d.position)
    (hplace : d.place label = .ok d') : d'.Aims directive := by
  have hsize := size_of_place hplace
  have hkept := (extends_place hplace).placed
  rcases place_eq_ok hplace with ⟨_, hnew, hothers, _⟩
  cases directive with
  | instr i => trivial
  | jump target here =>
      rcases h with ⟨htarget, behind, hhere⟩
      exact ⟨hsize ▸ htarget, behind, hkept here behind hhere⟩
  | jumpIfFalse target here =>
      rcases h with ⟨htarget, behind, hhere, hforward⟩
      refine ⟨hsize ▸ htarget, behind, hkept here behind hhere, ?_⟩
      intro there hthere
      by_cases hlabel : target = label
      · rw [hlabel, hnew] at hthere
        cases hthere
        exact hreached here behind hhere
      · rw [hothers target hlabel] at hthere
        exact hforward there hthere

def mark (d : Draft) (directive : Directive) : Draft :=
  { d with
    directives := d.directives.push directive
    position := d.position + 2
    labels := d.labels.push { name := none, position := some (d.position + 2) } }

theorem labels_mark (d : Draft) (directive : Directive) :
    (d.mark directive).labels =
      d.labels.push { name := none, position := some (d.position + 2) } := rfl

theorem place_mark (d : Draft) {directive : Directive} (h : directive.byteLength = 2) :
    ((d.newLabel none).2.push directive).place d.labels.size = .ok (d.mark directive) := by
  have hentry : ((d.newLabel none).2.push directive).labels[d.labels.size]?
      = some { name := none } := Array.getElem?_push_size
  have hset : (d.labels.push { name := none }).setIfInBounds d.labels.size
      { name := none, position := some (d.position + 2) } =
      d.labels.push { name := none, position := some (d.position + 2) } := by
    apply Array.ext_getElem?
    intro label
    by_cases hlabel : label = d.labels.size
    · simp [hlabel]
    · simp [Array.getElem?_push, hlabel, Ne.symm hlabel]
  rw [place, hentry]
  show Except.ok _ = _
  simp [mark, newLabel, push, h, hset]

theorem isLimit_of_store {c : PoolConstant} {e : AssembleError} (h : d.store c = .error e) :
    e.IsLimit := by
  unfold store Pool.store at h
  cases hlookup : d.pool.indices.lookup c with
  | some index =>
      rw [hlookup] at h
      cases h
  | none =>
      rw [hlookup] at h
      by_cases hroom : d.pool.constants.length < maxConstants
      · simp [hroom] at h
      · simp only [hroom, if_false] at h
        cases h
        trivial

namespace Consistent

theorem start {name : Option String} {self : ChunkRef} (h : self < chunks) :
    Consistent [] [] { name, self } chunks where
  nodup := List.nodup_nil
  unplaced := List.forall_mem_nil _
  placed := nofun
  known := List.forall_mem_nil _
  reached label _ hp := absurd (positionOf_lt hp) (Nat.not_lt_zero label)
  directives := List.forall_mem_nil _
  self := h
  constants := List.forall_mem_nil _

theorem mono {chunks' : Nat} (h : d.Consistent opens known chunks) (hle : chunks ≤ chunks') :
    d.Consistent opens known chunks' where
  nodup := h.nodup
  unplaced := h.unplaced
  placed := h.placed
  known := h.known
  reached := h.reached
  directives := h.directives
  self := Nat.lt_of_lt_of_le h.self hle
  constants := by
    intro c hc
    have hwithin := h.constants c hc
    cases c with
    | function ref => exact Nat.lt_of_lt_of_le hwithin hle
    | _ => trivial

theorem push (h : d.Consistent opens known chunks) (i : Instruction) :
    (d.push (.instr i)).Consistent opens known chunks where
  nodup := h.nodup
  unplaced := h.unplaced
  placed := h.placed
  known := h.known
  reached label p hp := Nat.le_trans (h.reached label p hp) (Nat.le_add_right _ _)
  directives := by
    intro directive hmem
    rw [Draft.push, Array.toList_push, List.mem_append, List.mem_singleton] at hmem
    rcases hmem with hmem | rfl
    · exact h.directives directive hmem
    · trivial
  self := h.self
  constants := h.constants

theorem store (h : d.Consistent opens known chunks) {c : PoolConstant} {index : UInt8}
    (hc : c.Within chunks) (hstore : d.store c = .ok (index, d')) :
    d'.Consistent opens known chunks := by
  rcases store_eq_ok hstore with ⟨hpool, hrest⟩
  have hconstants : ∀ k ∈ d'.pool.constants, k.Within chunks := by
    intro k hk
    rcases Pool.mem_of_store hpool hk with hold | rfl
    · exact h.constants k hold
    · exact hc
  rw [hrest]
  exact { h with constants := hconstants }

theorem newLabel (h : d.Consistent opens known chunks) (name : Option String) :
    (d.newLabel name).2.Consistent (d.labels.size :: opens) (d.labels.size :: known) chunks := by
  have hlabels : (d.newLabel name).2.labels = d.labels.push { name } := rfl
  have hsize : (d.newLabel name).2.labels.size = d.labels.size + 1 := Array.size_push _
  have hfresh : d.labels.size ∉ opens := fun hmem => Nat.lt_irrefl _ (h.unplaced _ hmem).1
  constructor
  case nodup => exact List.nodup_cons.mpr ⟨hfresh, h.nodup⟩
  case unplaced =>
    rw [List.forall_mem_cons, hsize]
    refine ⟨⟨Nat.lt_succ_self _, positionOf_new hlabels⟩, ?_⟩
    intro label hlabel
    rcases h.unplaced label hlabel with ⟨hlt, hnone⟩
    exact ⟨Nat.lt_succ_of_lt hlt, (positionOf_push hlabels hlt).trans hnone⟩
  case placed =>
    intro label hlt hlabel
    rw [List.mem_cons, not_or] at hlabel
    have hold := lt_of_push hlabels hlt hlabel.1
    rw [positionOf_push hlabels hold]
    exact h.placed label hold hlabel.2
  case known =>
    rw [List.forall_mem_cons, hsize]
    exact ⟨Nat.lt_succ_self _, fun label hlabel => Nat.lt_succ_of_lt (h.known label hlabel)⟩
  case reached =>
    intro label p
    exact reached_of_push hlabels h.reached nofun
  case directives =>
    intro directive hmem
    exact (h.directives directive hmem).of_push hlabels
  case self => exact h.self
  case constants => exact h.constants

theorem place_of_open (h : d.Consistent opens known chunks) {label : Label}
    (hlabel : label ∈ opens) : ∃ d', d.place label = .ok d' := by
  rcases h.unplaced label hlabel with ⟨hlt, hnone⟩
  have hentry : d.labels[label]? = some d.labels[label] := Array.getElem?_eq_getElem hlt
  rw [positionOf, hentry] at hnone
  change d.labels[label].position = none at hnone
  rw [Draft.place, hentry]
  simp only [hnone]
  exact ⟨_, rfl⟩

theorem place {before after : List Label} {label : Label}
    (h : d.Consistent (before ++ label :: after) known chunks) (hplace : d.place label = .ok d') :
    d'.Consistent (before ++ after) known chunks := by
  have hsize := size_of_place hplace
  have hperm : (before ++ label :: after).Perm (label :: (before ++ after)) :=
    List.perm_middle
  rcases place_eq_ok hplace with ⟨_, hnew, hothers, hrest⟩
  rcases List.nodup_cons.mp (hperm.nodup_iff.mp h.nodup) with ⟨hfresh, hnodup⟩
  have hposition : d'.position = d.position := by rw [hrest]
  have hdirectives : d'.directives = d.directives := by rw [hrest]
  constructor
  case nodup => exact hnodup
  case unplaced =>
    intro other hother
    have hne : other ≠ label := fun heq => hfresh (heq ▸ hother)
    rw [hsize, hothers other hne]
    exact h.unplaced other (hperm.mem_iff.mpr (List.mem_cons_of_mem _ hother))
  case placed =>
    intro other hlt hother
    by_cases hlabel : other = label
    · rw [hlabel]
      exact ⟨d.position, hnew⟩
    · rw [hothers other hlabel]
      rw [hsize] at hlt
      apply h.placed other hlt
      rw [hperm.mem_iff, List.mem_cons, not_or]
      exact ⟨hlabel, hother⟩
  case known =>
    rw [hsize]
    exact h.known
  case reached =>
    intro other p hp
    rw [hposition]
    by_cases hlabel : other = label
    · rw [hlabel, hnew] at hp
      cases hp
      exact Nat.le_refl _
    · rw [hothers other hlabel] at hp
      exact h.reached other p hp
  case directives =>
    intro directive hmem
    rw [hdirectives] at hmem
    exact (h.directives directive hmem).of_place h.reached hplace
  case self =>
    rw [hrest]
    exact h.self
  case constants =>
    rw [hrest]
    exact h.constants

theorem mark (h : d.Consistent opens known chunks) {directive : Directive}
    (haims : (d.mark directive).Aims directive) :
    (d.mark directive).Consistent opens known chunks := by
  have hlabels := d.labels_mark directive
  have hsize : (d.mark directive).labels.size = d.labels.size + 1 := Array.size_push _
  constructor
  case nodup => exact h.nodup
  case unplaced =>
    intro label hlabel
    rcases h.unplaced label hlabel with ⟨hlt, hnone⟩
    rw [hsize, positionOf_push hlabels hlt]
    exact ⟨Nat.lt_succ_of_lt hlt, hnone⟩
  case placed =>
    intro label hlt hlabel
    by_cases hlast : label = d.labels.size
    · rw [hlast]
      exact ⟨_, positionOf_new hlabels⟩
    · have hold := lt_of_push hlabels hlt hlast
      rw [positionOf_push hlabels hold]
      exact h.placed label hold hlabel
  case known =>
    intro label hlabel
    rw [hsize]
    exact Nat.lt_succ_of_lt (h.known label hlabel)
  case reached =>
    intro label p
    refine reached_of_push hlabels ?_ fun p hp => ?_
    · exact fun label p hp => Nat.le_trans (h.reached label p hp) (Nat.le_add_right _ _)
    · exact Nat.le_of_eq (Option.some.inj hp).symm
  case directives =>
    intro other hmem
    rw [Draft.mark, Array.toList_push, List.mem_append, List.mem_singleton] at hmem
    rcases hmem with hmem | rfl
    · exact (h.directives other hmem).of_push hlabels
    · exact haims
  case self => exact h.self
  case constants => exact h.constants

theorem jump (h : d.Consistent opens known chunks) {target : Label} (htarget : target ∈ known) :
    (d.mark (.jump target d.labels.size)).Consistent opens known chunks := by
  apply h.mark
  refine ⟨?_, _, positionOf_new (labels_mark d _)⟩
  exact Nat.lt_of_lt_of_le (h.known target htarget) (Array.size_push _ ▸ Nat.le_succ _)

theorem jumpIfFalse (h : d.Consistent opens known chunks) {target : Label}
    (htarget : target ∈ opens) :
    (d.mark (.jumpIfFalse target d.labels.size)).Consistent opens known chunks := by
  rcases h.unplaced target htarget with ⟨hlt, hnone⟩
  apply h.mark
  refine ⟨?_, _, positionOf_new (labels_mark d _), ?_⟩
  · exact Nat.lt_of_lt_of_le hlt (Array.size_push _ ▸ Nat.le_succ _)
  · intro there hthere
    rw [positionOf_push (labels_mark d _) hlt, hnone] at hthere
    cases hthere

end Consistent
end Draft

/-!
## Steps that end well or at a limit
-/

/-- The chunks with the given names are there, and every draft that is complete
can be resolved. -/
structure Assembler.Ready (names : List String) (a : Assembler) : Prop where
  indexed : a.Indexed
  named : ∀ name ∈ names, some name ∈ a.names
  drafts : ∀ entry ∈ a.entries.toList, ∀ d, entry.draft = some d ->
    d.Consistent [] [] a.entries.size

/-- From every program as in `P` the step leads to one as in `Q` with no fewer
chunks, or it ends at a limit. -/
def Assembly.Safe {α : Type} (step : Assembly α) (P : Assembler -> Prop)
    (Q : α -> Assembler -> Prop) : Prop :=
  ∀ a, P a ->
    match step a with
    | .ok x a' => Q x a' ∧ a.entries.size ≤ a'.entries.size
    | .error e _ => e.IsLimit

namespace Assembly.Safe

variable {α β : Type} {step : Assembly α} {next : α -> Assembly β} {P P' : Assembler -> Prop}
  {Q Q' : α -> Assembler -> Prop} {R : β -> Assembler -> Prop}

theorem imp (h : Safe step P Q) (hP : ∀ a, P' a -> P a) (hQ : ∀ x a, Q x a -> Q' x a) :
    Safe step P' Q' := by
  intro a ha
  have hstep := h a (hP a ha)
  cases hrun : step a with
  | ok x a' =>
      rw [hrun] at hstep
      exact ⟨hQ x a' hstep.1, hstep.2⟩
  | error e a' =>
      rw [hrun] at hstep
      exact hstep

theorem bind (h : Safe step P Q) (hnext : ∀ x, Safe (next x) (Q x) R) :
    Safe (step >>= next) P R := by
  intro a ha
  have hstep := h a ha
  show match EStateM.bind step next a with
    | .ok y a' => R y a' ∧ a.entries.size ≤ a'.entries.size
    | .error e _ => e.IsLimit
  unfold EStateM.bind
  cases hrun : step a with
  | error e a1 =>
      rw [hrun] at hstep
      exact hstep
  | ok x a1 =>
      rw [hrun] at hstep
      rcases hstep with ⟨hx, hsize⟩
      have hrest := hnext x a1 hx
      cases hlast : next x a1 with
      | error e a2 =>
          rw [hlast] at hrest
          simp only [hlast]
          exact hrest
      | ok y a2 =>
          rw [hlast] at hrest
          simp only [hlast]
          exact ⟨hrest.1, Nat.le_trans hsize hrest.2⟩

end Assembly.Safe

structure Drafting (names : List String) (opens known : List Label) (d : Draft) (a : Assembler) :
    Prop where
  draft : d.Consistent opens known a.entries.size
  ready : a.Ready names

def Emit.Safe {α : Type} (step : Emit α) (P : Draft -> Assembler -> Prop)
    (Q : α -> Draft -> Assembler -> Prop) : Prop :=
  ∀ d, Assembly.Safe (step d) (P d) fun p => Q p.1 p.2

/-- The step leaves no label open that it makes. -/
def Emit.Keeps (names : List String) (step : Emit Unit) : Prop :=
  ∀ opens known, Safe step (Drafting names opens known) fun _ => Drafting names opens known

namespace Emit.Safe

variable {α β : Type} {step : Emit α} {next : α -> Emit β} {P : Draft -> Assembler -> Prop}
  {Q : α -> Draft -> Assembler -> Prop} {R : β -> Draft -> Assembler -> Prop}
  {names : List String} {opens known : List Label}

theorem bind (h : Safe step P Q) (hnext : ∀ x, Safe (next x) (Q x) R) :
    Safe (step >>= next) P R :=
  fun d => Assembly.Safe.bind (h d) fun p => hnext p.1 p.2

theorem of_yields (h : ∀ d a, P d a -> ∃ x d', step.Yields d a x d' a ∧ Q x d' a) :
    Safe step P Q := by
  intro d a hd
  rcases h d a hd with ⟨x, d', hyields, hx⟩
  rw [hyields]
  exact ⟨hx, Nat.le_refl _⟩

theorem instr (i : Instruction) :
    Safe (push (.instr i)) (Drafting names opens known) fun _ => Drafting names opens known := by
  apply of_yields
  intro d a h
  exact ⟨(), _, yields_push_iff.mpr ⟨rfl, rfl⟩, h.draft.push i, h.ready⟩

theorem store (c : PoolConstant)
    (hP : ∀ d a, P d a -> Drafting names opens known d a ∧ c.Within a.entries.size) :
    Safe (store c) P fun _ => Drafting names opens known := by
  intro d a hd
  rcases hP d a hd with ⟨h, hc⟩
  unfold Emit.store
  cases hstore : d.store c with
  | ok p =>
      rcases p with ⟨index, d'⟩
      exact ⟨⟨h.draft.store hc hstore, h.ready⟩, Nat.le_refl _⟩
  | error e => exact Draft.isLimit_of_store hstore

theorem pooled {c : PoolConstant} (opcode : Opcode)
    (hP : ∀ d a, P d a -> Drafting names opens known d a ∧ c.Within a.entries.size) :
    Safe (pooled opcode c) P fun _ => Drafting names opens known :=
  (store c hP).bind fun _ => instr _

theorem newLabel (name : Option String) :
    Safe (newLabel name) (Drafting names opens known)
      fun label => Drafting names (label :: opens) (label :: known) := by
  apply of_yields
  intro d a h
  exact ⟨_, _, yields_newLabel_iff.mpr ⟨rfl, rfl⟩, h.draft.newLabel name, h.ready⟩

theorem place (before : List Label) {after known' : List Label} {label : Label}
    (hknown : known' ⊆ known) :
    Safe (place label) (Drafting names (before ++ label :: after) known)
      fun _ => Drafting names (before ++ after) known' := by
  apply of_yields
  intro d a h
  rcases h.draft.place_of_open (List.mem_append_right _ List.mem_cons_self) with ⟨d', hplace⟩
  have hdraft := h.draft.place hplace
  exact ⟨(), d', yields_place_iff.mpr ⟨hplace, rfl⟩,
    { hdraft with known := fun l hl => hdraft.known l (hknown hl) }, h.ready⟩

theorem jump {target : Label} (htarget : target ∈ known) :
    Safe (jump target) (Drafting names opens known) fun _ => Drafting names opens known := by
  apply of_yields
  intro d a h
  exact ⟨(), _, yields_jump_iff.mpr ⟨d.place_mark rfl, rfl⟩, h.draft.jump htarget, h.ready⟩

theorem jumpIfFalse {target : Label} (htarget : target ∈ opens) :
    Safe (jumpIfFalse target) (Drafting names opens known) fun _ => Drafting names opens known := by
  apply of_yields
  intro d a h
  exact ⟨(), _, yields_jumpIfFalse_iff.mpr ⟨d.place_mark rfl, rfl⟩, h.draft.jumpIfFalse htarget,
    h.ready⟩

end Emit.Safe

/-!
## Chunks
-/

namespace Assembler

variable {names names' : List String} {a a' : Assembler} {name : Option String} {ref : ChunkRef}

theorem Ready.of_subset (h : a.Ready names) (hnames : names' ⊆ names) : a.Ready names' where
  indexed := h.indexed
  named n hn := h.named n (hnames hn)
  drafts := h.drafts

theorem isLimit_of_reserve {e : AssembleError} (h : a.reserve name = .error e) : e.IsLimit := by
  unfold reserve at h
  split at h
  · cases h
    trivial
  · cases h

theorem Ready.reserve (h : a.Ready names) (hreserve : a.reserve name = .ok (ref, a'))
    (hnames : ∀ n ∈ names', n ∈ names ∨ name = some n) :
    a'.Ready names' ∧ ref < a'.entries.size ∧ a.entries.size ≤ a'.entries.size := by
  have hstarted := names_reserve hreserve
  rcases reserve_eq_ok_iff.mp hreserve with ⟨hfree, rfl, rfl⟩
  have hsize : (a.entered name).entries.size = a.entries.size + 1 := by
    rw [entries_entered, Array.size_push]
  refine ⟨⟨h.indexed.entered hfree, ?_, ?_⟩, ?_, ?_⟩
  · intro n hn
    rw [hstarted, List.mem_append, List.mem_singleton]
    rcases hnames n hn with hold | hnew
    · exact Or.inl (h.named n hold)
    · exact Or.inr hnew.symm
  · intro entry hentry d hd
    rw [entries_entered, Array.toList_push, List.mem_append, List.mem_singleton] at hentry
    rcases hentry with hold | rfl
    · exact (h.drafts entry hold d hd).mono (hsize ▸ Nat.le_succ _)
    · cases hd
  · exact hsize ▸ Nat.lt_succ_self _
  · exact hsize ▸ Nat.le_succ _

theorem mem_complete {d : Draft} {entry : ChunkEntry}
    (h : entry ∈ (a.complete d).entries.toList) :
    entry ∈ a.entries.toList ∨ entry.draft = some d := by
  rw [complete, Array.toList_modify] at h
  rcases List.mem_iff_getElem?.mp h with ⟨i, hi⟩
  rw [List.getElem?_modify, Option.map_eq_map, Option.map_eq_some_iff] at hi
  rcases hi with ⟨old, hold, rfl⟩
  by_cases hself : d.self = i
  · simp [hself]
  · simp [hself, List.mem_of_getElem? hold]

theorem Ready.complete (h : a.Ready names) {d : Draft}
    (hd : d.Consistent [] [] a.entries.size) : (a.complete d).Ready names := by
  have hsize : (a.complete d).entries.size = a.entries.size := Array.size_modify
  refine ⟨h.indexed.complete d, ?_, ?_⟩
  · rw [names_complete]
    exact h.named
  · intro entry hentry d' hd'
    rw [hsize]
    rcases mem_complete hentry with hold | hnew
    · exact h.drafts entry hold d' hd'
    · cases hnew.symm.trans hd'
      exact hd

end Assembler

theorem Assembler.Indexed.exists_named? {a : Assembler} (ha : a.Indexed) {name : String}
    (h : some name ∈ a.names) : ∃ chunk, a.named? name = some chunk ∧ chunk < a.entries.size := by
  rcases List.getElem?_of_mem h with ⟨chunk, hchunk⟩
  refine ⟨chunk, (ha (some name) chunk).mpr hchunk, ?_⟩
  rw [← a.length_names]
  exact (List.getElem?_eq_some_iff.mp hchunk).1

theorem Assembly.Safe.addChunk {name : Option String} {body : Emit Unit}
    {names names' : List String} (hbody : Emit.Keeps names' body)
    (hnames : ∀ n ∈ names', n ∈ names ∨ name = some n) :
    Safe (addChunk name body) (·.Ready names)
      fun ref a => a.Ready names' ∧ ref < a.entries.size := by
  intro a ha
  unfold Assembly.addChunk
  cases hreserve : a.reserve name with
  | error e => exact Assembler.isLimit_of_reserve hreserve
  | ok p =>
      rcases p with ⟨ref, a1⟩
      rcases ha.reserve hreserve hnames with ⟨hready, href, hsize⟩
      have hrun := hbody [] [] { name, self := ref } a1 ⟨.start href, hready⟩
      simp only
      cases hemit : body { name, self := ref } a1 with
      | error e a2 =>
          rw [hemit] at hrun
          exact hrun
      | ok q a2 =>
          rcases q with ⟨_, d⟩
          rw [hemit] at hrun
          rcases hrun with ⟨⟨hdraft, hready2⟩, hsize2⟩
          have hcomplete : (a2.complete d).entries.size = a2.entries.size := Array.size_modify
          refine ⟨⟨hready2.complete hdraft, ?_⟩, ?_⟩
          · rw [hcomplete]
            exact Nat.lt_of_lt_of_le href hsize2
          · rw [hcomplete]
            exact Nat.le_trans hsize hsize2

theorem Assembly.Safe.addFunctionChunk {name : String} {arity : UInt8} {body : Emit Unit}
    {names names' : List String} (hbody : Emit.Keeps names' body)
    (hnames : ∀ n ∈ names', n ∈ names ∨ name = n) :
    Safe (addFunctionChunk name arity body) (·.Ready names)
      fun ref a => a.Ready names' ∧ ref < a.entries.size := by
  refine addChunk ?_ fun n hn => (hnames n hn).imp_right (congrArg some)
  intro opens known
  refine (Emit.Safe.store (.string name) fun d a h => ⟨h, trivial⟩).bind fun _ => ?_
  refine (Emit.Safe.store (.int _) fun d a h => ⟨h, trivial⟩).bind fun _ => ?_
  exact hbody opens known

namespace Emit.Safe

variable {names : List String} {opens known : List Label}

theorem lift {α : Type} {step : Assembly α} {Q : α -> Assembler -> Prop}
    (h : Assembly.Safe step (·.Ready names) fun x a => a.Ready names ∧ Q x a) :
    Safe (liftM step) (Drafting names opens known)
      fun x d a => Drafting names opens known d a ∧ Q x a := by
  intro d a hd
  have hrun := h a hd.ready
  have hlift : (liftM step : Emit α) d a = EStateM.bind step (fun x => pure (x, d)) a := rfl
  rw [hlift]
  unfold EStateM.bind
  cases hstep : step a with
  | error e a1 =>
      rw [hstep] at hrun
      exact hrun
  | ok x a1 =>
      rw [hstep] at hrun
      rcases hrun with ⟨⟨hready, hx⟩, hsize⟩
      exact ⟨⟨⟨hd.draft.mono hsize, hready⟩, hx⟩, hsize⟩

theorem self : Safe (get >>= fun d => Emit.pooled .constant (.function d.self))
    (Drafting names opens known) fun _ => Drafting names opens known := by
  intro d a h
  have hpooled : Safe (Emit.pooled .constant (.function d.self))
      (fun d' a' => d' = d ∧ Drafting names opens known d' a')
      fun _ => Drafting names opens known := by
    apply pooled
    intro d' a' h'
    rcases h' with ⟨rfl, h'⟩
    exact ⟨h', h'.draft.self⟩
  exact hpooled d a ⟨rfl, h⟩

theorem named? {name : String} (hname : name ∈ names) :
    Safe (named? name) (Drafting names opens known)
      fun chunk? d a => Drafting names opens known d a ∧
        ∃ chunk, chunk? = some chunk ∧ chunk < a.entries.size := by
  apply of_yields
  intro d a h
  rcases h.ready.indexed.exists_named? (h.ready.named name hname) with ⟨chunk, hchunk, hlt⟩
  exact ⟨some chunk, d, yields_named?_iff.mpr ⟨hchunk, rfl, rfl⟩, h, chunk, rfl, hlt⟩

end Emit.Safe

namespace Fragment

mutual

/-- Calls are not too long, and functions used by name are among the given
ones. -/
def Supported (names : List String) : Fragment -> Prop
  | builtin name => name ∈ names
  | define _ _ body => body.Supported names
  | sequence parts => AllSupported names parts
  | call callee arguments =>
      arguments.length ≤ maxCount ∧ callee.Supported names ∧ AllSupported names arguments
  | both left right => left.Supported names ∧ right.Supported names
  | either left right => left.Supported names ∧ right.Supported names
  | choose branches otherwise => BranchesSupported names branches ∧ otherwise.Supported names
  | loop condition body => condition.Supported names ∧ body.Supported names
  | _ => True

def AllSupported (names : List String) : List Fragment -> Prop
  | [] => True
  | part :: rest => part.Supported names ∧ AllSupported names rest

def BranchesSupported (names : List String) : List FragmentBranch -> Prop
  | [] => True
  | { condition, body } :: rest =>
      condition.Supported names ∧ body.Supported names ∧ BranchesSupported names rest

end

open Emit

mutual

theorem keeps_of_structured {names : List String} : ∀ (f : Fragment) {inFunction : Bool},
    f.Structured inFunction -> f.Supported names -> Keeps names f.emit
  | instr i, _, _, _ => by
      rw [emit]
      exact fun _ _ => .instr i
  | pooled opcode c, _, hf, _ => by
      rw [emit]
      intro opens known
      apply Safe.pooled
      intro d a h
      refine ⟨h, ?_⟩
      cases c with
      | function ref => cases hf
      | _ => trivial
  | self, _, _, _ => by
      rw [emit]
      exact fun _ _ => .self
  | builtin name, _, _, hs => by
      rw [emit]
      intro opens known
      refine (Safe.named? hs).bind fun chunk? => ?_
      cases chunk? with
      | some chunk =>
          apply Safe.pooled
          intro d a h
          rcases h with ⟨h, _, ⟨⟩, hlt⟩
          exact ⟨h, hlt⟩
      | none =>
          intro d a h
          rcases h with ⟨_, _, hchunk, _⟩
          cases hchunk
  | define name arity body, _, hf, hs => by
      rw [Structured] at hf
      rw [Supported] at hs
      rw [emit]
      intro opens known
      refine (Safe.lift (.addFunctionChunk (keeps_of_structured body hf hs) ?_)).bind ?_
      · exact fun _ => Or.inl
      · exact fun chunk => .pooled .constant fun d a h => h
  | sequence parts, _, hf, hs => by
      rw [Structured] at hf
      rw [Supported] at hs
      rw [emit]
      exact keeps_of_allStructured parts hf hs
  | call callee arguments, _, hf, hs => by
      rw [Structured] at hf
      rw [Supported] at hs
      rw [emit, if_pos hs.1]
      intro opens known
      refine (keeps_of_structured callee hf.1 hs.2.1 opens known).bind fun _ => ?_
      refine (keeps_of_allStructured arguments hf.2 hs.2.2 opens known).bind fun _ => ?_
      exact .instr _
  | both left right, _, hf, hs => by
      rw [Structured] at hf
      rw [Supported] at hs
      rw [emit]
      intro opens known
      refine (Safe.newLabel _).bind fun after => ?_
      refine (keeps_of_structured left hf.1 hs.1 _ _).bind fun _ => ?_
      refine (Safe.jumpIfFalse List.mem_cons_self).bind fun _ => ?_
      refine (Safe.instr _).bind fun _ => ?_
      refine (keeps_of_structured right hf.2 hs.2 _ _).bind fun _ => ?_
      exact .place [] (List.subset_cons_self _ _)
  | either left right, _, hf, hs => by
      rw [Structured] at hf
      rw [Supported] at hs
      rw [emit]
      intro opens known
      refine (Safe.newLabel _).bind fun rightSide => ?_
      refine (Safe.newLabel _).bind fun after => ?_
      refine (keeps_of_structured left hf.1 hs.1 _ _).bind fun _ => ?_
      refine (Safe.jumpIfFalse (List.mem_cons_of_mem _ List.mem_cons_self)).bind fun _ => ?_
      refine (Safe.jump List.mem_cons_self).bind fun _ => ?_
      refine (Safe.place [after] (List.Subset.refl _)).bind fun _ => ?_
      refine (Safe.instr _).bind fun _ => ?_
      refine (keeps_of_structured right hf.2 hs.2 _ _).bind fun _ => ?_
      exact .place [] fun _ h => List.mem_cons_of_mem _ (List.mem_cons_of_mem _ h)
  | choose branches otherwise, _, hf, hs => by
      rw [Structured] at hf
      rw [Supported] at hs
      rw [emit]
      intro opens known
      refine (Safe.newLabel _).bind fun after => ?_
      refine (keeps_of_branchesStructured branches hf.1 hs.1 List.mem_cons_self).bind fun _ => ?_
      refine (keeps_of_structured otherwise hf.2 hs.2 _ _).bind fun _ => ?_
      exact .place [] (List.subset_cons_self _ _)
  | loop condition body, _, hf, hs => by
      rw [Structured] at hf
      rw [Supported] at hs
      rw [emit]
      intro opens known
      refine (Safe.newLabel _).bind fun before => ?_
      refine (Safe.newLabel _).bind fun after => ?_
      refine (Safe.place [after] (List.Subset.refl _)).bind fun _ => ?_
      refine (keeps_of_structured condition hf.1 hs.1 _ _).bind fun _ => ?_
      refine (Safe.jumpIfFalse List.mem_cons_self).bind fun _ => ?_
      refine (Safe.instr _).bind fun _ => ?_
      refine (keeps_of_structured body hf.2 hs.2 _ _).bind fun _ => ?_
      refine (Safe.jump (List.mem_cons_of_mem _ List.mem_cons_self)).bind fun _ => ?_
      refine (Safe.place [] fun _ h => List.mem_cons_of_mem _ (List.mem_cons_of_mem _ h)).bind ?_
      exact fun _ => .instr _
  | store _, _, hf, _ => by cases hf
  | position, _, hf, _ => by cases hf
  | functionOrNull _, _, hf, _ => by cases hf
  | label _, _, hf, _ => by cases hf
  | place _, _, hf, _ => by cases hf
  | jump _, _, hf, _ => by cases hf
  | jumpIfFalse _, _, hf, _ => by cases hf

theorem keeps_of_allStructured {names : List String} : ∀ (parts : List Fragment)
    {inFunction : Bool}, AllStructured inFunction parts -> AllSupported names parts ->
    Keeps names (emitAll parts)
  | [], _, _, _ => by
      rw [emitAll]
      intro opens known d a h
      exact ⟨h, Nat.le_refl _⟩
  | part :: rest, _, hf, hs => by
      rw [AllStructured] at hf
      rw [AllSupported] at hs
      rw [emitAll]
      intro opens known
      refine (keeps_of_structured part hf.1 hs.1 opens known).bind fun _ => ?_
      exact keeps_of_allStructured rest hf.2 hs.2 opens known

theorem keeps_of_branchesStructured {names : List String} : ∀ (branches : List FragmentBranch)
    {inFunction : Bool} {after : Label} {opens known : List Label},
    BranchesStructured inFunction branches -> BranchesSupported names branches ->
    after ∈ known -> Safe (emitBranches after branches) (Drafting names opens known)
      fun _ => Drafting names opens known
  | [], _, _, _, _, _, _, _ => by
      rw [emitBranches]
      intro d a h
      exact ⟨h, Nat.le_refl _⟩
  | { condition, body } :: rest, _, after, opens, known, hf, hs, hafter => by
      rw [BranchesStructured] at hf
      rw [BranchesSupported] at hs
      rw [emitBranches]
      refine (Safe.newLabel _).bind fun next => ?_
      refine (keeps_of_structured condition hf.1 hs.1 _ _).bind fun _ => ?_
      refine (Safe.jumpIfFalse List.mem_cons_self).bind fun _ => ?_
      refine (Safe.instr _).bind fun _ => ?_
      refine (keeps_of_structured body hf.2.1 hs.2.1 _ _).bind fun _ => ?_
      refine (Safe.jump (List.mem_cons_of_mem _ hafter)).bind fun _ => ?_
      refine (Safe.place [] (List.subset_cons_self _ _)).bind fun _ => ?_
      refine (Safe.instr _).bind fun _ => ?_
      exact keeps_of_branchesStructured rest hf.2.2 hs.2.2 hafter

end

end Fragment
end StackScript
