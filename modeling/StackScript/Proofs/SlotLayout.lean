import StackScript.Proofs.LoweredCode
import StackScript.Proofs.ResolvedNames

/-!
# The layout of slots

The locals that a place can see lie on the stack in the order of their
declarations, from the first slot on without a gap.  The names that a scope
stack holds between the place and the function around it are thus a picture of
the stack: the latest name belongs to the highest slot.
-/

namespace StackScript

/-!
## Frames
-/

namespace ScopeStack

def frameOf : List Scope -> List (String × Storage)
  | [] => []
  | scope :: rest =>
      if scope.kind = .function then scope.values else scope.values ++ frameOf rest

def frame (s : ScopeStack) : List (String × Storage) :=
  frameOf s.inner

/-- The cells of the stack in use between two statements: that of the function
itself and those of the locals. -/
def height (s : ScopeStack) : Nat :=
  s.frame.length + 1

inductive Slotted : List (String × Storage) -> Prop where
  | nil : Slotted []
  | cons {names : List (String × Storage)} {name : String} (h : Slotted names)
      (hroom : names.length < maxSlot) :
      Slotted ((name, .localSlot name (UInt8.ofNat (names.length + 1))) :: names)

/-- Each scope starts where the one around it ends, or, for a function, at the
first slot. -/
def Layered : List Scope -> Prop
  | [] => True
  | scope :: rest =>
      Layered rest ∧ scope.kind ≠ .global ∧ scope.locals = scope.values.length ∧
        Slotted (frameOf (scope :: rest)) ∧
        scope.nextSlot = (frameOf (scope :: rest)).length + 1

/-- The inner scopes lie one behind the other, and the global scope has no
locals. -/
structure Laid (s : ScopeStack) : Prop where
  inner : Layered s.inner
  kind : s.bottom.kind = .global
  nextSlot : s.bottom.nextSlot = firstSlot
  globals : ∀ text storage, (text, storage) ∈ s.bottom.values ->
    ∀ name slot, storage ≠ .localSlot name slot

/-!
## Lookup
-/

theorem lookupIn_eq (bottom : Scope) (name : String) (inner : List Scope) :
    lookupIn bottom name inner = ((frameOf inner).lookup name).or (bottom.get? name) := by
  induction inner with
  | nil => rfl
  | cons scope rest ih =>
      rw [lookupIn, frameOf, ih, Scope.get?]
      by_cases hkind : scope.kind = .function
      · rw [if_pos hkind, if_pos hkind]
        cases scope.values.lookup name <;> rfl
      · rw [if_neg hkind, if_neg hkind, List.lookup_append]
        cases scope.values.lookup name <;> rfl

/-- A name is looked up among the locals first, then among the globals. -/
theorem lookup_eq (s : ScopeStack) (name : String) :
    s.lookup name = (s.frame.lookup name).or (s.bottom.get? name) :=
  lookupIn_eq s.bottom name s.inner

theorem Slotted.storage_eq {later earlier : List (String × Storage)} {text : String}
    {storage : Storage} (h : Slotted (later ++ (text, storage) :: earlier)) :
    storage = .localSlot text (UInt8.ofNat (earlier.length + 1)) ∧ earlier.length < maxSlot := by
  induction later with
  | nil =>
      cases h with
      | cons _ hroom => exact ⟨rfl, hroom⟩
  | cons first rest ih =>
      cases h with
      | cons h _ => exact ih h

theorem toNat_slot {count : Nat} (h : count < maxSlot) :
    (UInt8.ofNat (count + 1)).toNat = count + 1 :=
  UInt8.toNat_ofNat_of_lt' (Nat.lt_of_le_of_lt (Nat.succ_le_of_lt h) (by decide))

namespace Laid

variable {s s' : ScopeStack} {name : String} {span : Span} {storage : Storage}

theorem slotted (h : s.Laid) : Slotted s.frame := by
  have hinner := h.inner
  unfold frame
  cases hscopes : s.inner with
  | nil => exact .nil
  | cons scope rest =>
      rw [hscopes] at hinner
      exact hinner.2.2.2.1

theorem top_nextSlot (h : s.Laid) : s.top.nextSlot = s.height := by
  have hinner := h.inner
  unfold height frame top
  cases hscopes : s.inner with
  | nil => exact h.nextSlot
  | cons scope rest =>
      rw [hscopes] at hinner
      exact hinner.2.2.2.2

theorem slot_of_lookup (h : s.Laid) {text : String} {slot : UInt8}
    (hlookup : s.lookup name = some (.localSlot text slot)) :
    1 ≤ slot.toNat ∧ slot.toNat < s.height := by
  rw [lookup_eq, Option.or_eq_some_iff] at hlookup
  rcases hlookup with hframe | ⟨_, hglobal⟩
  · rcases List.lookup_eq_some_iff.mp hframe with ⟨later, earlier, hsplit, _⟩
    have hslotted := h.slotted
    rw [hsplit] at hslotted
    rcases hslotted.storage_eq with ⟨hstorage, hroom⟩
    cases hstorage
    rw [toNat_slot hroom, height, hsplit, List.length_append, List.length_cons]
    omega
  · rcases List.lookup_eq_some_iff.mp hglobal with ⟨later, earlier, hsplit, _⟩
    exact absurd rfl (h.globals name _ (by simp [hsplit]) text slot)

end Laid

/-!
## New names and scopes
-/

theorem frameOf_block {scope : Scope} (h : scope.kind = .block) (rest : List Scope) :
    frameOf (scope :: rest) = scope.values ++ frameOf rest := by
  rw [frameOf, if_neg]
  rw [h]
  nofun

theorem laid_ofBuiltins (builtins : List Builtin) : (ofBuiltins builtins).Laid where
  inner := trivial
  kind := rfl
  nextSlot := rfl
  globals := by
    have hfold : ∀ (builtins : List Builtin) (values : List (String × Storage)),
        (∀ text storage, (text, storage) ∈ values ->
          ∀ name slot, storage ≠ .localSlot name slot) ->
        ∀ text storage, (text, storage) ∈ builtins.foldl
            (fun values b => (b.name, .builtin b.name b.arity) :: values) values ->
          ∀ name slot, storage ≠ .localSlot name slot := by
      intro builtins
      induction builtins with
      | nil =>
          intro values hvalues
          exact hvalues
      | cons b rest ih =>
          intro values hvalues
          apply ih
          intro text storage hmem
          rcases List.mem_cons.mp hmem with heq | hmem
          · cases heq
            nofun
          · exact hvalues text storage hmem
    exact hfold builtins [] (by nofun)

namespace Laid

variable {s s' : ScopeStack} {name : String} {span : Span} {storage : Storage}

theorem pushBlock (h : s.Laid) : s.pushBlock.Laid ∧ s.pushBlock.frame = s.frame := by
  have hframe : s.pushBlock.frame = s.frame := frameOf_block rfl s.inner
  refine ⟨⟨⟨h.inner, by nofun, rfl, ?_, ?_⟩, h.kind, h.nextSlot, h.globals⟩, hframe⟩
  · change Slotted s.pushBlock.frame
    rw [hframe]
    exact h.slotted
  · change s.top.nextSlot = s.pushBlock.frame.length + 1
    rw [hframe, h.top_nextSlot, height]

theorem pushFunction (h : s.Laid) : s.pushFunction.Laid ∧ s.pushFunction.frame = [] :=
  ⟨⟨⟨h.inner, by nofun, rfl, .nil, h.nextSlot⟩, h.kind, h.nextSlot, h.globals⟩, rfl⟩

theorem declare_global (h : s.Laid) (hinner : s.inner = [])
    (hdeclare : s.declare name span = .ok storage s') :
    s'.Laid ∧ storage = .globalName name ∧ s'.inner = [] := by
  rcases declare_bottom hinner hdeclare with ⟨bottom', hbottom, rfl⟩
  rcases s with ⟨inner, bottom⟩
  cases hinner
  rcases Scope.declare_eq_ok hbottom with ⟨_, rfl, rfl⟩ | ⟨hkind, _⟩
  · refine ⟨⟨trivial, h.kind, h.nextSlot, ?_⟩, rfl, rfl⟩
    intro text other hmem
    rcases List.mem_cons.mp hmem with heq | hmem
    · cases heq
      rintro _ _ ⟨⟩
    · exact h.globals text other hmem
  · exact absurd h.kind hkind

theorem declare_local (h : s.Laid) (hinner : s.inner ≠ [])
    (hdeclare : s.declare name span = .ok storage s') :
    s'.Laid ∧ s.frame.length < maxSlot ∧
      storage = .localSlot name (UInt8.ofNat (s.frame.length + 1)) ∧
      s'.frame = (name, storage) :: s.frame ∧ s'.bottom = s.bottom := by
  rcases s with ⟨inner, bottom⟩
  cases inner with
  | nil => exact absurd rfl hinner
  | cons scope rest =>
      rcases declare_top rfl hdeclare with ⟨scope', hscope, rfl⟩
      rcases h.inner with ⟨hrest, hkind, hlocals, hslotted, hnext⟩
      rcases Scope.declare_eq_ok hscope with ⟨hglobal, _⟩ | ⟨_, hroom, rfl, rfl⟩
      · exact absurd hglobal hkind
      · rw [hnext] at hroom ⊢
        have hframe : ∀ values locals,
            frameOf ({ scope with values := values ++ scope.values, locals := locals } :: rest) =
              values ++ frameOf (scope :: rest) := by
          intro values locals
          simp only [frameOf]
          split
          · rfl
          · rw [List.append_assoc]
        have hgrown := hframe
          [(name, .localSlot name (UInt8.ofNat ((frameOf (scope :: rest)).length + 1)))]
          (scope.locals + 1)
        have hbelow : (frameOf (scope :: rest)).length < maxSlot := hroom
        refine ⟨⟨⟨hrest, hkind, congrArg (· + 1) hlocals, ?_, ?_⟩, h.kind, h.nextSlot, h.globals⟩,
          hbelow, rfl, hgrown, rfl⟩
        · exact hgrown ▸ hslotted.cons hbelow
        · refine Eq.trans ?_ (congrArg (·.length + 1) hgrown.symm)
          rw [Scope.nextSlot] at hnext ⊢
          simp only [List.length_append, List.length_singleton]
          omega

theorem frame_block {scope : Scope}
    (h : ScopeStack.Laid { s with inner := scope :: s.inner }) (hkind : scope.kind = .block) :
    ScopeStack.frame { s with inner := scope :: s.inner } = scope.values ++ s.frame ∧
      scope.locals = scope.values.length :=
  ⟨frameOf_block hkind s.inner, h.inner.2.2.1⟩

end Laid

end ScopeStack

/-!
## Resolved statements
-/

namespace Resolution

open ScopeStack

variable {r : Resolution} {scopes after : ScopeStack}

theorem laid_of_declares {name : Identifier} (h : r.Declares scopes name after)
    (hlaid : scopes.Laid) : after.Laid := by
  rcases h with ⟨storage, hdeclare, _⟩
  by_cases hinner : scopes.inner = []
  · exact (hlaid.declare_global hinner hdeclare).1
  · exact (hlaid.declare_local hinner hdeclare).1

theorem laid_of_declaresAll {names : List Identifier} (h : r.DeclaresAll scopes names after)
    (hlaid : scopes.Laid) (hinner : scopes.inner ≠ []) :
    after.Laid ∧ after.height = scopes.height + names.length := by
  induction h with
  | nil => exact ⟨hlaid, rfl⟩
  | cons hname _ ih =>
      rcases hname with ⟨storage, hdeclare, _⟩
      rcases hlaid.declare_local hinner hdeclare with ⟨hnext, _, _, hframe, _⟩
      have hinner' := (sameOuter_of_declare hdeclare).inner_ne_nil hinner
      rcases ih hnext hinner' with ⟨hafter, hheight⟩
      refine ⟨hafter, ?_⟩
      rw [hheight, height, height, hframe, List.length_cons, List.length_cons]
      omega

theorem laid_of_resolvesStmt {s : Stmt} (h : r.ResolvesStmt scopes s after)
    (hlaid : scopes.Laid) : after.Laid := by
  cases h with
  | declare _ hname => exact laid_of_declares hname hlaid
  | function hname _ _ => exact laid_of_declares hname hlaid
  | _ => exact hlaid

theorem inner_of_resolvesStmt {s : Stmt} (h : r.ResolvesStmt scopes s after)
    (hlaid : scopes.Laid) (hinner : scopes.inner = []) : after.inner = [] := by
  cases h with
  | declare _ hname =>
      rcases hname with ⟨_, hdeclare, _⟩
      exact (hlaid.declare_global hinner hdeclare).2.2
  | function hname _ _ =>
      rcases hname with ⟨_, hdeclare, _⟩
      exact (hlaid.declare_global hinner hdeclare).2.2
  | _ => exact hinner

theorem laid_of_resolvesAll {scopes after : ScopeStack} {statements : List Stmt} :
    r.ResolvesAll scopes statements after -> scopes.Laid -> after.Laid
  | .nil, hlaid => hlaid
  | .cons hfirst hrest, hlaid => laid_of_resolvesAll hrest (laid_of_resolvesStmt hfirst hlaid)

theorem inner_of_resolvesAll {scopes after : ScopeStack} {statements : List Stmt} :
    r.ResolvesAll scopes statements after -> scopes.Laid -> scopes.inner = [] -> after.inner = []
  | .nil, _, hinner => hinner
  | .cons hfirst hrest, hlaid, hinner =>
      inner_of_resolvesAll hrest (laid_of_resolvesStmt hfirst hlaid)
        (inner_of_resolvesStmt hfirst hlaid hinner)

theorem closed_of_resolvesAll {scope : Scope} {statements : List Stmt}
    (h : r.ResolvesAll scopes.pushBlock statements { scopes with inner := scope :: scopes.inner })
    (hlaid : scopes.Laid) :
    ScopeStack.height { scopes with inner := scope :: scopes.inner } =
      scopes.height + scope.locals := by
  rcases sameOuter_of_resolvesAll h _ _ rfl with ⟨scope', heq, hkind⟩
  cases heq
  rcases (laid_of_resolvesAll h hlaid.pushBlock.1).frame_block hkind with ⟨hframe, hlocals⟩
  rw [height, height, hframe, List.length_append, ← hlocals]
  omega

/-!
## The code of names
-/

/-- A new name is stored as a global outside of all blocks, and else its value
stays where it is, in the next slot. -/
theorem introduce_cases {name : Identifier} {value f : Fragment}
    (hname : r.Declares scopes name after) (hlaid : scopes.Laid)
    (h : r.introduce name value = .ok f) :
    (scopes.inner = [] ∧ after.inner = [] ∧ r.storage? name = some (.globalName name.name) ∧
      f = .setGlobal name.name value) ∨
    (scopes.inner ≠ [] ∧ after.height = scopes.height + 1 ∧
      (∃ slot, r.storage? name = some (.localSlot name.name slot) ∧
        slot.toNat = scopes.height) ∧ f = value) := by
  rcases hname with ⟨storage, hdeclare, hstorage⟩
  rcases introduce_eq_ok_iff.mp h with ⟨storage', hstorage', hcode⟩
  cases hstorage.symm.trans hstorage'
  by_cases hinner : scopes.inner = []
  · rcases hlaid.declare_global hinner hdeclare with ⟨_, rfl, hinner'⟩
    cases hcode
    exact Or.inl ⟨hinner, hinner', hstorage, rfl⟩
  · rcases hlaid.declare_local hinner hdeclare with ⟨_, hroom, rfl, hframe, _⟩
    cases hcode
    refine Or.inr ⟨hinner, ?_, ⟨_, hstorage, toNat_slot hroom⟩, rfl⟩
    rw [height, hframe]
    rfl

theorem exists_write_of_assign {target : Identifier} {value f : Fragment}
    (htarget : r.Uses scopes target) (h : r.assign target value = .ok f) :
    ∃ storage, scopes.lookup target.name = some storage ∧ storage.write? value = some f := by
  rcases assign_eq_ok_iff.mp h with ⟨storage, hstorage, hcode⟩
  exact ⟨storage, htarget.lookup_eq hstorage, hcode⟩

end Resolution
end StackScript
