import StackScript.Proofs.VisibleNames

/-!
# Runs on a stack of scopes

Scopes are opened and closed, and names are declared and looked up, in any order
and whether or not the single steps succeed.  However a stack came about, its
locals have slots of their own, without a gap from the nearest function on, and
what happened inside a scope is gone when the scope is closed.
-/

namespace StackScript

/-!
## Steps
-/

inductive ScopeAction where
  | openBlock
  | openFunction
  | close
  | declare (name : String) (span : Span)
  | lookup (name : String)

def ScopeAction.Opens : ScopeAction -> Prop
  | openBlock | openFunction => True
  | close | declare _ _ | lookup _ => False

/-- Steps between the opening and the closing of a scope: every scope that they
open they close again, and no other. -/
inductive ScopeAction.Enclosed : List ScopeAction -> Prop where
  | nil : Enclosed []
  | declare {rest : List ScopeAction} (name : String) (span : Span) (hrest : Enclosed rest) :
      Enclosed (.declare name span :: rest)
  | lookup {rest : List ScopeAction} (name : String) (hrest : Enclosed rest) :
      Enclosed (.lookup name :: rest)
  | scope {opening : ScopeAction} {inside rest : List ScopeAction} (hopening : opening.Opens)
      (hinside : Enclosed inside) (hrest : Enclosed rest) :
      Enclosed (opening :: inside ++ .close :: rest)

namespace ScopeStack

def perform (s : ScopeStack) : ScopeAction -> ScopeStack
  | .openBlock => s.pushBlock
  | .openFunction => s.pushFunction
  | .close =>
      match s.pop? with
      | some (_, rest) => rest
      | none => s
  | .declare name span =>
      match s.declare name span with
      | .ok _ s' | .error _ s' => s'
  | .lookup _ => s

def performAll (s : ScopeStack) (actions : List ScopeAction) : ScopeStack :=
  actions.foldl perform s

def frames (s : ScopeStack) : List Scope :=
  s.bottom :: s.inner.reverse

end ScopeStack

/-!
## New names
-/

namespace Scope

variable {s s' : Scope} {name : String} {span : Span} {storage : Storage}

theorem exists_declare_error_iff :
    (∃ e, s.declare name span = .error e s) ↔
      (s.get? name).isSome ∨ s.kind ≠ .global ∧ maxSlot < s.nextSlot := by
  unfold declare
  by_cases htaken : (s.get? name).isSome
  · simp [htaken]
  by_cases hkind : s.kind = .global
  · simp [htaken, hkind]
  by_cases hroom : s.nextSlot ≤ maxSlot
  · simp [htaken, hkind, hroom]
  · simp [htaken, hkind, hroom, Nat.not_le.mp hroom]

def Distinct (s : Scope) : Prop :=
  (s.values.map (·.1)).Nodup

theorem Distinct.declare (hs : s.Distinct) (h : s.declare name span = .ok storage s') :
    s'.Distinct := by
  rcases get?_of_declare h with ⟨hnew, hvalues⟩
  rw [Distinct, hvalues, List.map_cons, List.nodup_cons]
  exact ⟨get?_eq_none_iff.mp hnew, hs⟩

end Scope

namespace ScopeStack

variable {s s' : ScopeStack} {name : String} {span : Span} {e : ResolveError}

theorem perform_declare_of_error (h : s.declare name span = .error e s') :
    s.perform (.declare name span) = s := by
  rw [perform, h]
  exact (declare_eq_error_iff.mp h).1

end ScopeStack

/-!
## Slots
-/

def Storage.slot? : Storage -> Option Nat
  | localSlot _ slot => some slot.toNat
  | globalName _ | builtin _ _ => none

namespace Scope

def slots (s : Scope) : List Nat :=
  s.values.reverse.filterMap (·.2.slot?)

/-- The scope counts its names, which differ, and each of them has a slot of its
own behind the slots of those before it. -/
structure Filled (s : Scope) : Prop where
  distinct : s.Distinct
  count : s.values.length = s.locals
  named : ∀ name storage, (name, storage) ∈ s.values -> ∃ slot, storage = .localSlot name slot
  slots : s.slots = List.range' s.base s.locals
  room : s.nextSlot ≤ 256

end Scope

namespace ScopeStack

variable {values others : List (String × Storage)}

theorem Slotted.length_le (h : Slotted values) : values.length ≤ maxSlot := by
  cases h with
  | nil => exact Nat.zero_le _
  | cons _ hroom => exact hroom

theorem Slotted.slots (h : Slotted (values ++ others)) :
    values.reverse.filterMap (·.2.slot?) = List.range' (others.length + 1) values.length ∧
      ∀ name storage, (name, storage) ∈ values -> ∃ slot, storage = .localSlot name slot := by
  induction values with
  | nil => exact ⟨rfl, fun _ _ => by simp⟩
  | cons entry values ih =>
      cases h with
      | @cons _ text h hroom =>
          rcases ih h with ⟨hslots, hnamed⟩
          have hslot : (UInt8.ofNat ((values ++ others).length + 1)).toNat =
              others.length + 1 + values.length := by
            refine (toNat_slot hroom).trans ?_
            show (values ++ others).length + 1 = _
            rw [List.length_append]
            omega
          constructor
          · rw [List.reverse_cons, List.filterMap_append, hslots, List.length_cons,
              List.range'_1_concat]
            exact congrArg (fun slot => _ ++ [slot]) hslot
          · intro name storage hmem
            rcases List.mem_cons.mp hmem with heq | hmem
            · cases heq
              exact ⟨_, rfl⟩
            · exact hnamed name storage hmem

theorem Slotted.name_eq (h : Slotted values) {name name' text text' : String} {slot : UInt8}
    (hname : values.lookup name = some (.localSlot text slot))
    (hname' : values.lookup name' = some (.localSlot text' slot)) : name = name' := by
  rcases List.lookup_eq_some_iff.mp hname with ⟨later, earlier, hsplit, _⟩
  rcases List.lookup_eq_some_iff.mp hname' with ⟨later', earlier', hsplit', _⟩
  rcases (hsplit ▸ h).storage_eq with ⟨hstorage, hroom⟩
  rcases (hsplit' ▸ h).storage_eq with ⟨hstorage', hroom'⟩
  have hlength : earlier.length = earlier'.length := by
    cases hstorage
    have hslot := congrArg UInt8.toNat (Storage.localSlot.inj hstorage').2
    rw [toNat_slot hroom, toNat_slot hroom'] at hslot
    exact Nat.succ.inj hslot
  have hsame := (List.append_inj_right' (hsplit.symm.trans hsplit')
    (congrArg (· + 1) hlength))
  exact congrArg Prod.fst (List.cons.inj hsame).1

/-- The names below those of a scope that its slots go on from. -/
def underneath (scope : Scope) (rest : List Scope) : List (String × Storage) :=
  if scope.kind = .function then [] else frameOf rest

theorem frameOf_cons (scope : Scope) (rest : List Scope) :
    frameOf (scope :: rest) = scope.values ++ underneath scope rest := by
  rw [frameOf, underneath]
  split
  · exact (List.append_nil _).symm
  · rfl

theorem base_of_layered {scope : Scope} {rest : List Scope} (h : Layered (scope :: rest)) :
    scope.base = (underneath scope rest).length + 1 := by
  rcases h with ⟨_, _, hlocals, _, hnext⟩
  rw [Scope.nextSlot, frameOf_cons, List.length_append, hlocals] at hnext
  omega

theorem filled_of_layered {scope : Scope} {rest : List Scope} (h : Layered (scope :: rest))
    (hdistinct : scope.Distinct) : scope.Filled := by
  have hbase := base_of_layered h
  rcases h with ⟨_, _, hlocals, hslotted, hnext⟩
  have hlength := hslotted.length_le
  rw [frameOf_cons] at hslotted
  rcases hslotted.slots with ⟨hslots, hnamed⟩
  refine ⟨hdistinct, hlocals.symm, hnamed, ?_, ?_⟩
  · rw [Scope.slots, hslots, hbase, hlocals]
  · rw [hnext]
    exact Nat.succ_le_succ hlength

/-!
## What every run keeps
-/

/-- The scopes lie one behind the other, and no name is twice in one of them. -/
structure Kept (s : ScopeStack) : Prop where
  laid : s.Laid
  distinct : ∀ scope ∈ s.inner, scope.Distinct

namespace Kept

variable {s s' : ScopeStack} {name : String} {span : Span} {storage : Storage}

theorem close (h : s.Kept) : (s.perform .close).Kept := by
  rcases s with ⟨inner, bottom⟩
  cases inner with
  | nil => exact h
  | cons scope rest =>
      exact ⟨⟨h.laid.inner.1, h.laid.kind, h.laid.nextSlot, h.laid.globals⟩,
        (List.forall_mem_cons.mp h.distinct).2⟩

theorem declare (h : s.Kept) (hdeclare : s.declare name span = .ok storage s') : s'.Kept := by
  by_cases hinner : s.inner = []
  · rcases h.laid.declare_global hinner hdeclare with ⟨hlaid, _, hinner'⟩
    refine ⟨hlaid, ?_⟩
    rw [hinner']
    exact List.forall_mem_nil _
  · refine ⟨(h.laid.declare_local hinner hdeclare).1, ?_⟩
    rcases s with ⟨inner, bottom⟩
    cases inner with
    | nil => exact absurd rfl hinner
    | cons scope rest =>
        rcases declare_top rfl hdeclare with ⟨scope', hscope, rfl⟩
        rcases List.forall_mem_cons.mp h.distinct with ⟨hfirst, hrest⟩
        exact List.forall_mem_cons.mpr ⟨hfirst.declare hscope, hrest⟩

theorem perform (h : s.Kept) (action : ScopeAction) : (s.perform action).Kept := by
  cases action with
  | openBlock => exact ⟨h.laid.pushBlock.1, List.forall_mem_cons.mpr ⟨List.nodup_nil, h.distinct⟩⟩
  | openFunction =>
      exact ⟨h.laid.pushFunction.1, List.forall_mem_cons.mpr ⟨List.nodup_nil, h.distinct⟩⟩
  | close => exact h.close
  | declare name span =>
      cases hdeclare : s.declare name span with
      | ok storage s' =>
          rw [ScopeStack.perform, hdeclare]
          exact h.declare hdeclare
      | error e s' =>
          rw [perform_declare_of_error hdeclare]
          exact h
  | lookup name => exact h

theorem performAll (h : s.Kept) (actions : List ScopeAction) : (s.performAll actions).Kept := by
  induction actions generalizing s with
  | nil => exact h
  | cons action rest ih => exact ih (h.perform action)

end Kept

theorem bottom_perform (s : ScopeStack) (action : ScopeAction) :
    s.bottom.values <:+ (s.perform action).bottom.values := by
  rcases s with ⟨inner, bottom⟩
  cases action with
  | close => cases inner <;> exact List.suffix_rfl
  | declare name span =>
      cases hdeclare : declare ⟨inner, bottom⟩ name span with
      | error e s' =>
          have hsame := congrArg (·.bottom.values) (perform_declare_of_error hdeclare)
          exact ⟨[], hsame.symm⟩
      | ok storage s' =>
          rw [perform, hdeclare]
          cases inner with
          | nil =>
              rcases declare_bottom rfl hdeclare with ⟨bottom', hbottom, rfl⟩
              rcases Scope.declare_eq_ok hbottom with ⟨_, _, rfl⟩ | ⟨_, _, _, rfl⟩
              · exact List.suffix_cons _ _
              · exact List.suffix_cons _ _
          | cons scope rest =>
              rcases sameOuter_of_declare hdeclare scope rest rfl with ⟨_, rfl, _⟩
              exact List.suffix_rfl
  | openBlock | openFunction | lookup name => exact List.suffix_rfl

theorem bottom_performAll (s : ScopeStack) (actions : List ScopeAction) :
    s.bottom.values <:+ (s.performAll actions).bottom.values := by
  induction actions generalizing s with
  | nil => exact List.suffix_rfl
  | cons action rest ih => exact (s.bottom_perform action).trans (ih _)

/-!
## Scopes that are closed again
-/

section Enclosed

variable {s t : ScopeStack} {opening : ScopeAction} {inside : List ScopeAction}

theorem performAll_append (s : ScopeStack) (first second : List ScopeAction) :
    s.performAll (first ++ second) = (s.performAll first).performAll second :=
  List.foldl_append

/-- With the scope that was opened last, all that happened in it is gone. -/
theorem perform_close (hopening : opening.Opens) (h : (s.perform opening).SameOuter t) :
    t.perform .close = s := by
  cases opening with
  | openBlock =>
      rcases h _ _ rfl with ⟨top, rfl, _⟩
      rfl
  | openFunction =>
      rcases h _ _ rfl with ⟨top, rfl, _⟩
      rfl
  | close | declare _ _ | lookup _ => exact hopening.elim

theorem sameOuter_of_enclosed (h : ScopeAction.Enclosed inside) (s : ScopeStack) :
    s.SameOuter (s.performAll inside) := by
  induction h generalizing s with
  | nil => exact .refl s
  | @declare rest name span _ ih =>
      refine SameOuter.trans ?_ (ih (s.perform (.declare name span)))
      cases hdeclare : s.declare name span with
      | ok storage s' =>
          rw [perform, hdeclare]
          exact sameOuter_of_declare hdeclare
      | error e s' =>
          rw [perform_declare_of_error hdeclare]
          exact .refl s
  | lookup name _ ih => exact ih s
  | @scope opening inside rest hopening _ _ ihinside ihrest =>
      show s.SameOuter ((s.perform opening).performAll (inside ++ .close :: rest))
      rw [performAll_append]
      show s.SameOuter ((((s.perform opening).performAll inside).perform .close).performAll rest)
      rw [perform_close hopening (ihinside _)]
      exact ihrest s

/-- A scope that is opened and closed leaves no trace. -/
theorem performAll_enclosed (hopening : opening.Opens) (h : ScopeAction.Enclosed inside) :
    s.performAll (opening :: inside ++ [.close]) = s := by
  rw [performAll_append]
  exact perform_close hopening (sameOuter_of_enclosed h _)

end Enclosed

/-!
## Runs
-/

theorem kept_of_run (builtins : List Builtin) (actions : List ScopeAction) :
    ((ofBuiltins builtins).performAll actions).Kept :=
  Kept.performAll ⟨laid_ofBuiltins builtins, List.forall_mem_nil _⟩ actions

theorem Laid.suffix {s : ScopeStack} (h : s.Laid) {rest : List Scope} (hrest : rest <:+ s.inner) :
    Laid { s with inner := rest } := by
  refine ⟨?_, h.kind, h.nextSlot, h.globals⟩
  rcases hrest with ⟨above, habove⟩
  have hinner := h.inner
  rw [← habove] at hinner
  clear habove
  induction above with
  | nil => exact hinner
  | cons _ _ ih => exact ih hinner.1

theorem pop?_eq_none_iff {s : ScopeStack} : s.pop? = none ↔ s.frames.length = 1 := by
  rcases s with ⟨inner, bottom⟩
  cases inner <;> simp [pop?, frames]

theorem frames_of_pop? {s rest : ScopeStack} {scope : Scope} (h : s.pop? = some (scope, rest)) :
    s.frames = rest.frames ++ [scope] := by
  rcases s with ⟨inner, bottom⟩
  cases inner with
  | nil => cases h
  | cons first others =>
      cases h
      simp [frames]

theorem exists_suffix_of_frames {s : ScopeStack} {index : Nat} {below scope : Scope}
    (hbelow : s.frames[index]? = some below) (hscope : s.frames[index + 1]? = some scope) :
    ∃ rest, scope :: rest <:+ s.inner ∧ below = rest.headD s.bottom := by
  rcases s with ⟨inner, bottom⟩
  induction inner with
  | nil => simp [frames] at hscope
  | cons first rest ih =>
      have hframes : frames ⟨first :: rest, bottom⟩ = frames ⟨rest, bottom⟩ ++ [first] := by
        simp [frames]
      have hlength : (frames ⟨rest, bottom⟩).length = rest.length + 1 := by
        simp [frames]
      rw [hframes] at hbelow hscope
      by_cases hindex : index < rest.length
      · rw [List.getElem?_append_left (by omega)] at hbelow hscope
        rcases ih hbelow hscope with ⟨others, hothers, heq⟩
        exact ⟨others, hothers.trans (List.suffix_cons first rest), heq⟩
      · have hlast : index = rest.length := by
          have hlt := (List.getElem?_eq_some_iff.mp hscope).1
          rw [List.length_append, hlength, List.length_singleton] at hlt
          omega
        subst hlast
        rw [List.getElem?_append_right (Nat.le_of_eq hlength), hlength, Nat.sub_self] at hscope
        cases hscope
        refine ⟨rest, List.suffix_rfl, ?_⟩
        rw [List.getElem?_append_left (by omega)] at hbelow
        cases rest with
        | nil => exact (Option.some.inj hbelow).symm
        | cons next others => simpa [frames, eq_comm] using hbelow

namespace Kept

variable {s : ScopeStack}

theorem kind_iff (h : s.Kept) {index : Nat} {scope : Scope}
    (hscope : s.frames[index]? = some scope) : scope.kind = .global ↔ index = 0 := by
  cases index with
  | zero =>
      cases hscope
      exact iff_of_true h.laid.kind rfl
  | succ index =>
      have hlt := (List.getElem?_eq_some_iff.mp hscope).1
      rcases exists_suffix_of_frames
        (List.getElem?_eq_getElem (Nat.lt_of_succ_lt hlt)) hscope with ⟨rest, hsuffix, _⟩
      exact iff_of_false (h.laid.suffix hsuffix).inner.2.1 (Nat.succ_ne_zero index)

theorem frame (h : s.Kept) {index : Nat} {below scope : Scope}
    (hbelow : s.frames[index]? = some below) (hscope : s.frames[index + 1]? = some scope) :
    (scope.kind = .block -> scope.base = below.nextSlot) ∧
      (scope.kind = .function -> scope.base = 1) ∧ scope.Filled := by
  rcases exists_suffix_of_frames hbelow hscope with ⟨rest, hsuffix, rfl⟩
  have hlayered := (h.laid.suffix hsuffix).inner
  have hbase := base_of_layered hlayered
  have hbelow := (h.laid.suffix ((List.suffix_cons scope rest).trans hsuffix)).top_nextSlot
  refine ⟨?_, ?_, filled_of_layered hlayered (h.distinct scope (hsuffix.subset (by simp)))⟩
  · intro hkind
    rw [hbase, underneath, hkind, if_neg (by decide)]
    exact hbelow.symm
  · intro hkind
    rw [hbase, underneath, if_pos hkind]
    rfl

/-- Two names that can be seen at once have slots of their own. -/
theorem slot_ne (h : s.Kept) {name name' text text' : String} {slot slot' : UInt8}
    (hname : s.lookup name = some (.localSlot text slot))
    (hname' : s.lookup name' = some (.localSlot text' slot')) (hne : name ≠ name') :
    slot ≠ slot' := by
  have hlocal : ∀ name text slot, s.lookup name = some (.localSlot text slot) ->
      s.frame.lookup name = some (.localSlot text slot) := by
    intro name text slot hlookup
    rw [lookup_eq, Option.or_eq_some_iff] at hlookup
    rcases hlookup with hframe | ⟨_, hglobal⟩
    · exact hframe
    · rcases List.lookup_eq_some_iff.mp hglobal with ⟨later, earlier, hsplit, _⟩
      exact absurd rfl (h.laid.globals name _ (by simp [hsplit]) text slot)
  rintro rfl
  exact hne (h.laid.slotted.name_eq (hlocal _ _ _ hname) (hlocal _ _ _ hname'))

end Kept

/-- However a stack of scopes came about: the global scope is at the bottom and
stays there; a block goes on where the scope below it ends, and a function starts
anew; the locals of a scope fill its slots; what can be seen at once has different
slots; a declaration fails for want of a new name or of a slot only, and then
changes nothing; and a scope that is opened and closed leaves no trace. -/
theorem frames_of_run (builtins : List Builtin) (actions : List ScopeAction) :
    let s := (ofBuiltins builtins).performAll actions
    (∀ index scope, s.frames[index]? = some scope -> (scope.kind = .global ↔ index = 0)) ∧
    ((ofBuiltins builtins).bottom.values <:+ s.bottom.values ∧
      (s.pop? = none ↔ s.frames.length = 1) ∧
      ∀ scope rest, s.pop? = some (scope, rest) ->
        s.frames = rest.frames ++ [scope] ∧ scope.kind ≠ .global) ∧
    (∀ index below scope, s.frames[index]? = some below -> s.frames[index + 1]? = some scope ->
      (scope.kind = .block -> scope.base = below.nextSlot) ∧
      (scope.kind = .function -> scope.base = 1) ∧ scope.Filled) ∧
    (∀ name text slot, s.lookup name = some (.localSlot text slot) ->
      1 ≤ slot.toNat ∧ slot.toNat ≤ s.top.nextSlot - 1) ∧
    (∀ name name' text text' slot slot', s.lookup name = some (.localSlot text slot) ->
      s.lookup name' = some (.localSlot text' slot') -> name ≠ name' -> slot ≠ slot') ∧
    (∀ name span,
      ((∃ e s', s.declare name span = .error e s') ↔
        (s.top.get? name).isSome ∨ s.top.kind ≠ .global ∧ 255 < s.top.nextSlot) ∧
      ∀ e s', s.declare name span = .error e s' ->
        s' = s ∧ s.perform (.declare name span) = s) ∧
    ∀ opening inside, opening.Opens -> ScopeAction.Enclosed inside ->
      s.performAll (opening :: inside ++ [.close]) = s := by
  intro s
  have hkept : s.Kept := kept_of_run builtins actions
  refine ⟨fun _ _ => hkept.kind_iff, ⟨bottom_performAll _ actions, pop?_eq_none_iff, ?_⟩,
    fun _ _ _ => hkept.frame, ?_, fun _ _ _ _ _ _ => hkept.slot_ne, ?_,
    fun _ _ => performAll_enclosed⟩
  · intro scope rest hpop
    have hframes := frames_of_pop? hpop
    have hlast : s.frames[rest.frames.length]? = some scope := by
      rw [hframes]
      simp
    refine ⟨hframes, fun hglobal => ?_⟩
    have hzero := (hkept.kind_iff hlast).mp hglobal
    cases hzero
  · intro name text slot hlookup
    rcases hkept.laid.slot_of_lookup hlookup with ⟨hfirst, hlast⟩
    rw [hkept.laid.top_nextSlot]
    exact ⟨hfirst, Nat.le_pred_of_lt hlast⟩
  · intro name span
    constructor
    · simp only [declare_eq_error_iff, exists_eq_left]
      exact Scope.exists_declare_error_iff
    · intro e s' hdeclare
      exact ⟨(declare_eq_error_iff.mp hdeclare).1, perform_declare_of_error hdeclare⟩

end ScopeStack
end StackScript
