import StackScript.Proofs.Places
import StackScript.Proofs.SlotLayout

/-!
# Visible names

A stack of scopes is a picture of the surroundings of a place: up to the nearest
function it holds the declarations before the place, and at the bottom the
global ones over the built-in functions.  What a declaration or a use of a name
does to the stack is what the surroundings say.
-/

namespace StackScript

/-!
## Entries
-/

def Holds (R : Storage -> Identifier -> Prop) (entry : String × Storage) (d : Identifier) : Prop :=
  entry.1 = d.name ∧ R entry.2 d

def Builtin.entry (b : Builtin) : String × Storage :=
  (b.name, .builtin b.name b.arity)

section Entries

variable {R : Storage -> Identifier -> Prop} {entries : List (String × Storage)}
  {names : List Identifier}

theorem map_of_holds (h : List.Forall₂ (Holds R) entries names) :
    entries.map (·.1) = names.map (·.name) := by
  induction h with
  | nil => rfl
  | cons hfirst _ ih => rw [List.map_cons, List.map_cons, hfirst.1, ih]

theorem lookup_of_holds (h : List.Forall₂ (Holds R) entries names) (name : String) :
    Option.Rel R (entries.lookup name) (names.find? (·.name == name)) := by
  induction h with
  | nil => exact .none
  | @cons entry d entries names hfirst _ ih =>
      rcases entry with ⟨text, storage⟩
      rcases hfirst with ⟨rfl, hstorage⟩
      rw [List.lookup_cons, List.find?_cons, BEq.comm]
      cases d.name == name with
      | true => exact .some hstorage
      | false => exact ih

theorem lookup_builtins (builtins : List Builtin) (name : String) :
    (builtins.map Builtin.entry).lookup name =
      (builtins.find? (·.name == name)).map fun b => .builtin b.name b.arity := by
  induction builtins with
  | nil => rfl
  | cons b rest ih =>
      rw [List.map_cons, Builtin.entry, List.lookup_cons, List.find?_cons, BEq.comm]
      cases b.name == name with
      | true => rfl
      | false => exact ih

theorem mem_builtins_iff {builtins : List Builtin} {name : String} :
    name ∈ (builtins.reverse.map Builtin.entry).map (·.1) ↔ ∃ b ∈ builtins, b.name = name := by
  simp [Builtin.entry]

end Entries

theorem Scope.get?_eq_none_iff {s : Scope} {name : String} :
    s.get? name = none ↔ name ∉ s.values.map (·.1) := by
  rw [get?, List.lookup_eq_none_iff, List.mem_map, not_exists]
  constructor
  · rintro h entry ⟨hentry, rfl⟩
    simpa using h entry hentry
  · intro h entry hentry
    rw [bne_iff_ne]
    intro hname
    exact h entry ⟨hentry, hname.symm⟩

theorem Scope.get?_of_declare {s s' : Scope} {name : String} {span : Span} {storage : Storage}
    (h : s.declare name span = .ok storage s') :
    s.get? name = none ∧ s'.values = (name, storage) :: s.values := by
  constructor
  · unfold declare at h
    split at h
    · cases h
    · next hnew => exact Option.not_isSome_iff_eq_none.mp hnew
  · rcases declare_eq_ok h with ⟨_, _, rfl⟩ | ⟨_, _, _, rfl⟩
    · rfl
    · rfl

theorem Scope.declare_eq_error {s s' : Scope} {name : String} {span : Span} {e : ResolveError}
    (h : s.declare name span = .error e s') :
    name ∈ s.values.map (·.1) ∧ e = .duplicate name span s.kind ∨
      s.kind ≠ .global ∧ maxSlot < s.nextSlot ∧ e = .tooManyLocals name span s.nextSlot := by
  unfold declare at h
  split at h
  · next hknown =>
      cases h
      refine Or.inl ⟨?_, rfl⟩
      by_contra hnew
      rw [get?_eq_none_iff.mpr hnew] at hknown
      cases hknown
  · split at h
    · cases h
    · next hkind =>
        split at h
        · cases h
        · next hroom =>
            cases h
            exact Or.inr ⟨hkind, Nat.lt_of_not_le hroom, rfl⟩

theorem Scope.eq_of_declare_error {s s' : Scope} {name : String} {span : Span} {e : ResolveError}
    (h : s.declare name span = .error e s') : s' = s := by
  unfold declare at h
  by_cases htaken : (s.get? name).isSome
  · rw [if_pos htaken] at h
    cases h
    rfl
  rw [if_neg htaken] at h
  by_cases hkind : s.kind = .global
  · rw [if_pos hkind] at h
    cases h
  rw [if_neg hkind] at h
  by_cases hroom : s.nextSlot ≤ maxSlot
  · rw [if_pos hroom] at h
    cases h
  · rw [if_neg hroom] at h
    cases h
    rfl

/-!
## Stacks
-/

namespace ScopeStack

theorem declare_eq_error_iff {s s' : ScopeStack} {name : String} {span : Span} {e : ResolveError} :
    s.declare name span = .error e s' ↔ s' = s ∧ s.top.declare name span = .error e s.top := by
  rcases s with ⟨inner, bottom⟩
  cases inner with
  | nil =>
      simp only [declare, top, List.headD_nil]
      cases hscope : bottom.declare name span with
      | ok storage bottom' => simp
      | error e' bottom' =>
          cases Scope.eq_of_declare_error hscope
          simp [eq_comm, and_comm]
  | cons scope rest =>
      simp only [declare, top, List.headD_cons]
      cases hscope : scope.declare name span with
      | ok storage scope' => simp
      | error e' scope' =>
          cases Scope.eq_of_declare_error hscope
          simp [eq_comm, and_comm]

inductive Shows (R : Storage -> Identifier -> Prop) :
    List Scope -> List (List Identifier) -> Prop where
  | nil : Shows R [] []
  | block {scope : Scope} {rest : List Scope} {own : List Identifier}
      {outer : List (List Identifier)} (hkind : scope.kind = .block)
      (hown : List.Forall₂ (Holds R) scope.values own) (hrest : Shows R rest outer) :
      Shows R (scope :: rest) (own :: outer)
  | function {scope : Scope} {rest : List Scope} {own : List Identifier}
      (hkind : scope.kind = .function) (hown : List.Forall₂ (Holds R) scope.values own) :
      Shows R (scope :: rest) [own]

/-- The stack is that of a place with the given surroundings, in which no name
was declared twice. -/
structure Mirrors (R : Storage -> Identifier -> Prop) (builtins : List Builtin)
    (scopes : ScopeStack) (around : Surroundings) : Prop where
  laid : scopes.Laid
  inner : Shows R scopes.inner around.scopes
  bottom : ∃ values, scopes.bottom.values = values ++ builtins.reverse.map Builtin.entry ∧
    List.Forall₂ (Holds R) values around.globals
  distinct : ∀ own ∈ around.scopes, (own.map (·.name)).Nodup
  distinctGlobals : (around.globals.map (·.name)).Nodup
  notBuiltin : ∀ d ∈ around.globals, ∀ b ∈ builtins, b.name ≠ d.name

variable {R : Storage -> Identifier -> Prop}

theorem Shows.frame {inner : List Scope} {outer : List (List Identifier)}
    (h : Shows R inner outer) : List.Forall₂ (Holds R) (frameOf inner) outer.flatten := by
  induction h with
  | nil => exact .nil
  | @block scope rest own outer hkind hown _ ih =>
      rw [frameOf_block hkind rest, List.flatten_cons]
      exact List.rel_append hown ih
  | function hkind hown =>
      rw [frameOf, if_pos hkind, List.flatten_singleton]
      exact hown

theorem Shows.exists_cons {scope : Scope} {rest : List Scope} {names : List (List Identifier)}
    (h : Shows R (scope :: rest) names) :
    ∃ own outer, names = own :: outer ∧ List.Forall₂ (Holds R) scope.values own ∧
      ∀ (scope' : Scope) own', scope'.kind = scope.kind ->
        List.Forall₂ (Holds R) scope'.values own' -> Shows R (scope' :: rest) (own' :: outer) := by
  cases h with
  | @block _ _ own outer hkind hown hrest =>
      exact ⟨own, outer, rfl, hown, fun _ _ hkind' hown' =>
        .block (hkind'.trans hkind) hown' hrest⟩
  | @function _ _ own hkind hown =>
      exact ⟨own, [], rfl, hown, fun _ _ hkind' hown' => .function (hkind'.trans hkind) hown'⟩

theorem mirrors_ofBuiltins (R : Storage -> Identifier -> Prop) (builtins : List Builtin) :
    Mirrors R builtins (.ofBuiltins builtins) {} where
  laid := laid_ofBuiltins builtins
  inner := .nil
  bottom := by
    refine ⟨[], ?_, .nil⟩
    rw [List.nil_append, List.map_reverse, ← List.append_nil (builtins.map _).reverse]
    exact List.foldl_flip_cons_eq_append
  distinct := by nofun
  distinctGlobals := List.nodup_nil
  notBuiltin := by nofun

namespace Mirrors

variable {builtins : List Builtin} {scopes after : ScopeStack} {around : Surroundings}

theorem pushBlock (h : Mirrors R builtins scopes around) :
    Mirrors R builtins scopes.pushBlock around.inBlock where
  laid := h.laid.pushBlock.1
  inner := .block rfl .nil h.inner
  bottom := h.bottom
  distinct := List.forall_mem_cons.mpr ⟨List.nodup_nil, h.distinct⟩
  distinctGlobals := h.distinctGlobals
  notBuiltin := h.notBuiltin

theorem pushFunction (h : Mirrors R builtins scopes around) :
    Mirrors R builtins scopes.pushFunction around.inFunction where
  laid := h.laid.pushFunction.1
  inner := .function rfl .nil
  bottom := h.bottom
  distinct := List.forall_mem_singleton.mpr List.nodup_nil
  distinctGlobals := h.distinctGlobals
  notBuiltin := h.notBuiltin

theorem inner_eq_nil_iff (h : Mirrors R builtins scopes around) :
    scopes.inner = [] ↔ around.scopes = [] := by
  have hinner := h.inner
  generalize scopes.inner = inner at hinner ⊢
  generalize around.scopes = outer at hinner ⊢
  cases hinner <;> simp

theorem height_eq (h : Mirrors R builtins scopes around) : scopes.height = around.slot :=
  congrArg (· + 1) h.inner.frame.length_eq

/-!
## Uses
-/

/-- What the stack finds is what the surroundings find, and else the built-in
function that was listed last. -/
theorem lookup_eq (h : Mirrors R builtins scopes around) (name : String) :
    ∃ found, Option.Rel R found (around.find? name) ∧
      scopes.lookup name = found.or
        ((builtins.reverse.find? (·.name == name)).map fun b => .builtin b.name b.arity) := by
  rcases h.bottom with ⟨values, hbottom, hvalues⟩
  refine ⟨(scopes.frame ++ values).lookup name,
    lookup_of_holds (List.rel_append h.inner.frame hvalues) name, ?_⟩
  rw [ScopeStack.lookup_eq, Scope.get?, hbottom, List.lookup_append, List.lookup_append,
    lookup_builtins, Option.or_assoc]

theorem lookup_of_find? (h : Mirrors R builtins scopes around) {name : String} {d : Identifier}
    (hfind : around.find? name = some d) :
    ∃ storage, scopes.lookup name = some storage ∧ R storage d := by
  rcases h.lookup_eq name with ⟨found, hfound, hlookup⟩
  rw [hfind] at hfound
  cases hfound with
  | some hstorage => exact ⟨_, hlookup, hstorage⟩

theorem lookup_of_not_find? (h : Mirrors R builtins scopes around) {name : String}
    (hfind : around.find? name = none) :
    scopes.lookup name =
      (builtins.reverse.find? (·.name == name)).map fun b => .builtin b.name b.arity := by
  rcases h.lookup_eq name with ⟨found, hfound, hlookup⟩
  rw [hfind] at hfound
  cases hfound
  exact hlookup

/-!
## Declarations
-/

/-- A new name that was taken is neither in the innermost scope nor, outside of
all blocks, that of a built-in function. -/
theorem declare (h : Mirrors R builtins scopes around) {d : Identifier} {storage : Storage}
    (hdeclare : scopes.declare d.name d.span = .ok storage after) (hstorage : R storage d) :
    Mirrors R builtins after (around.after [d]) := by
  rcases scopes with ⟨inner, bottom⟩
  rcases around with ⟨names, globals⟩
  have hinner : Shows R inner names := h.inner
  cases inner with
  | nil =>
      cases hinner
      have hlaid := (h.laid.declare_global rfl hdeclare).1
      rcases ScopeStack.declare_bottom rfl hdeclare with ⟨bottom', hbottom, rfl⟩
      rcases Scope.get?_of_declare hbottom with ⟨hnew, hvalues⟩
      rcases h.bottom with ⟨values, hsplit, hglobals⟩
      rw [Scope.get?_eq_none_iff, hsplit, List.map_append, List.mem_append, not_or,
        map_of_holds hglobals] at hnew
      rcases hnew with ⟨hnew, hnewBuiltin⟩
      refine ⟨hlaid, .nil, ⟨(d.name, storage) :: values, ?_, ?_⟩, h.distinct, ?_, ?_⟩
      · rw [hvalues, hsplit, List.cons_append]
      · exact .cons ⟨rfl, hstorage⟩ hglobals
      · exact List.nodup_cons.mpr ⟨hnew, h.distinctGlobals⟩
      · refine List.forall_mem_cons.mpr ⟨?_, h.notBuiltin⟩
        intro b hb hname
        exact hnewBuiltin (hname ▸ mem_builtins_iff.mpr ⟨b, hb, rfl⟩)
  | cons scope rest =>
      rcases hinner.exists_cons with ⟨own, outer, rfl, hown, hreplace⟩
      have hlaid := (h.laid.declare_local (List.cons_ne_nil _ _) hdeclare).1
      rcases ScopeStack.declare_top rfl hdeclare with ⟨scope', hscope, rfl⟩
      rcases Scope.get?_of_declare hscope with ⟨hnew, hvalues⟩
      rw [Scope.get?_eq_none_iff, map_of_holds hown] at hnew
      rcases List.forall_mem_cons.mp h.distinct with ⟨hdistinct, houter⟩
      refine ⟨hlaid, hreplace _ _ (Scope.kind_of_declare hscope) ?_, h.bottom, ?_,
        h.distinctGlobals, h.notBuiltin⟩
      · rw [hvalues]
        exact .cons ⟨rfl, hstorage⟩ hown
      · exact List.forall_mem_cons.mpr ⟨List.nodup_cons.mpr ⟨hnew, hdistinct⟩, houter⟩

theorem declare_error (h : Mirrors R builtins scopes around) {name : String} {span : Span}
    {e : ResolveError} (hdeclare : scopes.declare name span = .error e after) :
    (e = .duplicate name span scopes.top.kind ∧ (name ∈ around.own.map (·.name) ∨
      around.scopes = [] ∧ ∃ b ∈ builtins, b.name = name)) ∨
    (e = .tooManyLocals name span around.slot ∧ around.scopes ≠ [] ∧ 255 < around.slot) := by
  have htop : scopes.top.nextSlot = around.slot := h.laid.top_nextSlot.trans h.height_eq
  have hscope := (ScopeStack.declare_eq_error_iff.mp hdeclare).2
  rcases scopes with ⟨inner, bottom⟩
  rcases around with ⟨names, globals⟩
  have hinner : Shows R inner names := h.inner
  cases inner with
  | nil =>
      cases hinner
      rcases Scope.declare_eq_error hscope with ⟨hknown, rfl⟩ | ⟨hkind, _⟩
      · rcases h.bottom with ⟨values, hsplit, hglobals⟩
        change name ∈ bottom.values.map (·.1) at hknown
        rw [hsplit, List.map_append, List.mem_append, map_of_holds hglobals,
          mem_builtins_iff] at hknown
        exact Or.inl ⟨rfl, hknown.imp_right fun hb => ⟨rfl, hb⟩⟩
      · exact absurd h.laid.kind hkind
  | cons scope rest =>
      rcases hinner.exists_cons with ⟨own, outer, rfl, hown, _⟩
      rcases Scope.declare_eq_error hscope with ⟨hknown, rfl⟩ | ⟨_, hroom, rfl⟩
      · change name ∈ scope.values.map (·.1) at hknown
        rw [map_of_holds hown] at hknown
        exact Or.inl ⟨rfl, Or.inl hknown⟩
      · rw [← htop]
        exact Or.inr ⟨rfl, List.cons_ne_nil _ _, hroom⟩

theorem own_nodup (h : Mirrors R builtins scopes around) : (around.own.map (·.name)).Nodup := by
  have hdistinct := h.distinct
  unfold Surroundings.own
  cases hscopes : around.scopes with
  | nil => exact h.distinctGlobals
  | cons own outer =>
      rw [hscopes] at hdistinct
      exact hdistinct own List.mem_cons_self

end Mirrors
end ScopeStack

/-!
## Resolved statements
-/

namespace Resolution

open ScopeStack

section Mirrored

variable {R : Storage -> Identifier -> Prop} {r : Resolution}
  (hR : ∀ storage d, r.storage? d = some storage -> R storage d)
  {builtins : List Builtin} {scopes after : ScopeStack} {around : Surroundings}

include hR

theorem mirrors_of_declares {d : Identifier} (h : r.Declares scopes d after)
    (hmirrors : Mirrors R builtins scopes around) :
    Mirrors R builtins after (around.after [d]) := by
  rcases h with ⟨storage, hdeclare, hstorage⟩
  exact hmirrors.declare hdeclare (hR storage d hstorage)

theorem mirrors_of_declaresAll {names : List Identifier} (h : r.DeclaresAll scopes names after)
    (hmirrors : Mirrors R builtins scopes around) :
    Mirrors R builtins after (around.after names) := by
  induction h generalizing around with
  | nil =>
      rw [Surroundings.after_nil]
      exact hmirrors
  | @cons _ _ _ name rest hname _ ih =>
      rw [← List.singleton_append, Surroundings.after_append]
      exact ih (mirrors_of_declares hR hname hmirrors)

theorem mirrors_of_resolvesStmt {s : Stmt} (h : r.ResolvesStmt scopes s after)
    (hmirrors : Mirrors R builtins scopes around) :
    Mirrors R builtins after (around.after s.declared) := by
  cases h with
  | declare _ hname => exact mirrors_of_declares hR hname hmirrors
  | function hname _ _ => exact mirrors_of_declares hR hname hmirrors
  | _ => simpa [Stmt.declared] using hmirrors

end Mirrored

theorem mirrors_of_resolvesAll {R : Storage -> Identifier -> Prop} {r : Resolution}
    (hR : ∀ storage d, r.storage? d = some storage -> R storage d) {builtins : List Builtin}
    {scopes after : ScopeStack} {around : Surroundings} {statements : List Stmt} :
    r.ResolvesAll scopes statements after -> Mirrors R builtins scopes around ->
      Mirrors R builtins after (around.after (declaredBy statements))
  | .nil, hmirrors => by
      rw [declaredBy, List.flatMap_nil, Surroundings.after_nil]
      exact hmirrors
  | .cons hfirst hrest, hmirrors => by
      rw [declaredBy_cons, Surroundings.after_append]
      exact mirrors_of_resolvesAll hR hrest (mirrors_of_resolvesStmt hR hfirst hmirrors)

end Resolution
end StackScript
