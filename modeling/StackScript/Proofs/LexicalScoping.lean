import StackScript.Proofs.NameFaults

/-!
# Lexical scoping

A program can be resolved exactly when its names make sense, and then each name
stands for what lexical scoping says.
-/

namespace StackScript

open ScopeStack

namespace Resolution

variable {r : Resolution} {scopes after : ScopeStack}

/-!
## Parts of what is resolved
-/

mutual

theorem uses_of_mem_expr : ∀ (e : Expr) {x : Identifier}, r.ResolvesExpr scopes e ->
    x ∈ e.references -> r.Uses scopes x
  | .call callee arguments _, x, h, hx => by
      rw [ResolvesExpr] at h
      rw [Expr.references, List.mem_append] at hx
      rcases hx with hx | hx
      · exact uses_of_mem_expr callee h.1 hx
      · exact uses_of_mem_exprs arguments h.2 hx
  | .unary _ operand _, x, h, hx => by
      rw [ResolvesExpr] at h
      rw [Expr.references] at hx
      exact uses_of_mem_expr operand h hx
  | .binary _ left right _, x, h, hx => by
      rw [ResolvesExpr] at h
      rw [Expr.references, List.mem_append] at hx
      rcases hx with hx | hx
      · exact uses_of_mem_expr left h.1 hx
      · exact uses_of_mem_expr right h.2 hx
  | .string _, x, _, hx | .number _, x, _, hx | .bool _, x, _, hx | .null, x, _, hx => by
      rw [Expr.references] at hx
      cases hx
  | .ident name, x, h, hx => by
      rw [ResolvesExpr] at h
      rw [Expr.references, List.mem_singleton] at hx
      rw [hx]
      exact h
  | .field receiver _, x, h, hx => by
      rw [ResolvesExpr] at h
      rw [Expr.references] at hx
      exact uses_of_mem_expr receiver h hx

theorem uses_of_mem_exprs : ∀ (es : List Expr) {x : Identifier}, r.ResolvesExprs scopes es ->
    x ∈ referencesOfAll es -> r.Uses scopes x
  | [], x, _, hx => by
      rw [referencesOfAll] at hx
      cases hx
  | e :: rest, x, h, hx => by
      rw [ResolvesExprs] at h
      rw [referencesOfAll, List.mem_append] at hx
      rcases hx with hx | hx
      · exact uses_of_mem_expr e h.1 hx
      · exact uses_of_mem_exprs rest h.2 hx

end

theorem resolved_of_mem_branch {branches : List Branch} {branch : Branch} :
    r.ResolvesBranches scopes branches -> branch ∈ branches ->
      r.ResolvesExpr scopes branch.condition ∧ r.ResolvesBlock scopes branch.body
  | .nil, hbranch => absurd hbranch List.not_mem_nil
  | .cons hcondition hbody hrest, hbranch => by
      rcases List.mem_cons.mp hbranch with rfl | hbranch
      · exact ⟨hcondition, hbody⟩
      · exact resolved_of_mem_branch hrest hbranch

theorem uses_of_mem_references {s : Stmt} {x : Identifier} (h : r.ResolvesStmt scopes s after)
    (hx : x ∈ s.references) : r.Uses scopes x := by
  cases h with
  | declare hvalue _ => exact uses_of_mem_expr _ hvalue hx
  | assign htarget hvalue =>
      rcases List.mem_cons.mp hx with rfl | hx
      · exact htarget
      · exact uses_of_mem_expr _ hvalue hx
  | assignField hreceiver hvalue =>
      rcases List.mem_append.mp hx with hx | hx
      · exact uses_of_mem_expr _ hreceiver hx
      · exact uses_of_mem_expr _ hvalue hx
  | function _ _ _ => cases hx
  | choose hbranches _ =>
      rcases List.mem_flatMap.mp hx with ⟨branch, hbranch, hx⟩
      exact uses_of_mem_expr _ (resolved_of_mem_branch hbranches hbranch).1 hx
  | loop hcondition _ => exact uses_of_mem_expr _ hcondition hx
  | giveBack hvalue => exact uses_of_mem_expr _ hvalue hx
  | evaluate hvalue => exact uses_of_mem_expr _ hvalue hx
  | block _ => cases hx

theorem resolvesBlock_of_mem_blocks {s : Stmt} {block : Block}
    (h : r.ResolvesStmt scopes s after) (hblock : block ∈ s.blocks) :
    r.ResolvesBlock scopes block := by
  cases h with
  | choose hbranches hotherwise =>
      rcases List.mem_append.mp hblock with hblock | hblock
      · rcases List.mem_map.mp hblock with ⟨branch, hbranch, rfl⟩
        exact (resolved_of_mem_branch hbranches hbranch).2
      · cases hotherwise with
        | none => cases hblock
        | some hbody =>
            cases List.mem_singleton.mp hblock
            exact hbody
  | loop _ hbody =>
      cases List.mem_singleton.mp hblock
      exact hbody
  | block hbody =>
      cases List.mem_singleton.mp hblock
      exact hbody
  | _ => cases hblock

theorem declares_of_mem_declared {s : Stmt} {d : Identifier} (h : r.ResolvesStmt scopes s after)
    (hd : d ∈ s.declared) : r.Declares scopes d after := by
  cases h with
  | declare _ hname =>
      cases List.mem_singleton.mp hd
      exact hname
  | function hname _ _ =>
      cases List.mem_singleton.mp hd
      exact hname
  | _ => cases hd

theorem exists_resolvesStmt_of_split {before rest : List Stmt} {s : Stmt}
    (h : r.ResolvesAll scopes (before ++ s :: rest) after) :
    ∃ middle next, r.ResolvesAll scopes before middle ∧ r.ResolvesStmt middle s next := by
  induction before generalizing scopes with
  | nil =>
      cases h with
      | cons hs _ => exact ⟨scopes, _, .nil, hs⟩
  | cons first before ih =>
      cases h with
      | cons hfirst hbefore =>
          rcases ih hbefore with ⟨middle, next, hmiddle, hs⟩
          exact ⟨middle, next, .cons hfirst hmiddle, hs⟩

theorem exists_declares_of_split {before rest : List Identifier} {d : Identifier}
    (h : r.DeclaresAll scopes (before ++ d :: rest) after) :
    ∃ middle next, r.DeclaresAll scopes before middle ∧ r.Declares middle d next := by
  induction before generalizing scopes with
  | nil =>
      cases h with
      | cons hd _ => exact ⟨scopes, _, .nil, hd⟩
  | cons first before ih =>
      cases h with
      | cons hfirst hbefore =>
          rcases ih hbefore with ⟨middle, next, hmiddle, hd⟩
          exact ⟨middle, next, .cons hfirst hmiddle, hd⟩

/-!
## What is resolved at a place
-/

/-- The stack of a place, with the storage that the resolution knows for each
name in it. -/
abbrev Known (r : Resolution) (builtins : List Builtin) (scopes : ScopeStack)
    (around : Surroundings) : Prop :=
  Mirrors (fun storage d => r.storage? d = some storage) builtins scopes around

section Places

variable {program : Program} {builtins : List Builtin} {around : Surroundings}
  (hprogram : r.ResolvesAll (.ofBuiltins builtins) program.statements after)

include hprogram

theorem exists_known_of_stands {s : Stmt} (h : program.Stands around s) :
    ∃ scopes next, r.Known builtins scopes around ∧ r.ResolvesStmt scopes s next := by
  induction h with
  | outside hsplit =>
      rw [hsplit] at hprogram
      rcases exists_resolvesStmt_of_split hprogram with ⟨middle, next, hbefore, hs⟩
      have hstart := mirrors_ofBuiltins (fun storage d => r.storage? d = some storage) builtins
      exact ⟨middle, next, mirrors_of_resolvesAll (fun _ _ h => h) hbefore hstart, hs⟩
  | inBlock _ hblock hsplit ih =>
      rcases ih with ⟨scopes, _, hknown, houter⟩
      cases resolvesBlock_of_mem_blocks houter hblock with
      | braces hbody _ =>
          dsimp only at hsplit
          rw [hsplit] at hbody
          rcases exists_resolvesStmt_of_split hbody with ⟨middle, next, hbefore, hs⟩
          exact ⟨middle, next,
            mirrors_of_resolvesAll (fun _ _ h => h) hbefore hknown.pushBlock, hs⟩
  | inFunction _ hsplit ih =>
      rcases ih with ⟨scopes, _, hknown, houter⟩
      cases houter with
      | function hname hparams hbody =>
          rw [hsplit] at hbody
          rcases exists_resolvesStmt_of_split hbody with ⟨middle, next, hbefore, hs⟩
          have hopened := mirrors_of_declaresAll (fun _ _ h => h) hparams
            (mirrors_of_declares (fun _ _ h => h) hname hknown).pushFunction
          rw [Surroundings.after_append]
          exact ⟨middle, next, mirrors_of_resolvesAll (fun _ _ h => h) hbefore hopened, hs⟩

theorem exists_known_of_refersAt {x : Identifier} (h : program.RefersAt around x) :
    ∃ scopes, r.Known builtins scopes around ∧ r.Uses scopes x := by
  cases h with
  | statement hstands hx =>
      rcases exists_known_of_stands hprogram hstands with ⟨scopes, _, hknown, hs⟩
      exact ⟨scopes, hknown, uses_of_mem_references hs hx⟩

theorem exists_known_of_declaresAt {d : Identifier} (h : program.DeclaresAt around d) :
    ∃ scopes next, r.Known builtins scopes around ∧ r.Declares scopes d next := by
  cases h with
  | statement hstands hd =>
      rcases exists_known_of_stands hprogram hstands with ⟨scopes, next, hknown, hs⟩
      exact ⟨scopes, next, hknown, declares_of_mem_declared hs hd⟩
  | parameter hstands hsplit =>
      rcases exists_known_of_stands hprogram hstands with ⟨scopes, _, hknown, hs⟩
      cases hs with
      | function hname hparams _ =>
          rw [hsplit] at hparams
          rcases exists_declares_of_split hparams with ⟨middle, next, hbefore, hd⟩
          exact ⟨middle, next, mirrors_of_declaresAll (fun _ _ h => h) hbefore
            (mirrors_of_declares (fun _ _ h => h) hname hknown).pushFunction, hd⟩

theorem exists_known_of_block {s : Stmt} {block : Block} (hstands : program.Stands around s)
    (hblock : block ∈ s.blocks) :
    ∃ (scopes : ScopeStack) (scope : Scope),
      r.Known builtins { scopes with inner := scope :: scopes.inner }
        (around.inBlock.after (declaredBy block.statements)) ∧
      r.blockSize? block.id = some scope.locals := by
  rcases exists_known_of_stands hprogram hstands with ⟨scopes, _, hknown, hs⟩
  cases resolvesBlock_of_mem_blocks hs hblock with
  | @braces _ scope _ _ hbody hsize =>
      exact ⟨scopes, scope, mirrors_of_resolvesAll (fun _ _ h => h) hbody hknown.pushBlock, hsize⟩

theorem exists_known_of_hasScope {names : List Identifier} (h : program.HasScope names) :
    ∃ scopes inside, r.Known builtins scopes inside ∧ inside.own = names.reverse := by
  cases h with
  | global =>
      have hstart := mirrors_ofBuiltins (fun storage d => r.storage? d = some storage) builtins
      refine ⟨after, _, mirrors_of_resolvesAll (fun _ _ h => h) hprogram hstart, ?_⟩
      rw [Surroundings.own_after]
      exact List.append_nil _
  | block hstands hblock =>
      rcases exists_known_of_block hprogram hstands hblock with ⟨scopes, scope, hknown, _⟩
      refine ⟨_, _, hknown, ?_⟩
      rw [Surroundings.own_after]
      exact List.append_nil _
  | function hstands =>
      rcases exists_known_of_stands hprogram hstands with ⟨scopes, _, hknown, hs⟩
      cases hs with
      | function hname hparams hbody =>
          have hopened := mirrors_of_declaresAll (fun _ _ h => h) hparams
            (mirrors_of_declares (fun _ _ h => h) hname hknown).pushFunction
          refine ⟨_, _, mirrors_of_resolvesAll (fun _ _ h => h) hbody hopened, ?_⟩
          rw [← Surroundings.after_append, Surroundings.own_after]
          exact List.append_nil _

end Places

end Resolution

/-!
## Programs
-/

namespace Program

open Resolution

section Resolved

variable {program : Program} {builtins : List Builtin} {r : Resolution} {after : ScopeStack}
  (hprogram : r.ResolvesAll (.ofBuiltins builtins) program.statements after)

include hprogram

theorem wellScoped_of_resolvesAll : program.WellScoped builtins where
  declared around x hplace := by
    rcases exists_known_of_refersAt hprogram hplace with ⟨scopes, hknown, _, hlookup, _⟩
    cases hfind : around.find? x.name with
    | some d => exact Or.inl ⟨d, rfl⟩
    | none =>
        rw [hknown.lookup_of_not_find? hfind, Option.map_eq_some_iff] at hlookup
        rcases hlookup with ⟨b, hb, _⟩
        refine Or.inr ⟨b, List.mem_reverse.mp (List.mem_of_find?_eq_some hb), ?_⟩
        have hname := List.find?_some hb
        exact beq_iff_eq.mp hname
  distinct names hscope := by
    rcases exists_known_of_hasScope hprogram hscope with ⟨scopes, inside, hknown, hown⟩
    have hdistinct := hknown.own_nodup
    rw [hown, List.map_reverse] at hdistinct
    exact (List.reverse_perm _).nodup_iff.mp hdistinct
  notBuiltin d hd := by
    have hstart := mirrors_ofBuiltins (fun storage d => r.storage? d = some storage) builtins
    apply (mirrors_of_resolvesAll (fun _ _ h => h) hprogram hstart).notBuiltin
    exact List.mem_append_left _ (List.mem_reverse.mpr hd)
  room around d hplace hinner := by
    rcases exists_known_of_declaresAt hprogram hplace with ⟨scopes, _, hknown, _, hdeclare, _⟩
    have hscopes : scopes.inner ≠ [] := mt hknown.inner_eq_nil_iff.mp hinner
    rcases hknown.laid.declare_local hscopes hdeclare with ⟨_, hroom, _⟩
    rw [← hknown.height_eq]
    exact hroom

theorem lexical_of_resolvesAll : program.Lexical builtins r := by
  have hglobal : ∀ around d, program.DeclaresAt around d -> around.scopes = [] ->
      r.storage? d = some (.globalName d.name) := by
    intro around d hplace houtside
    rcases exists_known_of_declaresAt hprogram hplace with
      ⟨scopes, _, hknown, storage, hdeclare, hstorage⟩
    have hscopes := hknown.inner_eq_nil_iff.mpr houtside
    rcases hknown.laid.declare_global hscopes hdeclare with ⟨_, rfl, _⟩
    exact hstorage
  have hlocal : ∀ around d, program.DeclaresAt around d -> around.scopes ≠ [] ->
      ∃ slot, r.storage? d = some (.localSlot d.name slot) ∧ slot.toNat = around.slot := by
    intro around d hplace hinner
    rcases exists_known_of_declaresAt hprogram hplace with
      ⟨scopes, _, hknown, storage, hdeclare, hstorage⟩
    have hscopes : scopes.inner ≠ [] := mt hknown.inner_eq_nil_iff.mp hinner
    rcases hknown.laid.declare_local hscopes hdeclare with ⟨_, hroom, rfl, _⟩
    refine ⟨_, hstorage, ?_⟩
    rw [toNat_slot hroom, ← hknown.height_eq]
    rfl
  refine ⟨hglobal, hlocal, ?_, ?_, ?_, ?_⟩
  · intro around x d hplace hfind
    rcases exists_known_of_refersAt hprogram hplace with ⟨scopes, hknown, storage, hlookup, hx⟩
    rcases hknown.lookup_of_find? hfind with ⟨storage', hlookup', hd⟩
    cases hlookup.symm.trans hlookup'
    exact ⟨storage, hd, hx⟩
  · intro around x hplace hfind
    rcases exists_known_of_refersAt hprogram hplace with ⟨scopes, hknown, storage, hlookup, hx⟩
    rw [hknown.lookup_of_not_find? hfind, Option.map_eq_some_iff] at hlookup
    rcases hlookup with ⟨b, hb, rfl⟩
    exact ⟨b, hb, hx⟩
  · intro x hx
    rcases occurs_of_mem_bindings hx with ⟨around, hplace | hplace⟩
    · rcases exists_known_of_refersAt hprogram hplace with ⟨_, _, storage, _, hstorage⟩
      exact ⟨storage, hstorage⟩
    · rcases exists_known_of_declaresAt hprogram hplace with ⟨_, _, _, storage, _, hstorage⟩
      exact ⟨storage, hstorage⟩
  · intro around s block hstands hblock
    rcases exists_known_of_block hprogram hstands hblock with ⟨scopes, scope, hknown, hsize⟩
    rcases hknown.inner.exists_cons with ⟨own, outer, hnames, hown, _⟩
    have hlocals : scope.locals = scope.values.length := hknown.laid.inner.2.2.1
    have hblockNames : own = (declaredBy block.statements).reverse ++ [] :=
      (List.cons.inj hnames).1.symm
    rw [hsize, hlocals, hown.length_eq, hblockNames]
    simp

end Resolved

/-- Resolution is lexical scoping: it succeeds exactly when the names of the
program make sense, and gives each of them what it stands for. -/
theorem resolve_lexical (program : Program) (builtins : List Builtin)
    (hnames : (program.bindings.map (·.id)).Nodup) (hblocks : program.blocks.Nodup) :
    ((∃ r, program.resolve builtins = .ok r) ↔ program.WellScoped builtins) ∧
      ∀ r, program.resolve builtins = .ok r -> program.Lexical builtins r := by
  refine ⟨⟨?_, ?_⟩, ?_⟩
  · rintro ⟨r, h⟩
    rcases resolvesAll_of_resolve h hblocks with ⟨after, hprogram⟩
    exact wellScoped_of_resolvesAll hprogram
  · intro hscoped
    cases h : program.resolve builtins with
    | ok r => exact ⟨r, rfl⟩
    | error e => exact absurd hscoped (faulty_of_resolve hnames h).not_wellScoped
  · intro r h
    rcases resolvesAll_of_resolve h hblocks with ⟨after, hprogram⟩
    exact lexical_of_resolvesAll hprogram

/-- A parameter hides a global of its name, and a local of a block hides both,
though not in its own first value. -/
def shadowing : Program where
  statements :=
    [.declare ⟨0, "x", ⟨1, 5⟩⟩ (.number 1),
      .function ⟨1, "f", ⟨2, 4⟩⟩ [⟨2, "x", ⟨2, 6⟩⟩]
        [.block
          { id := 0
            statements :=
              [.declare ⟨3, "x", ⟨3, 9⟩⟩ (.ident ⟨4, "x", ⟨3, 13⟩⟩),
                .giveBack (.ident ⟨5, "x", ⟨4, 12⟩⟩) ⟨4, 5⟩] }],
      .evaluate (.ident ⟨6, "x", ⟨6, 1⟩⟩)]

theorem resolve_lexical_shadowing :
    (shadowing.bindings.map (·.id)).Nodup ∧ shadowing.blocks.Nodup ∧
      shadowing.WellScoped [] ∧ (∃ r, shadowing.resolve [] = .ok r ∧ shadowing.Lexical [] r) ∧
      (shadowing.resolve []).toOption.map (·.identifiers.toList) =
        some [(0, .globalName "x"), (1, .globalName "f"), (2, .localSlot "x" 1),
          (3, .localSlot "x" 2), (4, .localSlot "x" 1), (5, .localSlot "x" 2),
          (6, .globalName "x")] := by
  have hnames : (shadowing.bindings.map (·.id)).Nodup := by decide +kernel
  have hblocks : shadowing.blocks.Nodup := by decide +kernel
  have hlexical := resolve_lexical shadowing [] hnames hblocks
  have hresolve : ∃ r, shadowing.resolve [] = .ok r ∧ shadowing.Lexical [] r :=
    exists_ok_of_map (fun _ => ()) (y := ()) (by decide +kernel) fun r hr _ => hlexical.2 r hr
  rcases hresolve with ⟨r, hr, hparts⟩
  exact ⟨hnames, hblocks, hlexical.1.mp ⟨r, hr⟩, ⟨r, hr, hparts⟩, by decide +kernel⟩

end Program
end StackScript
