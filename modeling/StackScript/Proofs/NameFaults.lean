import StackScript.Proofs.VisibleNames

/-!
# Faults of names

Why a resolution fails: at some place of the program a name is used that cannot
be seen, or declared a second time, or needs a slot that cannot be addressed.
That an occurrence is resolved twice is no reason, since the walk through the
program comes to each of them once.
-/

namespace StackScript

open ScopeStack

inductive Program.Faulty (program : Program) (builtins : List Builtin) : ResolveError -> Prop where
  | undeclared {around : Surroundings} {x : Identifier} (hplace : program.RefersAt around x)
      (hfind : around.find? x.name = none) (hbuiltin : ∀ b ∈ builtins, b.name ≠ x.name) :
      Faulty program builtins (.undeclared x.name x.span)
  | duplicate {around : Surroundings} {d : Identifier} (hplace : program.DeclaresAt around d)
      (hknown : d.name ∈ around.own.map (·.name) ∨
        around.scopes = [] ∧ ∃ b ∈ builtins, b.name = d.name) (kind : ScopeKind) :
      Faulty program builtins (.duplicate d.name d.span kind)
  | tooManyLocals {around : Surroundings} {d : Identifier} (hplace : program.DeclaresAt around d)
      (hinner : around.scopes ≠ []) (hroom : 255 < around.slot) :
      Faulty program builtins (.tooManyLocals d.name d.span around.slot)

theorem Program.Faulty.not_wellScoped {program : Program} {builtins : List Builtin}
    {e : ResolveError} (h : program.Faulty builtins e) : ¬ program.WellScoped builtins := by
  intro hscoped
  cases h with
  | undeclared hplace hfind hbuiltin =>
      rcases hscoped.declared _ _ hplace with ⟨d, hd⟩ | ⟨b, hb, hname⟩
      · rw [hfind] at hd
        cases hd
      · exact hbuiltin b hb hname
  | duplicate hplace hknown _ =>
      rcases hplace.hasScope with ⟨later, hscope, hglobal⟩
      rcases hknown with hknown | ⟨houtside, b, hb, hname⟩
      · have hdistinct := hscoped.distinct _ hscope
        rw [List.map_append, List.nodup_append, List.map_reverse] at hdistinct
        exact hdistinct.2.2 _ (List.mem_reverse.mpr hknown) _ List.mem_cons_self rfl
      · refine hscoped.notBuiltin _ ?_ b hb hname
        rw [hglobal houtside]
        simp
  | tooManyLocals hplace hinner hroom =>
      exact Nat.not_lt.mpr (hscoped.room _ _ hplace hinner) hroom

namespace Resolver

/-!
## Occurrences still to come
-/

structure Awaits (r : Resolver) (names : List Identifier) : Prop where
  distinct : (names.map (·.id)).Nodup
  fresh : ∀ x ∈ names, r.found.identifiers.contains x.id = false

variable {r : Resolver} {x : Identifier} {names more : List Identifier}

theorem Awaits.perm {names' : List Identifier} (h : r.Awaits names) (hperm : names.Perm names') :
    r.Awaits names' where
  distinct := (hperm.map _).nodup_iff.mp h.distinct
  fresh y hy := h.fresh y (hperm.mem_iff.mpr hy)

theorem Awaits.of_identifiers {r' : Resolver} (h : r.Awaits names)
    (hfound : r'.found.identifiers = r.found.identifiers) : r'.Awaits names where
  distinct := h.distinct
  fresh := hfound ▸ h.fresh

theorem identifiers_closeFunction (r : Resolver) :
    r.closeFunction.found.identifiers = r.found.identifiers := by
  unfold closeFunction
  cases r.scopes.pop? <;> rfl

theorem identifiers_closeBlock (r : Resolver) (id : BlockId) :
    (r.closeBlock id).found.identifiers = r.found.identifiers := by
  unfold closeBlock
  cases r.scopes.pop? <;> rfl

theorem record_of_awaits (h : r.Awaits (x :: more)) (storage : Storage) :
    ∃ r', r.record x storage = .ok r' ∧ r'.Awaits more := by
  rcases List.nodup_cons.mp h.distinct with ⟨hx, hdistinct⟩
  rcases List.forall_mem_cons.mp h.fresh with ⟨hnew, hfresh⟩
  refine ⟨_, if_neg ?_, hdistinct, ?_⟩
  · rw [hnew]
    exact Bool.false_ne_true
  · intro y hy
    have hne : x.id ≠ y.id := fun heq => hx (List.mem_map.mpr ⟨y, hy, heq.symm⟩)
    simp [hfresh y hy, hne]

/-!
## Walks
-/

abbrev Visible (builtins : List Builtin) (r : Resolver) (around : Surroundings) : Prop :=
  Mirrors (fun _ _ => True) builtins r.scopes around

/-- The step leads from one place, with its occurrences still to come, to
another, or it meets a fault of the program. -/
def Walks (program : Program) (builtins : List Builtin)
    (step : Resolver -> Except ResolveError Resolver) (around : Surroundings)
    (names : List Identifier) (around' : Surroundings) (more : List Identifier) : Prop :=
  ∀ r : Resolver, Visible builtins r around -> r.Awaits names ->
    Ends (step r) (program.Faulty builtins) fun r' =>
      Visible builtins r' around' ∧ r'.Awaits more ∧ r.scopes.SameOuter r'.scopes

variable {program : Program} {builtins : List Builtin} {around around' : Surroundings}

theorem Walks.refl (program : Program) (builtins : List Builtin) (around : Surroundings)
    (names : List Identifier) : Walks program builtins .ok around names around names :=
  fun _ hvisible hawaits => .of_ok rfl ⟨hvisible, hawaits, .refl _⟩

theorem Walks.bind {step next : Resolver -> Except ResolveError Resolver}
    {middle : Surroundings} {others : List Identifier}
    (h : Walks program builtins step around names middle others)
    (hnext : Walks program builtins next middle others around' more) :
    Walks program builtins (fun r => step r >>= next) around names around' more := by
  intro r hvisible hawaits
  refine (h r hvisible hawaits).bind ?_
  rintro r1 - ⟨hvisible1, hawaits1, houter1⟩
  have hends := hnext r1 hvisible1 hawaits1
  cases hr2 : next r1 with
  | error e => exact .of_error rfl (hends.fault hr2)
  | ok r2 =>
      rw [hr2] at hends
      rcases hends with ⟨hvisible2, hawaits2, houter2⟩
      exact .of_ok rfl ⟨hvisible2, hawaits2, houter1.trans houter2⟩

theorem use_walks (hplace : program.RefersAt around x) (more : List Identifier) :
    Walks program builtins (·.use x) around (x :: more) around more := by
  intro r hvisible hawaits
  cases hlookup : r.scopes.lookup x.name with
  | some storage =>
      rcases record_of_awaits hawaits storage with ⟨r', hrecord, hr'⟩
      have huse : r.use x = .ok r' := by
        rw [use, hlookup]
        exact hrecord
      have hscopes := (extends_use huse).2.1
      refine .of_ok huse ⟨?_, hr', ?_⟩
      · rw [Visible, hscopes]
        exact hvisible
      · rw [hscopes]
        exact .refl _
  | none =>
      have huse : r.use x = .error (.undeclared x.name x.span) := by rw [use, hlookup]
      refine .of_error huse ?_
      cases hfind : around.find? x.name with
      | some d =>
          rcases hvisible.lookup_of_find? hfind with ⟨storage, hstorage, _⟩
          rw [hlookup] at hstorage
          cases hstorage
      | none =>
          rw [hvisible.lookup_of_not_find? hfind, Option.map_eq_none_iff] at hlookup
          refine .undeclared hplace hfind ?_
          intro b hb hname
          have hother := List.find?_eq_none.mp hlookup b (List.mem_reverse.mpr hb)
          exact hother (beq_iff_eq.mpr hname)

theorem declare_walks (hplace : program.DeclaresAt around x) (more : List Identifier) :
    Walks program builtins (·.declare x) around (x :: more) (around.after [x]) more := by
  intro r hvisible hawaits
  cases hdeclare : r.scopes.declare x.name x.span with
  | ok storage scopes =>
      have hawaits' : Awaits { r with scopes } (x :: more) := hawaits.of_identifiers rfl
      rcases record_of_awaits hawaits' storage with ⟨r', hrecord, hr'⟩
      have hscopes := (extends_record hrecord).2.1
      have hok : r.declare x = .ok r' := by
        rw [declare, hdeclare]
        exact hrecord
      refine .of_ok hok ⟨?_, hr', ?_⟩
      · rw [Visible, hscopes]
        exact hvisible.declare hdeclare trivial
      · rw [hscopes]
        exact sameOuter_of_declare hdeclare
  | error e scopes =>
      have herror : r.declare x = .error e := by
        rw [declare, hdeclare]
      refine .of_error herror ?_
      rcases hvisible.declare_error hdeclare with ⟨rfl, hknown⟩ | ⟨rfl, hinner, hroom⟩
      · exact .duplicate hplace hknown _
      · exact .tooManyLocals hplace hinner hroom

theorem declareAll_walks (names : List Identifier) {around : Surroundings}
    (hplaces : ∀ before d rest, names = before ++ d :: rest ->
      program.DeclaresAt (around.after before) d) (more : List Identifier) :
    Walks program builtins (·.declareAll names) around (names ++ more) (around.after names)
      more := by
  induction names generalizing around with
  | nil =>
      rw [Surroundings.after_nil]
      exact .refl program builtins around more
  | cons d rest ih =>
      have hfirst := hplaces [] d rest rfl
      rw [Surroundings.after_nil] at hfirst
      rw [← List.singleton_append, Surroundings.after_append]
      refine (declare_walks hfirst (rest ++ more)).bind (ih ?_)
      intro before d' rest' hsplit
      rw [← Surroundings.after_append]
      exact hplaces (d :: before) d' rest' (congrArg (d :: ·) hsplit)

mutual

theorem expr_walks : ∀ (e : Expr) (more : List Identifier),
    (∀ x ∈ e.references, program.RefersAt around x) ->
    Walks program builtins (·.expr e) around (e.references ++ more) around more
  | .call callee arguments _, more, hplaces => by
      rw [Expr.references, List.forall_mem_append] at hplaces
      rw [Expr.references, List.append_assoc]
      simp only [expr]
      exact (expr_walks callee _ hplaces.1).bind (exprs_walks arguments more hplaces.2)
  | .unary _ operand _, more, hplaces => by
      rw [Expr.references] at hplaces ⊢
      simp only [expr]
      exact expr_walks operand more hplaces
  | .binary _ left right _, more, hplaces => by
      rw [Expr.references, List.forall_mem_append] at hplaces
      rw [Expr.references, List.append_assoc]
      simp only [expr]
      exact (expr_walks left _ hplaces.1).bind (expr_walks right more hplaces.2)
  | .string _, more, _ | .number _, more, _ | .bool _, more, _ | .null, more, _ => by
      rw [Expr.references]
      simp only [expr]
      exact .refl program builtins around more
  | .ident name, more, hplaces => by
      rw [Expr.references] at hplaces ⊢
      simp only [expr]
      exact use_walks (hplaces name List.mem_cons_self) more
  | .field receiver _, more, hplaces => by
      rw [Expr.references] at hplaces ⊢
      simp only [expr]
      exact expr_walks receiver more hplaces

theorem exprs_walks : ∀ (es : List Expr) (more : List Identifier),
    (∀ x ∈ referencesOfAll es, program.RefersAt around x) ->
    Walks program builtins (·.exprs es) around (referencesOfAll es ++ more) around more
  | [], more, _ => by
      rw [referencesOfAll]
      simp only [exprs]
      exact .refl program builtins around more
  | e :: rest, more, hplaces => by
      rw [referencesOfAll, List.forall_mem_append] at hplaces
      rw [referencesOfAll, List.append_assoc]
      simp only [exprs]
      exact (expr_walks e _ hplaces.1).bind (exprs_walks rest more hplaces.2)

end

/-!
## Statements
-/

/-- A function is left with the scopes with which it was entered. -/
theorem Walks.function {opening body : Resolver -> Except ResolveError Resolver}
    {opened inside : Surroundings} {others : List Identifier}
    (hopening : Walks program builtins opening around.inFunction names opened others)
    (hbody : Walks program builtins body opened others inside more) :
    Walks program builtins
      (fun r => opening { r with scopes := r.scopes.pushFunction } >>= fun r =>
        body r >>= fun r => .ok r.closeFunction)
      around names around more := by
  intro r hvisible hawaits
  have hinside := hopening.bind hbody { r with scopes := r.scopes.pushFunction }
    hvisible.pushFunction (hawaits.of_identifiers rfl)
  dsimp only at hinside ⊢
  rw [← bind_assoc]
  refine hinside.bind ?_
  rintro r1 - ⟨_, hawaits1, houter⟩
  rcases houter _ _ rfl with ⟨scope, hclosed, _⟩
  have hscopes : r1.closeFunction.scopes = r.scopes := by rw [closeFunction_eq hclosed]
  refine .of_ok rfl ⟨?_, hawaits1.of_identifiers (identifiers_closeFunction r1), ?_⟩
  · rw [Visible, hscopes]
    exact hvisible
  · rw [hscopes]
    exact .refl _

/-- A block is left with the scopes with which it was entered. -/
theorem Walks.block {body : Resolver -> Except ResolveError Resolver} {inside : Surroundings}
    (hbody : Walks program builtins body around.inBlock names inside more) (id : BlockId) :
    Walks program builtins
      (fun r => body { r with scopes := r.scopes.pushBlock } >>= fun r => .ok (r.closeBlock id))
      around names around more := by
  intro r hvisible hawaits
  have hinside := hbody { r with scopes := r.scopes.pushBlock } hvisible.pushBlock
    (hawaits.of_identifiers rfl)
  refine hinside.bind ?_
  rintro r1 - ⟨_, hawaits1, houter⟩
  rcases houter _ _ rfl with ⟨scope, hclosed, _⟩
  have hscopes : (r1.closeBlock id).scopes = r.scopes := by rw [closeBlock_eq hclosed]
  refine .of_ok rfl ⟨?_, hawaits1.of_identifiers (identifiers_closeBlock r1 id), ?_⟩
  · rw [Visible, hscopes]
    exact hvisible
  · rw [hscopes]
    exact .refl _

mutual

theorem stmt_walks : ∀ (s : Stmt) {around : Surroundings} (more : List Identifier),
    program.Stands around s ->
    Walks program builtins (·.stmt s) around (s.bindings ++ more) (around.after s.declared) more
  | .declare name value, around, more, hstands => by
      have hvalue : ∀ x ∈ value.references, program.RefersAt around x :=
        fun x hx => .statement hstands hx
      have hname : program.DeclaresAt around name := .statement hstands List.mem_cons_self
      intro r hvisible hawaits
      rw [Stmt.bindings] at hawaits
      simp only [stmt]
      -- The value is looked through first, though its names stand behind the new one.
      exact (expr_walks value (name :: more) hvalue).bind (declare_walks hname more) r hvisible
        (hawaits.perm List.perm_middle.symm)
  | .assign target value, around, more, hstands => by
      have hplaces : ∀ x ∈ target :: value.references, program.RefersAt around x :=
        fun x hx => .statement hstands hx
      rw [List.forall_mem_cons] at hplaces
      rw [Stmt.bindings, Stmt.declared, Surroundings.after_nil]
      simp only [stmt]
      exact (use_walks hplaces.1 _).bind (expr_walks value more hplaces.2)
  | .assignField receiver _ value, around, more, hstands => by
      have hplaces : ∀ x ∈ receiver.references ++ value.references, program.RefersAt around x :=
        fun x hx => .statement hstands hx
      rw [List.forall_mem_append] at hplaces
      rw [Stmt.bindings, Stmt.declared, Surroundings.after_nil, List.append_assoc]
      simp only [stmt]
      exact (expr_walks receiver _ hplaces.1).bind (expr_walks value more hplaces.2)
  | .function name params body, around, more, hstands => by
      have hname : program.DeclaresAt around name := .statement hstands List.mem_cons_self
      have hparams : ∀ before d rest, params = before ++ d :: rest ->
          program.DeclaresAt ((around.after [name]).inFunction.after before) d :=
        fun _ _ _ hsplit => .parameter hstands hsplit
      have hbody : ∀ before s rest, body = before ++ s :: rest ->
          program.Stands (((around.after [name]).inFunction.after params).after
            (declaredBy before)) s := by
        intro before s rest hsplit
        rw [← Surroundings.after_append]
        exact .inFunction hstands hsplit
      rw [Stmt.bindings, Stmt.declared, List.cons_append, List.append_assoc]
      simp only [stmt]
      exact (declare_walks hname _).bind
        (.function (declareAll_walks params hparams _) (stmts_walks body more hbody))
  | .choose branches none, around, more, hstands => by
      rw [Stmt.bindings, Stmt.declared, Surroundings.after_nil]
      simp only [stmt]
      exact (branches_walks branches more hstands fun _ => Stmt.parts_of_branch).bind
        (.refl program builtins around more)
  | .choose branches (some body), around, more, hstands => by
      have hbody : body ∈ (Stmt.choose branches (some body)).blocks := by simp [Stmt.blocks]
      rw [Stmt.bindings, Stmt.declared, Surroundings.after_nil, List.append_assoc]
      simp only [stmt]
      exact (branches_walks branches _ hstands fun _ => Stmt.parts_of_branch).bind
        (block_walks body more hstands hbody)
  | .loop condition body, around, more, hstands => by
      have hcondition : ∀ x ∈ condition.references, program.RefersAt around x :=
        fun x hx => .statement hstands hx
      rw [Stmt.bindings, Stmt.declared, Surroundings.after_nil, List.append_assoc]
      simp only [stmt]
      exact (expr_walks condition _ hcondition).bind
        (block_walks body more hstands List.mem_cons_self)
  | .giveBack value _, around, more, hstands => by
      have hplaces : ∀ x ∈ value.references, program.RefersAt around x :=
        fun x hx => .statement hstands hx
      rw [Stmt.bindings, Stmt.declared, Surroundings.after_nil]
      simp only [stmt]
      exact expr_walks value more hplaces
  | .evaluate value, around, more, hstands => by
      have hplaces : ∀ x ∈ value.references, program.RefersAt around x :=
        fun x hx => .statement hstands hx
      rw [Stmt.bindings, Stmt.declared, Surroundings.after_nil]
      simp only [stmt]
      exact expr_walks value more hplaces
  | .block body, around, more, hstands => by
      rw [Stmt.bindings, Stmt.declared, Surroundings.after_nil]
      simp only [stmt]
      exact block_walks body more hstands List.mem_cons_self

theorem block_walks : ∀ (b : Block) {around : Surroundings} {outer : Stmt}
    (more : List Identifier), program.Stands around outer -> b ∈ outer.blocks ->
    Walks program builtins (·.block b) around (b.bindings ++ more) around more
  | { id, statements }, around, outer, more, hstands, hblock => by
      have hbody : ∀ before s rest, statements = before ++ s :: rest ->
          program.Stands (around.inBlock.after (declaredBy before)) s :=
        fun _ _ _ hsplit => .inBlock hstands hblock hsplit
      rw [Block.bindings]
      simp only [Resolver.block]
      exact (stmts_walks statements more hbody).block id

theorem stmts_walks : ∀ (statements : List Stmt) {around : Surroundings}
    (more : List Identifier),
    (∀ before s rest, statements = before ++ s :: rest ->
      program.Stands (around.after (declaredBy before)) s) ->
    Walks program builtins (·.stmts statements) around (bindingsOfAll statements ++ more)
      (around.after (declaredBy statements)) more
  | [], around, more, _ => by
      rw [bindingsOfAll, declaredBy, List.flatMap_nil, Surroundings.after_nil]
      simp only [stmts]
      exact .refl program builtins around more
  | s :: rest, around, more, hstands => by
      have hfirst := hstands [] s rest rfl
      rw [declaredBy, List.flatMap_nil, Surroundings.after_nil] at hfirst
      have hothers : ∀ before s' rest', rest = before ++ s' :: rest' ->
          program.Stands ((around.after s.declared).after (declaredBy before)) s' := by
        intro before s' rest' hsplit
        rw [← Surroundings.after_append, ← declaredBy_cons]
        exact hstands (s :: before) s' rest' (congrArg (s :: ·) hsplit)
      rw [bindingsOfAll, declaredBy_cons, Surroundings.after_append, List.append_assoc]
      simp only [stmts]
      exact (stmt_walks s _ hfirst).bind (stmts_walks rest more hothers)

theorem branches_walks : ∀ (branches : List Branch) {around : Surroundings} {outer : Stmt}
    (more : List Identifier), program.Stands around outer ->
    (∀ branch ∈ branches, branch.body ∈ outer.blocks ∧
      branch.condition.references ⊆ outer.references) ->
    Walks program builtins (·.branches branches) around (bindingsOfBranches branches ++ more)
      around more
  | [], around, outer, more, _, _ => by
      rw [bindingsOfBranches]
      simp only [Resolver.branches]
      exact .refl program builtins around more
  | { condition, body } :: rest, around, outer, more, hstands, hparts => by
      rw [List.forall_mem_cons] at hparts
      rcases hparts with ⟨⟨hblock, hcondition⟩, hrest⟩
      have hplaces : ∀ x ∈ condition.references, program.RefersAt around x :=
        fun x hx => .statement hstands (hcondition hx)
      rw [bindingsOfBranches, List.append_assoc, List.append_assoc]
      simp only [Resolver.branches]
      exact (expr_walks condition _ hplaces).bind ((block_walks body _ hstands hblock).bind
        (branches_walks rest more hstands hrest))

end

end Resolver

theorem Program.faulty_of_resolve {program : Program} {builtins : List Builtin} {e : ResolveError}
    (hnames : (program.bindings.map (·.id)).Nodup) (h : program.resolve builtins = .error e) :
    program.Faulty builtins e := by
  have hawaits : Resolver.Awaits { scopes := .ofBuiltins builtins }
      (bindingsOfAll program.statements ++ []) := by
    rw [List.append_nil, ← bindings_eq]
    exact ⟨hnames, fun _ _ => Std.TreeMap.contains_emptyc⟩
  have hends := Resolver.stmts_walks program.statements []
    (fun _ _ _ hsplit => .outside hsplit) _ (mirrors_ofBuiltins _ builtins) hawaits
  rw [resolve, bind_eq_error_iff] at h
  rcases h with hstmts | ⟨r, _, hpure⟩
  · exact hends.fault hstmts
  · cases hpure

end StackScript
