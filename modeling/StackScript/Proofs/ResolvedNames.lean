import StackScript.Proofs.BlockNumbers
import StackScript.Proofs.Outcomes
import StackScript.Resolution

/-!
# Resolved names

What a successful resolution says about a program: each use of a name has the
storage that the scopes around it know, each new name has a storage of its own,
and each block the number of its locals.  Tables are only added to while a
program is walked through, so what was noted on the way is still there in the
end, provided that no two blocks share a number.
-/

namespace StackScript

/-!
## Names and scopes
-/

namespace Resolution

def Uses (r : Resolution) (scopes : ScopeStack) (name : Identifier) : Prop :=
  ∃ storage, scopes.lookup name.name = some storage ∧ r.storage? name = some storage

theorem Uses.lookup_eq {r : Resolution} {scopes : ScopeStack} {name : Identifier}
    {storage : Storage} (h : r.Uses scopes name) (hstorage : r.storage? name = some storage) :
    scopes.lookup name.name = some storage := by
  rcases h with ⟨storage', hlookup, hstorage'⟩
  rw [hstorage] at hstorage'
  cases hstorage'
  exact hlookup

def Declares (r : Resolution) (scopes : ScopeStack) (name : Identifier) (after : ScopeStack) :
    Prop :=
  ∃ storage, scopes.declare name.name name.span = .ok storage after ∧
    r.storage? name = some storage

inductive DeclaresAll (r : Resolution) : ScopeStack -> List Identifier -> ScopeStack -> Prop where
  | nil {scopes : ScopeStack} : DeclaresAll r scopes [] scopes
  | cons {scopes next after : ScopeStack} {name : Identifier} {rest : List Identifier}
      (hname : r.Declares scopes name next) (hrest : DeclaresAll r next rest after) :
      DeclaresAll r scopes (name :: rest) after

mutual

def ResolvesExpr (r : Resolution) (scopes : ScopeStack) : Expr -> Prop
  | .call callee arguments _ => r.ResolvesExpr scopes callee ∧ r.ResolvesExprs scopes arguments
  | .unary _ operand _ => r.ResolvesExpr scopes operand
  | .binary _ left right _ => r.ResolvesExpr scopes left ∧ r.ResolvesExpr scopes right
  | .ident name => r.Uses scopes name
  | .field receiver _ => r.ResolvesExpr scopes receiver
  | .string _ | .number _ | .bool _ | .null => True

def ResolvesExprs (r : Resolution) (scopes : ScopeStack) : List Expr -> Prop
  | [] => True
  | e :: rest => r.ResolvesExpr scopes e ∧ r.ResolvesExprs scopes rest

end

mutual

/-- The names of a statement stand for what the scopes know, and the statement
leads from the first scopes to the second. -/
inductive ResolvesStmt (r : Resolution) : ScopeStack -> Stmt -> ScopeStack -> Prop where
  | declare {scopes after : ScopeStack} {name : Identifier} {value : Expr}
      (hvalue : r.ResolvesExpr scopes value) (hname : r.Declares scopes name after) :
      ResolvesStmt r scopes (.declare name value) after
  | assign {scopes : ScopeStack} {target : Identifier} {value : Expr}
      (htarget : r.Uses scopes target) (hvalue : r.ResolvesExpr scopes value) :
      ResolvesStmt r scopes (.assign target value) scopes
  | assignField {scopes : ScopeStack} {receiver value : Expr} {field : Identifier}
      (hreceiver : r.ResolvesExpr scopes receiver) (hvalue : r.ResolvesExpr scopes value) :
      ResolvesStmt r scopes (.assignField receiver field value) scopes
  | function {scopes after opened : ScopeStack} {scope : Scope} {name : Identifier}
      {params : List Identifier} {body : List Stmt} (hname : r.Declares scopes name after)
      (hparams : r.DeclaresAll after.pushFunction params opened)
      (hbody : ResolvesAll r opened body { after with inner := scope :: after.inner }) :
      ResolvesStmt r scopes (.function name params body) after
  | choose {scopes : ScopeStack} {branches : List Branch} {otherwise : Option Block}
      (hbranches : ResolvesBranches r scopes branches)
      (hotherwise : ResolvesOtherwise r scopes otherwise) :
      ResolvesStmt r scopes (.choose branches otherwise) scopes
  | loop {scopes : ScopeStack} {condition : Expr} {body : Block}
      (hcondition : r.ResolvesExpr scopes condition) (hbody : ResolvesBlock r scopes body) :
      ResolvesStmt r scopes (.loop condition body) scopes
  | giveBack {scopes : ScopeStack} {value : Expr} {span : Span}
      (hvalue : r.ResolvesExpr scopes value) : ResolvesStmt r scopes (.giveBack value span) scopes
  | evaluate {scopes : ScopeStack} {value : Expr} (hvalue : r.ResolvesExpr scopes value) :
      ResolvesStmt r scopes (.evaluate value) scopes
  | block {scopes : ScopeStack} {body : Block} (hbody : ResolvesBlock r scopes body) :
      ResolvesStmt r scopes (.block body) scopes

/-- A block has a scope of its own, and its size is the number of its locals. -/
inductive ResolvesBlock (r : Resolution) : ScopeStack -> Block -> Prop where
  | braces {scopes : ScopeStack} {scope : Scope} {id : BlockId} {statements : List Stmt}
      (hbody : ResolvesAll r scopes.pushBlock statements
        { scopes with inner := scope :: scopes.inner })
      (hsize : r.blockSize? id = some scope.locals) : ResolvesBlock r scopes { id, statements }

inductive ResolvesAll (r : Resolution) : ScopeStack -> List Stmt -> ScopeStack -> Prop where
  | nil {scopes : ScopeStack} : ResolvesAll r scopes [] scopes
  | cons {scopes next after : ScopeStack} {s : Stmt} {rest : List Stmt}
      (hfirst : ResolvesStmt r scopes s next) (hrest : ResolvesAll r next rest after) :
      ResolvesAll r scopes (s :: rest) after

inductive ResolvesBranches (r : Resolution) : ScopeStack -> List Branch -> Prop where
  | nil {scopes : ScopeStack} : ResolvesBranches r scopes []
  | cons {scopes : ScopeStack} {condition : Expr} {body : Block} {rest : List Branch}
      (hcondition : r.ResolvesExpr scopes condition) (hbody : ResolvesBlock r scopes body)
      (hrest : ResolvesBranches r scopes rest) :
      ResolvesBranches r scopes ({ condition, body } :: rest)

inductive ResolvesOtherwise (r : Resolution) : ScopeStack -> Option Block -> Prop where
  | none {scopes : ScopeStack} : ResolvesOtherwise r scopes none
  | some {scopes : ScopeStack} {body : Block} (hbody : ResolvesBlock r scopes body) :
      ResolvesOtherwise r scopes (some body)

end

end Resolution

/-!
## Scopes around a place
-/

theorem Scope.declare_eq_ok {s s' : Scope} {name : String} {span : Span} {storage : Storage}
    (h : s.declare name span = .ok storage s') :
    s.kind = .global ∧ storage = .globalName name ∧
        s' = { s with values := (name, storage) :: s.values } ∨
      s.kind ≠ .global ∧ s.nextSlot ≤ maxSlot ∧
        storage = .localSlot name (UInt8.ofNat s.nextSlot) ∧
        s' = { s with values := (name, storage) :: s.values, locals := s.locals + 1 } := by
  unfold declare at h
  split at h
  · cases h
  · split at h
    · next hkind =>
        cases h
        exact Or.inl ⟨hkind, rfl, rfl⟩
    · next hkind =>
        split at h
        · next hroom =>
            cases h
            exact Or.inr ⟨hkind, hroom, rfl, rfl⟩
        · cases h

theorem Scope.kind_of_declare {s s' : Scope} {name : String} {span : Span} {storage : Storage}
    (h : s.declare name span = .ok storage s') : s'.kind = s.kind := by
  rcases declare_eq_ok h with ⟨_, _, rfl⟩ | ⟨_, _, _, rfl⟩
  · rfl
  · rfl

namespace ScopeStack

/-- Only the names of the innermost scope differ, if there is one. -/
def SameOuter (s s' : ScopeStack) : Prop :=
  ∀ top rest, s.inner = top :: rest ->
    ∃ top', s' = { s with inner := top' :: rest } ∧ top'.kind = top.kind

theorem SameOuter.refl (s : ScopeStack) : s.SameOuter s := by
  intro top rest h
  refine ⟨top, ?_, rfl⟩
  rw [← h]

theorem SameOuter.trans {s s' s'' : ScopeStack} (h : s.SameOuter s') (h' : s'.SameOuter s'') :
    s.SameOuter s'' := by
  intro top rest hinner
  rcases h top rest hinner with ⟨top', rfl, hkind⟩
  rcases h' top' rest rfl with ⟨top'', rfl, hkind'⟩
  exact ⟨top'', rfl, hkind'.trans hkind⟩

theorem SameOuter.inner_ne_nil {s s' : ScopeStack} (h : s.SameOuter s') (hinner : s.inner ≠ []) :
    s'.inner ≠ [] := by
  rcases List.exists_cons_of_ne_nil hinner with ⟨top, rest, hscopes⟩
  rcases h top rest hscopes with ⟨top', rfl, _⟩
  exact List.cons_ne_nil top' rest

theorem declare_bottom {s s' : ScopeStack} {name : String} {span : Span} {storage : Storage}
    (hinner : s.inner = []) (h : s.declare name span = .ok storage s') :
    ∃ bottom, s.bottom.declare name span = .ok storage bottom ∧ s' = { s with bottom } := by
  simp only [declare, hinner] at h
  cases hscope : s.bottom.declare name span with
  | ok storage' bottom =>
      rw [hscope] at h
      cases h
      exact ⟨bottom, rfl, by rw [hinner]⟩
  | error e bottom =>
      rw [hscope] at h
      cases h

theorem declare_top {s s' : ScopeStack} {name : String} {span : Span} {storage : Storage}
    {top : Scope} {rest : List Scope} (hinner : s.inner = top :: rest)
    (h : s.declare name span = .ok storage s') :
    ∃ top', top.declare name span = .ok storage top' ∧ s' = { s with inner := top' :: rest } := by
  simp only [declare, hinner] at h
  cases hscope : top.declare name span with
  | ok storage' top' =>
      rw [hscope] at h
      cases h
      exact ⟨top', rfl, rfl⟩
  | error e top' =>
      rw [hscope] at h
      cases h

theorem sameOuter_of_declare {s s' : ScopeStack} {name : String} {span : Span} {storage : Storage}
    (h : s.declare name span = .ok storage s') : s.SameOuter s' := by
  intro top rest hinner
  rcases declare_top hinner h with ⟨top', hscope, hstack⟩
  exact ⟨top', hstack, Scope.kind_of_declare hscope⟩

end ScopeStack

namespace Resolution

variable {r : Resolution}

theorem sameOuter_of_declaresAll {scopes after : ScopeStack} {names : List Identifier}
    (h : r.DeclaresAll scopes names after) : scopes.SameOuter after := by
  induction h with
  | nil => exact .refl _
  | cons hname _ ih =>
      rcases hname with ⟨storage, hdeclare, _⟩
      exact (ScopeStack.sameOuter_of_declare hdeclare).trans ih

theorem sameOuter_of_resolvesStmt {scopes after : ScopeStack} {s : Stmt}
    (h : r.ResolvesStmt scopes s after) : scopes.SameOuter after := by
  cases h with
  | declare _ hname =>
      rcases hname with ⟨storage, hdeclare, _⟩
      exact ScopeStack.sameOuter_of_declare hdeclare
  | function hname _ _ =>
      rcases hname with ⟨storage, hdeclare, _⟩
      exact ScopeStack.sameOuter_of_declare hdeclare
  | _ => exact .refl _

theorem sameOuter_of_resolvesAll {scopes after : ScopeStack} {statements : List Stmt} :
    r.ResolvesAll scopes statements after -> scopes.SameOuter after
  | .nil => .refl _
  | .cons hfirst hrest => (sameOuter_of_resolvesStmt hfirst).trans (sameOuter_of_resolvesAll hrest)

end Resolution

/-!
## Tables on the way
-/

namespace Resolver

/-- What was noted is kept, but for the sizes of the given blocks. -/
structure Extends (ids : List BlockId) (r r' : Resolver) : Prop where
  identifiers : ∀ (id : IdentId) storage, r.found.identifiers[id]? = some storage ->
    r'.found.identifiers[id]? = some storage
  blocks : ∀ id : BlockId, id ∉ ids -> r'.found.blocks[id]? = r.found.blocks[id]?

namespace Extends

variable {ids ids' : List BlockId} {r r' r'' : Resolver}

theorem refl (ids : List BlockId) (r : Resolver) : Extends ids r r where
  identifiers _ _ h := h
  blocks _ _ := rfl

theorem trans (h : Extends ids r r') (h' : Extends ids' r' r'') : Extends (ids ++ ids') r r'' where
  identifiers id storage hid := h'.identifiers id storage (h.identifiers id storage hid)
  blocks id hid := by
    rw [List.mem_append, not_or] at hid
    rw [h'.blocks id hid.2, h.blocks id hid.1]

theorem trans_nil (h : Extends ids r r') (h' : Extends [] r' r'') : Extends ids r r'' := by
  rw [← List.append_nil ids]
  exact h.trans h'

theorem of_found (h : r'.found = r.found) : Extends ids r r' where
  identifiers := by
    rw [h]
    exact fun _ _ hid => hid
  blocks := by
    rw [h]
    exact fun _ _ => rfl

end Extends

variable {r r' : Resolver}

theorem extends_record {name : Identifier} {storage : Storage}
    (h : r.record name storage = .ok r') : Extends [] r r' ∧ r'.scopes = r.scopes ∧
      r'.found.storage? name = some storage := by
  unfold record at h
  by_cases hknown : r.found.identifiers.contains name.id = true
  · rw [if_pos hknown] at h
    cases h
  · rw [if_neg hknown] at h
    cases h
    have hnone : r.found.identifiers[name.id]? = none := by simpa using hknown
    refine ⟨⟨?_, fun _ _ => rfl⟩, rfl, ?_⟩
    · intro id other hid
      dsimp only
      rw [Std.TreeMap.getElem?_insert]
      split
      · next heq =>
          rw [Std.LawfulEqOrd.eq_of_compare heq] at hnone
          rw [hnone] at hid
          cases hid
      · exact hid
    · simp [Resolution.storage?]

theorem declare_eq_ok_iff {name : Identifier} :
    r.declare name = .ok r' ↔ ∃ storage scopes,
      r.scopes.declare name.name name.span = .ok storage scopes ∧
        { r with scopes }.record name storage = .ok r' := by
  unfold declare
  cases r.scopes.declare name.name name.span with
  | ok storage scopes => simp
  | error e scopes => simp

theorem extends_declare {name : Identifier} (h : r.declare name = .ok r') : Extends [] r r' ∧
    ∃ storage, r.scopes.declare name.name name.span = .ok storage r'.scopes ∧
      r'.found.storage? name = some storage := by
  rcases declare_eq_ok_iff.mp h with ⟨storage, scopes, hdeclare, hrecord⟩
  rcases extends_record hrecord with ⟨hextends, hscopes, hstorage⟩
  refine ⟨⟨hextends.identifiers, hextends.blocks⟩, storage, ?_, hstorage⟩
  rw [hscopes]
  exact hdeclare

theorem extends_use {name : Identifier} (h : r.use name = .ok r') : Extends [] r r' ∧
    r'.scopes = r.scopes ∧ ∃ storage, r.scopes.lookup name.name = some storage ∧
      r'.found.storage? name = some storage := by
  unfold use at h
  cases hlookup : r.scopes.lookup name.name with
  | none =>
      rw [hlookup] at h
      cases h
  | some storage =>
      rw [hlookup] at h
      rcases extends_record h with ⟨hextends, hscopes, hstorage⟩
      exact ⟨hextends, hscopes, storage, rfl, hstorage⟩

theorem extends_declareAll {names : List Identifier} (h : r.declareAll names = .ok r') :
    Extends [] r r' := by
  induction names generalizing r with
  | nil =>
      cases h
      exact .refl _ _
  | cons name rest ih =>
      rw [declareAll, bind_eq_ok_iff] at h
      rcases h with ⟨r1, hname, hrest⟩
      exact (extends_declare hname).1.trans (ih hrest)

theorem extends_closeBlock (r : Resolver) (id : BlockId) : Extends [id] r (r.closeBlock id) := by
  have hinsert : ∀ (size : Nat) (other : BlockId), other ∉ [id] ->
      (r.found.blocks.insert id size)[other]? = r.found.blocks[other]? := by
    intro size other hother
    rw [Std.TreeMap.getElem?_insert, if_neg]
    intro heq
    rw [Std.LawfulEqOrd.eq_of_compare heq] at hother
    exact hother (List.mem_singleton_self _)
  unfold closeBlock
  cases r.scopes.pop? with
  | none => exact ⟨fun _ _ h => h, hinsert 0⟩
  | some popped => exact ⟨fun _ _ h => h, hinsert _⟩

theorem extends_closeFunction (r : Resolver) : Extends [] r r.closeFunction := by
  unfold closeFunction
  cases r.scopes.pop? with
  | none => exact .refl _ _
  | some popped => exact .of_found rfl

mutual

theorem extends_expr : ∀ (e : Expr) {r r' : Resolver}, r.expr e = .ok r' ->
    Extends [] r r' ∧ r'.scopes = r.scopes
  | .call callee arguments _, r, r', h => by
      rw [expr, bind_eq_ok_iff] at h
      rcases h with ⟨r1, hcallee, harguments⟩
      rcases extends_expr callee hcallee with ⟨hextends, hscopes⟩
      rcases extends_exprs arguments harguments with ⟨hextends', hscopes'⟩
      exact ⟨hextends.trans hextends', hscopes'.trans hscopes⟩
  | .unary _ operand _, r, r', h => by
      rw [expr] at h
      exact extends_expr operand h
  | .binary _ left right _, r, r', h => by
      rw [expr, bind_eq_ok_iff] at h
      rcases h with ⟨r1, hleft, hright⟩
      rcases extends_expr left hleft with ⟨hextends, hscopes⟩
      rcases extends_expr right hright with ⟨hextends', hscopes'⟩
      exact ⟨hextends.trans hextends', hscopes'.trans hscopes⟩
  | .string _, r, r', h | .number _, r, r', h | .bool _, r, r', h | .null, r, r', h => by
      rw [expr] at h
      cases h
      exact ⟨.refl _ _, rfl⟩
  | .ident name, r, r', h => by
      rw [expr] at h
      rcases extends_use h with ⟨hextends, hscopes, _⟩
      exact ⟨hextends, hscopes⟩
  | .field receiver _, r, r', h => by
      rw [expr] at h
      exact extends_expr receiver h

theorem extends_exprs : ∀ (es : List Expr) {r r' : Resolver}, r.exprs es = .ok r' ->
    Extends [] r r' ∧ r'.scopes = r.scopes
  | [], r, r', h => by
      rw [exprs] at h
      cases h
      exact ⟨.refl _ _, rfl⟩
  | e :: rest, r, r', h => by
      rw [exprs, bind_eq_ok_iff] at h
      rcases h with ⟨r1, hfirst, hrest⟩
      rcases extends_expr e hfirst with ⟨hextends, hscopes⟩
      rcases extends_exprs rest hrest with ⟨hextends', hscopes'⟩
      exact ⟨hextends.trans hextends', hscopes'.trans hscopes⟩

end

mutual

theorem extends_stmt : ∀ (s : Stmt) {r r' : Resolver}, r.stmt s = .ok r' ->
    Extends s.blockIds r r'
  | .declare name value, r, r', h => by
      rw [stmt, bind_eq_ok_iff] at h
      rcases h with ⟨r1, hvalue, hname⟩
      exact (extends_expr value hvalue).1.trans (extends_declare hname).1
  | .assign target value, r, r', h => by
      rw [stmt, bind_eq_ok_iff] at h
      rcases h with ⟨r1, htarget, hvalue⟩
      exact (extends_use htarget).1.trans (extends_expr value hvalue).1
  | .assignField receiver _ value, r, r', h => by
      rw [stmt, bind_eq_ok_iff] at h
      rcases h with ⟨r1, hreceiver, hvalue⟩
      exact (extends_expr receiver hreceiver).1.trans (extends_expr value hvalue).1
  | .function name params body, r, r', h => by
      simp only [stmt, bind_eq_ok_iff, pure_eq_ok_iff] at h
      rcases h with ⟨r1, hname, r2, hparams, r3, hbody, rfl⟩
      rw [Stmt.blockIds]
      have hopened : Extends [] r1 { r1 with scopes := r1.scopes.pushFunction } := .of_found rfl
      exact (((extends_declare hname).1.trans hopened).trans (extends_declareAll hparams)).trans
        ((extends_stmts body hbody).trans_nil (extends_closeFunction r3))
  | .choose branches none, r, r', h => by
      simp only [stmt, bind_eq_ok_iff, pure_eq_ok_iff] at h
      rcases h with ⟨r1, hbranches, rfl⟩
      rw [Stmt.blockIds]
      exact extends_branches branches hbranches
  | .choose branches (some body), r, r', h => by
      simp only [stmt, bind_eq_ok_iff] at h
      rcases h with ⟨r1, hbranches, hbody⟩
      rw [Stmt.blockIds]
      exact (extends_branches branches hbranches).trans (extends_block body hbody)
  | .loop condition body, r, r', h => by
      rw [stmt, bind_eq_ok_iff] at h
      rcases h with ⟨r1, hcondition, hbody⟩
      rw [Stmt.blockIds]
      exact (extends_expr condition hcondition).1.trans (extends_block body hbody)
  | .giveBack value _, r, r', h => by
      rw [stmt] at h
      exact (extends_expr value h).1
  | .evaluate value, r, r', h => by
      rw [stmt] at h
      exact (extends_expr value h).1
  | .block body, r, r', h => by
      rw [stmt] at h
      rw [Stmt.blockIds]
      exact extends_block body h

theorem extends_block : ∀ (b : Block) {r r' : Resolver}, r.block b = .ok r' ->
    Extends b.blockIds r r'
  | { id, statements }, r, r', h => by
      simp only [block, bind_eq_ok_iff, pure_eq_ok_iff] at h
      rcases h with ⟨r1, hbody, rfl⟩
      have hopened : Extends [] r { r with scopes := r.scopes.pushBlock } := .of_found rfl
      have hclosed := (hopened.trans (extends_stmts statements hbody)).trans
        (extends_closeBlock r1 id)
      refine ⟨hclosed.identifiers, fun other hother => hclosed.blocks other ?_⟩
      rw [Block.blockIds, List.mem_cons] at hother
      simp only [List.nil_append, List.mem_append, List.mem_singleton]
      tauto

theorem extends_stmts : ∀ (statements : List Stmt) {r r' : Resolver},
    r.stmts statements = .ok r' -> Extends (blockIdsOfAll statements) r r'
  | [], r, r', h => by
      rw [stmts] at h
      cases h
      exact .refl _ _
  | s :: rest, r, r', h => by
      rw [stmts, bind_eq_ok_iff] at h
      rcases h with ⟨r1, hfirst, hrest⟩
      rw [blockIdsOfAll]
      exact (extends_stmt s hfirst).trans (extends_stmts rest hrest)

theorem extends_branches : ∀ (branches : List Branch) {r r' : Resolver},
    r.branches branches = .ok r' -> Extends (blockIdsOfBranches branches) r r'
  | [], r, r', h => by
      rw [Resolver.branches] at h
      cases h
      exact .refl _ _
  | { condition, body } :: rest, r, r', h => by
      simp only [Resolver.branches, bind_eq_ok_iff] at h
      rcases h with ⟨r1, hcondition, r2, hbody, hrest⟩
      rw [blockIdsOfBranches]
      exact ((extends_expr condition hcondition).1.trans (extends_block body hbody)).trans
        (extends_branches rest hrest)

end

/-!
## What resolution says
-/

/-- The final tables have what was noted so far, with the sizes of the given
blocks. -/
structure FoundIn (final : Resolution) (ids : List BlockId) (r : Resolver) : Prop where
  identifiers : ∀ (id : IdentId) storage, r.found.identifiers[id]? = some storage ->
    final.identifiers[id]? = some storage
  blocks : ∀ id ∈ ids, final.blocks[id]? = r.found.blocks[id]?

namespace FoundIn

variable {final : Resolution} {ids ids' : List BlockId}

/-- What comes later touches none of the blocks that came before. -/
theorem earlier {ids'' : List BlockId} (h : FoundIn final ids r') (hextends : Extends ids' r r')
    (hids : ∀ id ∈ ids'', id ∈ ids ∧ id ∉ ids') : FoundIn final ids'' r where
  identifiers id storage hid := h.identifiers id storage (hextends.identifiers id storage hid)
  blocks id hid := by
    rw [h.blocks id (hids id hid).1]
    exact hextends.blocks id (hids id hid).2

theorem before (h : FoundIn final (ids ++ ids') r') (hextends : Extends ids' r r')
    (hdistinct : (ids ++ ids').Nodup) : FoundIn final ids r :=
  h.earlier hextends fun id hid => ⟨List.mem_append_left _ hid,
    fun hid' => (List.nodup_append.mp hdistinct).2.2 id hid id hid' rfl⟩

theorem before_nil (h : FoundIn final ids r') (hextends : Extends ids r r') :
    FoundIn final [] r :=
  h.earlier hextends (by nofun)

theorem right (h : FoundIn final (ids ++ ids') r) : FoundIn final ids' r :=
  h.earlier (.refl [] r) fun _ hid => ⟨List.mem_append_right _ hid, List.not_mem_nil⟩

theorem storage? (h : FoundIn final ids r) {name : Identifier} {storage : Storage}
    (hname : r.found.storage? name = some storage) : final.storage? name = some storage :=
  h.identifiers name.id storage hname

end FoundIn

variable {final : Resolution}

theorem uses_of_use {name : Identifier} (h : r.use name = .ok r') (hfinal : FoundIn final [] r') :
    final.Uses r.scopes name := by
  rcases extends_use h with ⟨_, _, storage, hlookup, hstorage⟩
  exact ⟨storage, hlookup, hfinal.storage? hstorage⟩

theorem declares_of_declare {name : Identifier} (h : r.declare name = .ok r')
    (hfinal : FoundIn final [] r') : final.Declares r.scopes name r'.scopes := by
  rcases extends_declare h with ⟨_, storage, hdeclare, hstorage⟩
  exact ⟨storage, hdeclare, hfinal.storage? hstorage⟩

theorem declaresAll_of_declareAll {names : List Identifier} (h : r.declareAll names = .ok r')
    (hfinal : FoundIn final [] r') : final.DeclaresAll r.scopes names r'.scopes := by
  induction names generalizing r with
  | nil =>
      cases h
      exact .nil
  | cons name rest ih =>
      rw [declareAll, bind_eq_ok_iff] at h
      rcases h with ⟨r1, hname, hrest⟩
      have hfinal1 := hfinal.before_nil (extends_declareAll hrest)
      exact .cons (declares_of_declare hname hfinal1) (ih hrest)

mutual

theorem resolvesExpr_of_expr : ∀ (e : Expr) {r r' : Resolver}, r.expr e = .ok r' ->
    FoundIn final [] r' -> final.ResolvesExpr r.scopes e
  | .call callee arguments _, r, r', h, hfinal => by
      rw [expr, bind_eq_ok_iff] at h
      rcases h with ⟨r1, hcallee, harguments⟩
      have hfinal1 := hfinal.before_nil (extends_exprs arguments harguments).1
      have hresolved := resolvesExprs_of_exprs arguments harguments hfinal
      rw [(extends_expr callee hcallee).2] at hresolved
      rw [Resolution.ResolvesExpr]
      exact ⟨resolvesExpr_of_expr callee hcallee hfinal1, hresolved⟩
  | .unary _ operand _, r, r', h, hfinal => by
      rw [expr] at h
      rw [Resolution.ResolvesExpr]
      exact resolvesExpr_of_expr operand h hfinal
  | .binary _ left right _, r, r', h, hfinal => by
      rw [expr, bind_eq_ok_iff] at h
      rcases h with ⟨r1, hleft, hright⟩
      have hfinal1 := hfinal.before_nil (extends_expr right hright).1
      have hresolved := resolvesExpr_of_expr right hright hfinal
      rw [(extends_expr left hleft).2] at hresolved
      rw [Resolution.ResolvesExpr]
      exact ⟨resolvesExpr_of_expr left hleft hfinal1, hresolved⟩
  | .string _, _, _, _, _ | .number _, _, _, _, _ | .bool _, _, _, _, _ | .null, _, _, _, _ => by
      rw [Resolution.ResolvesExpr]
      trivial
  | .ident name, r, r', h, hfinal => by
      rw [expr] at h
      rw [Resolution.ResolvesExpr]
      exact uses_of_use h hfinal
  | .field receiver _, r, r', h, hfinal => by
      rw [expr] at h
      rw [Resolution.ResolvesExpr]
      exact resolvesExpr_of_expr receiver h hfinal

theorem resolvesExprs_of_exprs : ∀ (es : List Expr) {r r' : Resolver}, r.exprs es = .ok r' ->
    FoundIn final [] r' -> final.ResolvesExprs r.scopes es
  | [], _, _, _, _ => by
      rw [Resolution.ResolvesExprs]
      trivial
  | e :: rest, r, r', h, hfinal => by
      rw [exprs, bind_eq_ok_iff] at h
      rcases h with ⟨r1, hfirst, hrest⟩
      have hfinal1 := hfinal.before_nil (extends_exprs rest hrest).1
      have hresolved := resolvesExprs_of_exprs rest hrest hfinal
      rw [(extends_expr e hfirst).2] at hresolved
      rw [Resolution.ResolvesExprs]
      exact ⟨resolvesExpr_of_expr e hfirst hfinal1, hresolved⟩

end

theorem closeFunction_eq {scopes : ScopeStack} {scope : Scope}
    (h : r.scopes = { scopes with inner := scope :: scopes.inner }) :
    r.closeFunction = { r with scopes := scopes } := by
  rw [closeFunction, h]
  rfl

theorem closeBlock_eq {scopes : ScopeStack} {scope : Scope}
    (h : r.scopes = { scopes with inner := scope :: scopes.inner }) (id : BlockId) :
    r.closeBlock id =
      { scopes := scopes
        found := { r.found with blocks := r.found.blocks.insert id scope.locals } } := by
  rw [closeBlock, h]
  rfl

mutual

theorem resolvesStmt_of_stmt : ∀ (s : Stmt) {r r' : Resolver}, r.stmt s = .ok r' ->
    s.blockIds.Nodup -> FoundIn final s.blockIds r' ->
    final.ResolvesStmt r.scopes s r'.scopes
  | .declare name value, r, r', h, _, hfinal => by
      rw [stmt, bind_eq_ok_iff] at h
      rcases h with ⟨r1, hvalue, hname⟩
      have hfinal1 := hfinal.before_nil (extends_declare hname).1
      have hdeclares := declares_of_declare hname hfinal
      rw [(extends_expr value hvalue).2] at hdeclares
      exact .declare (resolvesExpr_of_expr value hvalue hfinal1) hdeclares
  | .assign target value, r, r', h, _, hfinal => by
      rw [stmt, bind_eq_ok_iff] at h
      rcases h with ⟨r1, htarget, hvalue⟩
      have hfinal1 := hfinal.before_nil (extends_expr value hvalue).1
      have hresolved := resolvesExpr_of_expr value hvalue hfinal
      rw [(extends_use htarget).2.1] at hresolved
      rw [(extends_expr value hvalue).2, (extends_use htarget).2.1]
      exact .assign (uses_of_use htarget hfinal1) hresolved
  | .assignField receiver _ value, r, r', h, _, hfinal => by
      rw [stmt, bind_eq_ok_iff] at h
      rcases h with ⟨r1, hreceiver, hvalue⟩
      have hfinal1 := hfinal.before_nil (extends_expr value hvalue).1
      have hresolved := resolvesExpr_of_expr value hvalue hfinal
      rw [(extends_expr receiver hreceiver).2] at hresolved
      rw [(extends_expr value hvalue).2, (extends_expr receiver hreceiver).2]
      exact .assignField (resolvesExpr_of_expr receiver hreceiver hfinal1) hresolved
  | .function name params body, r, r', h, hdistinct, hfinal => by
      simp only [stmt, bind_eq_ok_iff, pure_eq_ok_iff] at h
      rcases h with ⟨r1, hname, r2, hparams, r3, hbody, rfl⟩
      rw [Stmt.blockIds] at hdistinct hfinal
      have hfinal3 : FoundIn final (blockIdsOfAll body) r3 :=
        hfinal.earlier (extends_closeFunction r3) fun _ hid => ⟨hid, List.not_mem_nil⟩
      have hfinal2 := hfinal3.before_nil (extends_stmts body hbody)
      have hfinal1 : FoundIn final [] r1 :=
        (hfinal2.before_nil (extends_declareAll hparams)).before_nil (.of_found rfl)
      have hdeclares := declares_of_declare hname hfinal1
      have hopened := declaresAll_of_declareAll hparams hfinal2
      have hresolved := resolvesAll_of_stmts body hbody hdistinct hfinal3
      have houter := (Resolution.sameOuter_of_declaresAll hopened).trans
        (Resolution.sameOuter_of_resolvesAll hresolved)
      rcases houter _ _ rfl with ⟨scope, hclosed, _⟩
      rw [hclosed] at hresolved
      rw [closeFunction_eq hclosed]
      exact .function hdeclares hopened hresolved
  | .choose branches none, r, r', h, hdistinct, hfinal => by
      simp only [stmt, bind_eq_ok_iff, pure_eq_ok_iff] at h
      rcases h with ⟨r1, hbranches, rfl⟩
      rw [Stmt.blockIds] at hdistinct hfinal
      rcases resolvesBranches_of_branches branches hbranches hdistinct hfinal with
        ⟨hresolved, hscopes⟩
      rw [hscopes]
      exact .choose hresolved .none
  | .choose branches (some body), r, r', h, hdistinct, hfinal => by
      simp only [stmt, bind_eq_ok_iff] at h
      rcases h with ⟨r1, hbranches, hbody⟩
      rw [Stmt.blockIds] at hdistinct hfinal
      have hfinal1 := hfinal.before (extends_block body hbody) hdistinct
      rcases List.nodup_append.mp hdistinct with ⟨hdistinct1, hdistinct2, _⟩
      rcases resolvesBranches_of_branches branches hbranches hdistinct1 hfinal1 with
        ⟨hresolved, hscopes⟩
      rcases resolvesBlock_of_block body hbody hdistinct2 hfinal.right with ⟨hblock, hscopes'⟩
      rw [hscopes] at hblock
      rw [hscopes', hscopes]
      exact .choose hresolved (.some hblock)
  | .loop condition body, r, r', h, hdistinct, hfinal => by
      rw [stmt, bind_eq_ok_iff] at h
      rcases h with ⟨r1, hcondition, hbody⟩
      rw [Stmt.blockIds] at hdistinct hfinal
      have hfinal1 := hfinal.before_nil (extends_block body hbody)
      rcases resolvesBlock_of_block body hbody hdistinct hfinal with ⟨hblock, hscopes⟩
      rw [(extends_expr condition hcondition).2] at hblock hscopes
      rw [hscopes]
      exact .loop (resolvesExpr_of_expr condition hcondition hfinal1) hblock
  | .giveBack value _, r, r', h, _, hfinal => by
      rw [stmt] at h
      rw [(extends_expr value h).2]
      exact .giveBack (resolvesExpr_of_expr value h hfinal)
  | .evaluate value, r, r', h, _, hfinal => by
      rw [stmt] at h
      rw [(extends_expr value h).2]
      exact .evaluate (resolvesExpr_of_expr value h hfinal)
  | .block body, r, r', h, hdistinct, hfinal => by
      rw [stmt] at h
      rw [Stmt.blockIds] at hdistinct hfinal
      rcases resolvesBlock_of_block body h hdistinct hfinal with ⟨hblock, hscopes⟩
      rw [hscopes]
      exact .block hblock

theorem resolvesBlock_of_block : ∀ (b : Block) {r r' : Resolver}, r.block b = .ok r' ->
    b.blockIds.Nodup -> FoundIn final b.blockIds r' ->
    final.ResolvesBlock r.scopes b ∧ r'.scopes = r.scopes
  | { id, statements }, r, r', h, hdistinct, hfinal => by
      simp only [block, bind_eq_ok_iff, pure_eq_ok_iff] at h
      rcases h with ⟨r1, hbody, rfl⟩
      rw [Block.blockIds] at hdistinct hfinal
      rcases List.nodup_cons.mp hdistinct with ⟨hid, hdistinct1⟩
      have hfinal1 : FoundIn final (blockIdsOfAll statements) r1 := by
        apply hfinal.earlier (extends_closeBlock r1 id)
        intro other hother
        refine ⟨List.mem_cons_of_mem _ hother, ?_⟩
        rw [List.mem_singleton]
        rintro rfl
        exact hid hother
      have hresolved := resolvesAll_of_stmts statements hbody hdistinct1 hfinal1
      rcases Resolution.sameOuter_of_resolvesAll hresolved _ _ rfl with ⟨scope, hclosed, _⟩
      have hsize := hfinal.blocks id List.mem_cons_self
      rw [closeBlock_eq hclosed, Std.TreeMap.getElem?_insert_self] at hsize
      rw [hclosed] at hresolved
      rw [closeBlock_eq hclosed]
      exact ⟨.braces hresolved hsize, rfl⟩

theorem resolvesAll_of_stmts : ∀ (statements : List Stmt) {r r' : Resolver},
    r.stmts statements = .ok r' -> (blockIdsOfAll statements).Nodup ->
    FoundIn final (blockIdsOfAll statements) r' ->
    final.ResolvesAll r.scopes statements r'.scopes
  | [], r, r', h, _, _ => by
      rw [stmts] at h
      cases h
      exact .nil
  | s :: rest, r, r', h, hdistinct, hfinal => by
      rw [stmts, bind_eq_ok_iff] at h
      rcases h with ⟨r1, hfirst, hrest⟩
      rw [blockIdsOfAll] at hdistinct hfinal
      have hfinal1 := hfinal.before (extends_stmts rest hrest) hdistinct
      rcases List.nodup_append.mp hdistinct with ⟨hdistinct1, hdistinct2, _⟩
      exact .cons (resolvesStmt_of_stmt s hfirst hdistinct1 hfinal1)
        (resolvesAll_of_stmts rest hrest hdistinct2 hfinal.right)

theorem resolvesBranches_of_branches : ∀ (branches : List Branch) {r r' : Resolver},
    r.branches branches = .ok r' -> (blockIdsOfBranches branches).Nodup ->
    FoundIn final (blockIdsOfBranches branches) r' ->
    final.ResolvesBranches r.scopes branches ∧ r'.scopes = r.scopes
  | [], r, r', h, _, _ => by
      rw [Resolver.branches] at h
      cases h
      exact ⟨.nil, rfl⟩
  | { condition, body } :: rest, r, r', h, hdistinct, hfinal => by
      simp only [Resolver.branches, bind_eq_ok_iff] at h
      rcases h with ⟨r1, hcondition, r2, hbody, hrest⟩
      rw [blockIdsOfBranches] at hdistinct hfinal
      have hfinal2 := hfinal.before (extends_branches rest hrest) hdistinct
      have hfinal1 := hfinal2.before_nil (extends_block body hbody)
      rcases List.nodup_append.mp hdistinct with ⟨hdistinct1, hdistinct2, _⟩
      rcases resolvesBlock_of_block body hbody hdistinct1 hfinal2 with ⟨hblock, hscopes⟩
      rcases resolvesBranches_of_branches rest hrest hdistinct2 hfinal.right with
        ⟨hresolved, hscopes'⟩
      have hcond := resolvesExpr_of_expr condition hcondition hfinal1
      rw [hscopes] at hresolved hscopes'
      rw [(extends_expr condition hcondition).2] at hblock hresolved hscopes'
      exact ⟨.cons hcond hblock hresolved, hscopes'⟩

end

end Resolver

theorem Program.resolvesAll_of_resolve {program : Program} {builtins : List Builtin}
    {resolution : Resolution} (h : program.resolve builtins = .ok resolution)
    (hdistinct : program.blocks.Nodup) :
    ∃ after, resolution.ResolvesAll (.ofBuiltins builtins) program.statements after := by
  simp only [resolve, bind_eq_ok_iff, pure_eq_ok_iff] at h
  rcases h with ⟨r, hstmts, rfl⟩
  rw [blocks_eq] at hdistinct
  have hfinal : r.FoundIn r.found (blockIdsOfAll program.statements) :=
    ⟨fun _ _ hid => hid, fun _ _ => rfl⟩
  exact ⟨r.scopes, Resolver.resolvesAll_of_stmts program.statements hstmts hdistinct hfinal⟩

end StackScript
