import StackScript.Proofs.NameFaults

/-!
# The tables of a resolution

The resolver and the outline of a program go over the tree in different orders:
the resolver comes to a first value before the name that it is for, and to the
end of a block before it notes the block.  They still come to the same names and
blocks, so the tables of a resolution have an entry for each of these and no
other.
-/

namespace StackScript

theorem mem_insert_iff {β : Type} {table : Std.TreeMap Nat β} {key id : Nat} {value : β} :
    id ∈ table.insert key value ↔ id ∈ table ∨ id ∈ [key] := by
  rw [Std.TreeMap.mem_insert, Std.LawfulEqOrd.compare_eq_iff_eq, List.mem_singleton, or_comm,
    eq_comm]

namespace Resolver

/-!
## Entries that a step adds
-/

/-- The step adds entries for the given names and blocks, and for nothing else. -/
structure Notes (names : List Identifier) (ids : List BlockId) (r r' : Resolver) : Prop where
  identifiers : ∀ id : IdentId,
    id ∈ r'.found.identifiers ↔ id ∈ r.found.identifiers ∨ id ∈ names.map (·.id)
  blocks : ∀ id : BlockId, id ∈ r'.found.blocks ↔ id ∈ r.found.blocks ∨ id ∈ ids

namespace Notes

variable {names names' : List Identifier} {ids ids' : List BlockId} {r r' r'' : Resolver}

theorem of_found (h : r'.found = r.found) : Notes [] [] r r' where
  identifiers id := by simp [h]
  blocks id := by simp [h]

theorem refl (r : Resolver) : Notes [] [] r r :=
  of_found rfl

theorem trans (h : Notes names ids r r') (h' : Notes names' ids' r' r'') :
    Notes (names ++ names') (ids ++ ids') r r'' where
  identifiers id := by
    rw [h'.identifiers, h.identifiers, List.map_append, List.mem_append, or_assoc]
  blocks id := by
    rw [h'.blocks, h.blocks, List.mem_append, or_assoc]

theorem perm (h : Notes names ids r r') (hnames : names.Perm names') (hids : ids.Perm ids') :
    Notes names' ids' r r' where
  identifiers id := by
    rw [h.identifiers, (hnames.map (·.id)).mem_iff]
  blocks id := by
    rw [h.blocks, hids.mem_iff]

end Notes

variable {r r' : Resolver}

theorem notes_record {name : Identifier} {storage : Storage}
    (h : r.record name storage = .ok r') : Notes [name] [] r r' := by
  unfold record at h
  split at h
  · cases h
  · cases h
    constructor
    · intro id
      exact mem_insert_iff
    · intro id
      simp

theorem notes_declare {name : Identifier} (h : r.declare name = .ok r') :
    Notes [name] [] r r' := by
  rcases declare_eq_ok_iff.mp h with ⟨storage, scopes, _, hrecord⟩
  have hopened : Notes [] [] r { r with scopes := scopes } := .of_found rfl
  exact hopened.trans (notes_record hrecord)

theorem notes_use {name : Identifier} (h : r.use name = .ok r') : Notes [name] [] r r' := by
  unfold use at h
  cases hlookup : r.scopes.lookup name.name with
  | none =>
      rw [hlookup] at h
      cases h
  | some storage =>
      rw [hlookup] at h
      exact notes_record h

theorem notes_declareAll {names : List Identifier} (h : r.declareAll names = .ok r') :
    Notes names [] r r' := by
  induction names generalizing r with
  | nil =>
      cases h
      exact .refl _
  | cons name rest ih =>
      rw [declareAll, bind_eq_ok_iff] at h
      rcases h with ⟨r1, hname, hrest⟩
      exact (notes_declare hname).trans (ih hrest)

theorem notes_closeFunction (r : Resolver) : Notes [] [] r r.closeFunction := by
  unfold closeFunction
  cases r.scopes.pop? with
  | none => exact .refl _
  | some popped => exact .of_found rfl

theorem notes_closeBlock (r : Resolver) (id : BlockId) : Notes [] [id] r (r.closeBlock id) := by
  unfold closeBlock
  cases r.scopes.pop? with
  | none => exact ⟨fun _ => by simp, fun _ => mem_insert_iff⟩
  | some popped => exact ⟨fun _ => by simp, fun _ => mem_insert_iff⟩

/-!
## Expressions and statements
-/

mutual

theorem notes_expr : ∀ (e : Expr) {r r' : Resolver}, r.expr e = .ok r' ->
    Notes e.references [] r r'
  | .call callee arguments _, r, r', h => by
      rw [expr, bind_eq_ok_iff] at h
      rcases h with ⟨r1, hcallee, harguments⟩
      exact (notes_expr callee hcallee).trans (notes_exprs arguments harguments)
  | .unary _ operand _, r, r', h => by
      rw [expr] at h
      exact notes_expr operand h
  | .binary _ left right _, r, r', h => by
      rw [expr, bind_eq_ok_iff] at h
      rcases h with ⟨r1, hleft, hright⟩
      exact (notes_expr left hleft).trans (notes_expr right hright)
  | .string _, r, r', h | .number _, r, r', h | .bool _, r, r', h | .null, r, r', h => by
      rw [expr] at h
      cases h
      exact .refl _
  | .ident name, r, r', h => by
      rw [expr] at h
      exact notes_use h
  | .field receiver _, r, r', h => by
      rw [expr] at h
      exact notes_expr receiver h

theorem notes_exprs : ∀ (es : List Expr) {r r' : Resolver}, r.exprs es = .ok r' ->
    Notes (referencesOfAll es) [] r r'
  | [], r, r', h => by
      rw [exprs] at h
      cases h
      exact .refl _
  | e :: rest, r, r', h => by
      rw [exprs, bind_eq_ok_iff] at h
      rcases h with ⟨r1, hfirst, hrest⟩
      exact (notes_expr e hfirst).trans (notes_exprs rest hrest)

end

mutual

theorem notes_stmt : ∀ (s : Stmt) {r r' : Resolver}, r.stmt s = .ok r' ->
    Notes s.bindings s.blockIds r r'
  | .declare name value, r, r', h => by
      rw [stmt, bind_eq_ok_iff] at h
      rcases h with ⟨r1, hvalue, hname⟩
      -- the outline has the name in front of its value
      exact ((notes_expr value hvalue).trans (notes_declare hname)).perm
        (List.perm_append_singleton name value.references) .nil
  | .assign target value, r, r', h => by
      rw [stmt, bind_eq_ok_iff] at h
      rcases h with ⟨r1, htarget, hvalue⟩
      exact (notes_use htarget).trans (notes_expr value hvalue)
  | .assignField receiver _ value, r, r', h => by
      rw [stmt, bind_eq_ok_iff] at h
      rcases h with ⟨r1, hreceiver, hvalue⟩
      exact (notes_expr receiver hreceiver).trans (notes_expr value hvalue)
  | .function name params body, r, r', h => by
      simp only [stmt, bind_eq_ok_iff, pure_eq_ok_iff] at h
      rcases h with ⟨r1, hname, r2, hparams, r3, hbody, rfl⟩
      have hopened : Notes [] [] r1 { r1 with scopes := r1.scopes.pushFunction } := .of_found rfl
      have hall := (notes_declare hname).trans (hopened.trans ((notes_declareAll hparams).trans
        ((notes_stmts body hbody).trans (notes_closeFunction r3))))
      rw [List.append_nil, List.append_nil] at hall
      rw [Stmt.bindings, Stmt.blockIds]
      exact hall
  | .choose branches none, r, r', h => by
      simp only [stmt, bind_eq_ok_iff, pure_eq_ok_iff] at h
      rcases h with ⟨r1, hbranches, rfl⟩
      rw [Stmt.bindings, Stmt.blockIds]
      exact notes_branches branches hbranches
  | .choose branches (some body), r, r', h => by
      simp only [stmt, bind_eq_ok_iff] at h
      rcases h with ⟨r1, hbranches, hbody⟩
      rw [Stmt.bindings, Stmt.blockIds]
      exact (notes_branches branches hbranches).trans (notes_block body hbody)
  | .loop condition body, r, r', h => by
      rw [stmt, bind_eq_ok_iff] at h
      rcases h with ⟨r1, hcondition, hbody⟩
      rw [Stmt.bindings, Stmt.blockIds]
      exact (notes_expr condition hcondition).trans (notes_block body hbody)
  | .giveBack value _, r, r', h => by
      rw [stmt] at h
      exact notes_expr value h
  | .evaluate value, r, r', h => by
      rw [stmt] at h
      exact notes_expr value h
  | .block body, r, r', h => by
      rw [stmt] at h
      rw [Stmt.bindings, Stmt.blockIds]
      exact notes_block body h

theorem notes_block : ∀ (b : Block) {r r' : Resolver}, r.block b = .ok r' ->
    Notes b.bindings b.blockIds r r'
  | { id, statements }, r, r', h => by
      simp only [block, bind_eq_ok_iff, pure_eq_ok_iff] at h
      rcases h with ⟨r1, hbody, rfl⟩
      have hopened : Notes [] [] r { r with scopes := r.scopes.pushBlock } := .of_found rfl
      have hall := hopened.trans ((notes_stmts statements hbody).trans (notes_closeBlock r1 id))
      rw [Block.bindings, Block.blockIds]
      -- a block is noted behind those inside it
      exact hall.perm (.of_eq (List.append_nil _)) (List.perm_append_singleton id _)

theorem notes_stmts : ∀ (statements : List Stmt) {r r' : Resolver},
    r.stmts statements = .ok r' ->
    Notes (bindingsOfAll statements) (blockIdsOfAll statements) r r'
  | [], r, r', h => by
      rw [stmts] at h
      cases h
      exact .refl _
  | s :: rest, r, r', h => by
      rw [stmts, bind_eq_ok_iff] at h
      rcases h with ⟨r1, hfirst, hrest⟩
      rw [bindingsOfAll, blockIdsOfAll]
      exact (notes_stmt s hfirst).trans (notes_stmts rest hrest)

theorem notes_branches : ∀ (branches : List Branch) {r r' : Resolver},
    r.branches branches = .ok r' ->
    Notes (bindingsOfBranches branches) (blockIdsOfBranches branches) r r'
  | [], r, r', h => by
      rw [Resolver.branches] at h
      cases h
      exact .refl _
  | { condition, body } :: rest, r, r', h => by
      simp only [Resolver.branches, bind_eq_ok_iff] at h
      rcases h with ⟨r1, hcondition, r2, hbody, hrest⟩
      rw [bindingsOfBranches, blockIdsOfBranches]
      exact (notes_expr condition hcondition).trans
        ((notes_block body hbody).trans (notes_branches rest hrest))

end

end Resolver

namespace Program

/-!
## Programs
-/

theorem tables_of_resolve {program : Program} {builtins : List Builtin} {r : Resolution}
    (h : program.resolve builtins = .ok r) :
    (∀ id, id ∈ r.identifiers ↔ id ∈ program.bindings.map (·.id)) ∧
      ∀ id, id ∈ r.blocks ↔ id ∈ program.blocks := by
  simp only [resolve, bind_eq_ok_iff, pure_eq_ok_iff] at h
  rcases h with ⟨last, hstmts, rfl⟩
  have hnotes := Resolver.notes_stmts program.statements hstmts
  rw [bindings_eq, blocks_eq]
  constructor
  · intro id
    rw [hnotes.identifiers id]
    simp
  · intro id
    rw [hnotes.blocks id]
    simp

/-- A resolution covers the program: its tables have an entry for each name and
each block of the outline and for nothing else, and no name is come to twice. -/
theorem resolve_covers (program : Program) (builtins : List Builtin)
    (hnames : (program.bindings.map (·.id)).Nodup) :
    (∀ r, program.resolve builtins = .ok r ->
        (∀ id, id ∈ r.identifiers ↔ id ∈ program.bindings.map (·.id)) ∧
          ∀ id, id ∈ r.blocks ↔ id ∈ program.blocks) ∧
      ∀ name span, program.resolve builtins ≠ .error (.resolvedTwice name span) := by
  constructor
  · intro r h
    exact tables_of_resolve h
  · intro name span h
    -- a second visit is none of the faults that a program can have
    cases faulty_of_resolve hnames h

def scattered : Program where
  statements :=
    [.function ⟨7, "f", ⟨1, 4⟩⟩ [⟨2, "a", ⟨1, 6⟩⟩]
        [.loop (.ident ⟨9, "a", ⟨2, 10⟩⟩)
          { id := 5
            statements :=
              [.declare ⟨0, "b", ⟨3, 9⟩⟩ (.field (.ident ⟨4, "a", ⟨3, 13⟩⟩) ⟨1, "next", ⟨3, 15⟩⟩)] }],
      .choose [{ condition := .ident ⟨3, "f", ⟨6, 5⟩⟩, body := { id := 1, statements := [] } }]
        (some
          { id := 5
            statements :=
              [.assignField (.call (.ident ⟨8, "f", ⟨7, 3⟩⟩) [.number 1] ⟨7, 4⟩)
                  ⟨6, "g", ⟨7, 8⟩⟩ (.ident ⟨11, "print", ⟨7, 12⟩⟩)] })]

theorem resolve_covers_scattered :
    (scattered.bindings.map (·.id)).Nodup ∧
      ∃ r, scattered.resolve [{ Builtin.println with name := "print" }] = .ok r ∧
        (∀ id, id ∈ r.identifiers ↔ id ∈ [7, 2, 9, 0, 4, 3, 8, 11]) ∧
        ∀ id, id ∈ r.blocks ↔ id ∈ [5, 1, 5] := by
  have hnames : (scattered.bindings.map (·.id)).Nodup := by decide +kernel
  have hcovers := (resolve_covers scattered [{ Builtin.println with name := "print" }] hnames).1
  refine ⟨hnames, exists_ok_of_map (fun _ => ()) (y := ()) (by decide +kernel) ?_⟩
  intro r hr _
  have hids : scattered.bindings.map (·.id) = [7, 2, 9, 0, 4, 3, 8, 11] := by decide +kernel
  have hblocks : scattered.blocks = [5, 1, 5] := by decide +kernel
  rw [← hids, ← hblocks]
  exact hcovers r hr

end Program
end StackScript
