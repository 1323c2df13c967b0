import StackScript.Proofs.EmissionLimits
import StackScript.Proofs.LexicalScoping
import StackScript.Proofs.ParsedMarks

/-!
# Why a program has no code

In a program whose names are resolved every expression has code.  A statement
has none only where it assigns to a built-in function.
-/

namespace StackScript

/-!
## What names stand for
-/

namespace Program

variable {program : Program} {builtins : List Builtin} {around : Surroundings}

theorem exists_declaresAt_of_declaredBy {statements before rest : List Stmt} {d : Identifier}
    (hsplit : statements = before ++ rest) (hd : d ∈ declaredBy before)
    (hstands : ∀ before s rest, statements = before ++ s :: rest ->
      ∃ around, program.Stands around s) :
    ∃ place, program.DeclaresAt place d := by
  rcases List.mem_flatMap.mp hd with ⟨s, hs, hdeclared⟩
  rcases List.append_of_mem hs with ⟨earlier, later, hbefore⟩
  rw [hbefore, List.append_assoc, List.cons_append] at hsplit
  rcases hstands earlier s (later ++ rest) hsplit with ⟨around, hplace⟩
  exact ⟨around, .statement hplace hdeclared⟩

theorem Stands.exists_declaresAt {s : Stmt} (h : program.Stands around s) {d : Identifier}
    (hd : d ∈ around.scopes.flatten ++ around.globals) :
    ∃ place, program.DeclaresAt place d := by
  induction h with
  | @outside before rest _ hsplit =>
      refine exists_declaresAt_of_declaredBy hsplit ?_ fun _ _ _ hsplit => ⟨_, .outside hsplit⟩
      simpa [Surroundings.after] using hd
  | @inBlock around outer s block before rest houter hblock hsplit ih =>
      simp only [Surroundings.inBlock, Surroundings.after, List.append_nil, List.flatten_cons,
        List.append_assoc, List.mem_append, List.mem_reverse] at hd
      rcases hd with hd | hd
      · exact exists_declaresAt_of_declaredBy hsplit hd
          fun _ _ _ hsplit => ⟨_, .inBlock houter hblock hsplit⟩
      · exact ih (List.mem_append.mpr hd)
  | @inFunction around name params body before rest s houter hsplit ih =>
      simp only [Surroundings.inFunction, Surroundings.after, List.append_nil, List.flatten_cons,
        List.flatten_nil, List.mem_append, List.mem_reverse] at hd
      rcases hd with (hd | hd) | hd
      · rcases List.append_of_mem hd with ⟨earlier, later, hparams⟩
        exact ⟨_, .parameter houter hparams⟩
      · exact exists_declaresAt_of_declaredBy hsplit hd
          fun _ _ _ hsplit => ⟨_, .inFunction houter hsplit⟩
      · cases hscopes : around.scopes with
        | nil =>
            simp only [hscopes, List.reverse_singleton, List.singleton_append, List.mem_cons] at hd
            rcases hd with rfl | hd
            · exact ⟨around, .statement houter List.mem_cons_self⟩
            · exact ih (List.mem_append_right _ hd)
        | cons own outer =>
            simp only [hscopes] at hd
            exact ih (List.mem_append_right _ hd)

end Program

def Storage.Changeable : Storage -> Prop
  | localSlot _ _ | globalName _ => True
  | builtin _ _ => False

namespace Program.Lexical

variable {program : Program} {builtins : List Builtin} {r : Resolution} {around : Surroundings}

theorem changeable_of_declaresAt (h : program.Lexical builtins r) {d : Identifier}
    (hplace : program.DeclaresAt around d) :
    ∃ storage, r.storage? d = some storage ∧ storage.Changeable := by
  by_cases houtside : around.scopes = []
  · exact ⟨_, h.global around d hplace houtside, trivial⟩
  · rcases h.localSlot around d hplace houtside with ⟨slot, hstorage, _⟩
    exact ⟨_, hstorage, trivial⟩

theorem storage_of_refersAt (h : program.Lexical builtins r) {x : Identifier}
    (hplace : program.RefersAt around x) :
    ∃ storage, r.storage? x = some storage ∧
      (storage.Changeable ∨ around.find? x.name = none ∧
        ∃ b ∈ builtins, b.name = x.name ∧ storage = .builtin b.name b.arity) := by
  cases hfind : around.find? x.name with
  | some d =>
      rcases h.reference around x d hplace hfind with ⟨storage, hd, hx⟩
      have hvisible : d ∈ around.scopes.flatten ++ around.globals :=
        List.mem_of_find?_eq_some hfind
      cases hplace with
      | statement hstands _ =>
          rcases hstands.exists_declaresAt hvisible with ⟨place, hdeclares⟩
          rcases h.changeable_of_declaresAt hdeclares with ⟨storage', hd', hchange⟩
          cases hd.symm.trans hd'
          exact ⟨storage, hx, Or.inl hchange⟩
  | none =>
      rcases h.builtin around x hplace hfind with ⟨b, hb, hx⟩
      refine ⟨_, hx, Or.inr ⟨rfl, b, ?_, ?_, rfl⟩⟩
      · exact List.mem_reverse.mp (List.mem_of_find?_eq_some hb)
      · have hname := List.find?_some hb
        exact beq_iff_eq.mp hname

end Program.Lexical

/-!
## Supported code
-/

namespace Fragment

variable {names : List String} {f g : Fragment}

theorem allSupported_iff {fs : List Fragment} :
    AllSupported names fs ↔ ∀ f ∈ fs, f.Supported names := by
  induction fs with
  | nil => simp [AllSupported]
  | cons f rest ih => rw [AllSupported, ih, List.forall_mem_cons]

theorem supported_unaryOp (op : UnaryOp) (hf : f.Supported names) :
    (op.lower f).Supported names := by
  cases op <;> exact ⟨hf, trivial, trivial⟩

theorem supported_binaryOp (op : BinaryOp) (hf : f.Supported names) (hg : g.Supported names) :
    (op.lower f g).Supported names := by
  have hplain : ∀ opcode, (binary f g opcode).Supported names :=
    fun _ => ⟨hf, hg, trivial, trivial⟩
  cases op with
  | greaterEqual | lessEqual | notEqual => exact ⟨hplain _, trivial, trivial⟩
  | and | or => exact ⟨hf, hg⟩
  | _ => exact hplain _

theorem supported_pops (count : Nat) : (pops count).Supported names := by
  rw [pops, Supported, allSupported_iff]
  intro part hpart
  rw [List.eq_of_mem_replicate hpart]
  trivial

end Fragment

namespace Storage

variable {names : List String} {storage : Storage} {f : Fragment}

theorem Changeable.read (h : storage.Changeable) : storage.read.Supported names := by
  cases storage with
  | builtin name arity => cases h
  | _ => trivial

theorem Changeable.write (h : storage.Changeable) (hf : f.Supported names) :
    ∃ code, storage.write? f = some code ∧ code.Supported names := by
  cases storage with
  | builtin name arity => cases h
  | _ => exact ⟨_, rfl, hf, trivial, trivial⟩

theorem Changeable.introduce (h : storage.Changeable) (hf : f.Supported names) :
    ∃ code, storage.introduce? f = some code ∧ code.Supported names := by
  cases storage with
  | localSlot name slot => exact ⟨f, rfl, hf⟩
  | globalName name => exact ⟨_, rfl, hf, trivial, trivial⟩
  | builtin name arity => cases h

end Storage

/-!
## Expressions
-/

namespace Resolution

variable {r : Resolution} {names : List String}

def Readable (r : Resolution) (names : List String) (x : Identifier) : Prop :=
  ∃ storage, r.storage? x = some storage ∧ storage.read.Supported names

mutual

theorem exists_lowerExpr : ∀ e : Expr, (∀ x ∈ e.references, r.Readable names x) ->
    e.CallsFit -> ∃ f, r.lowerExpr e = .ok f ∧ f.Supported names
  | .call callee arguments _, hnames, hfits => by
      rw [Expr.references, List.forall_mem_append] at hnames
      rw [Expr.CallsFit] at hfits
      rcases hfits with ⟨hcount, hcallee, harguments⟩
      rcases exists_lowerExprs arguments hnames.2 harguments with ⟨fs, hfs, hlength, hall⟩
      rcases exists_lowerExpr callee hnames.1 hcallee with ⟨f, hf, hsupported⟩
      refine ⟨.call f fs, ?_, ?_, hsupported, hall⟩
      · rw [lowerExpr, hfs, hf]
        rfl
      · rw [hlength]
        exact hcount
  | .unary op operand _, hnames, hfits => by
      rw [Expr.references] at hnames
      rw [Expr.CallsFit] at hfits
      rcases exists_lowerExpr operand hnames hfits with ⟨f, hf, hsupported⟩
      refine ⟨op.lower f, ?_, Fragment.supported_unaryOp op hsupported⟩
      rw [lowerExpr, hf]
      rfl
  | .binary op left right _, hnames, hfits => by
      rw [Expr.references, List.forall_mem_append] at hnames
      rw [Expr.CallsFit] at hfits
      rcases exists_lowerExpr left hnames.1 hfits.1 with ⟨f, hf, hsupported⟩
      rcases exists_lowerExpr right hnames.2 hfits.2 with ⟨g, hg, hsupported'⟩
      refine ⟨op.lower f g, ?_, Fragment.supported_binaryOp op hsupported hsupported'⟩
      rw [lowerExpr, hf, hg]
      rfl
  | .string text, _, _ => ⟨.string text, by rw [lowerExpr], trivial⟩
  | .number value, _, _ => ⟨.int value, by rw [lowerExpr], trivial⟩
  | .bool value, _, _ => ⟨.bool value, by rw [lowerExpr], trivial⟩
  | .null, _, _ => ⟨.null, by rw [lowerExpr], trivial⟩
  | .ident name, hnames, _ => by
      rw [Expr.references, List.forall_mem_singleton] at hnames
      rcases hnames with ⟨storage, hstorage, hsupported⟩
      refine ⟨storage.read, ?_, hsupported⟩
      rw [lowerExpr, storage_eq_ok_iff.mpr hstorage]
      rfl
  | .field receiver name, hnames, hfits => by
      rw [Expr.references] at hnames
      rw [Expr.CallsFit] at hfits
      rcases exists_lowerExpr receiver hnames hfits with ⟨f, hf, hsupported⟩
      refine ⟨.getField f name.name, ?_, hsupported, trivial, trivial⟩
      rw [lowerExpr, hf]
      rfl

theorem exists_lowerExprs : ∀ es : List Expr, (∀ x ∈ referencesOfAll es, r.Readable names x) ->
    CallsFitIn es ->
    ∃ fs, r.lowerExprs es = .ok fs ∧ fs.length = es.length ∧ Fragment.AllSupported names fs
  | [], _, _ => ⟨[], by rw [lowerExprs], rfl, trivial⟩
  | e :: rest, hnames, hfits => by
      rw [referencesOfAll, List.forall_mem_append] at hnames
      rw [CallsFitIn] at hfits
      rcases exists_lowerExpr e hnames.1 hfits.1 with ⟨f, hf, hsupported⟩
      rcases exists_lowerExprs rest hnames.2 hfits.2 with ⟨fs, hfs, hlength, hall⟩
      refine ⟨f :: fs, ?_, congrArg (· + 1) hlength, hsupported, hall⟩
      rw [lowerExprs, hf, hfs]
      rfl

end

end Resolution

/-!
## Statements
-/

inductive Program.AssignsBuiltin (program : Program) (builtins : List Builtin) :
    CompileError -> Prop where
  | target {around : Surroundings} {x : Identifier} {value : Expr}
      (hplace : program.Stands around (.assign x value)) (hfind : around.find? x.name = none)
      (hbuiltin : ∃ b ∈ builtins, b.name = x.name) :
      AssignsBuiltin program builtins (.assignToBuiltin x.name x.span)

namespace Resolution

section Program

variable {program : Program} {builtins : List Builtin} {r : Resolution} {around : Surroundings}
  (hlexical : program.Lexical builtins r)

include hlexical

theorem readable_of_stands {s : Stmt} (hstands : program.Stands around s) :
    ∀ x ∈ s.references, r.Readable (builtins.map (·.name)) x := by
  intro x hx
  rcases hlexical.storage_of_refersAt (.statement hstands hx) with
    ⟨storage, hstorage, hchange | ⟨_, b, hb, _, rfl⟩⟩
  · exact ⟨storage, hstorage, hchange.read⟩
  · exact ⟨_, hstorage, List.mem_map_of_mem hb⟩

theorem exists_introduce {d : Identifier} {value : Fragment}
    (hplace : program.DeclaresAt around d) (hvalue : value.Supported (builtins.map (·.name))) :
    ∃ f, r.introduce d value = .ok f ∧ f.Supported (builtins.map (·.name)) := by
  rcases hlexical.changeable_of_declaresAt hplace with ⟨storage, hstorage, hchange⟩
  rcases hchange.introduce hvalue with ⟨code, hcode, hsupported⟩
  exact ⟨code, introduce_eq_ok_iff.mpr ⟨storage, hstorage, hcode⟩, hsupported⟩

theorem assign_ends {x : Identifier} {e : Expr} {value : Fragment}
    (hstands : program.Stands around (.assign x e))
    (hvalue : value.Supported (builtins.map (·.name))) :
    Ends (r.assign x value) (program.AssignsBuiltin builtins)
      (Fragment.Supported (builtins.map (·.name))) := by
  rcases hlexical.storage_of_refersAt (.statement hstands List.mem_cons_self) with
    ⟨storage, hstorage, hchange | ⟨hfind, b, hb, hname, rfl⟩⟩
  · rcases hchange.write hvalue with ⟨code, hcode, hsupported⟩
    exact .of_ok (assign_eq_ok_iff.mpr ⟨storage, hstorage, hcode⟩) hsupported
  · have hassign : r.assign x value = .error (.assignToBuiltin x.name x.span) := by
      rw [assign, storage_eq_ok_iff.mpr hstorage]
      rfl
    exact .of_error hassign (.target hstands hfind ⟨b, hb, hname⟩)

end Program

section Statements

variable {program : Program} {builtins : List Builtin} {r : Resolution}

mutual

theorem lowerStmt_ends (hlexical : program.Lexical builtins r) :
    ∀ (s : Stmt) {around : Surroundings}, program.Stands around s -> s.CountsFit ->
    Ends (r.lowerStmt s) (program.AssignsBuiltin builtins)
      (Fragment.Supported (builtins.map (·.name)))
  | .declare name value, around, hstands, hfits => by
      rw [Stmt.CountsFit] at hfits
      rcases exists_lowerExpr value (readable_of_stands hlexical hstands) hfits with
        ⟨f, hf, hsupported⟩
      rcases exists_introduce hlexical (.statement hstands List.mem_cons_self) hsupported with
        ⟨code, hcode, hsupported'⟩
      rw [lowerStmt, hf]
      exact .of_ok hcode hsupported'
  | .assign target value, around, hstands, hfits => by
      rw [Stmt.CountsFit] at hfits
      have hnames := readable_of_stands hlexical hstands
      rw [Stmt.references, List.forall_mem_cons] at hnames
      rcases exists_lowerExpr value hnames.2 hfits with ⟨f, hf, hsupported⟩
      rw [lowerStmt, hf]
      exact assign_ends hlexical hstands hsupported
  | .assignField receiver field value, around, hstands, hfits => by
      rw [Stmt.CountsFit] at hfits
      have hnames := readable_of_stands hlexical hstands
      rw [Stmt.references, List.forall_mem_append] at hnames
      rcases exists_lowerExpr value hnames.2 hfits.2 with ⟨f, hf, hsupported⟩
      rcases exists_lowerExpr receiver hnames.1 hfits.1 with ⟨g, hg, hsupported'⟩
      rw [lowerStmt, hf, hg]
      exact .of_ok rfl ⟨hsupported', hsupported, trivial, trivial⟩
  | .function name params body, around, hstands, hfits => by
      rw [Stmt.CountsFit] at hfits
      rw [lowerStmt, arity_eq_ok_iff.mpr ⟨hfits.1, rfl⟩]
      refine (lowerStmts_ends hlexical body ?_ hfits.2 [] (List.forall_mem_nil _)).bind ?_
      · intro before s rest hsplit
        exact ⟨_, .inFunction hstands hsplit⟩
      · intro codes _ hcodes
        have hbody : (Fragment.define name.name (UInt8.ofNat params.length) (.sequence
            [.sequence codes, .giveBack .null])).Supported (builtins.map (·.name)) :=
          ⟨Fragment.allSupported_iff.mpr hcodes, ⟨trivial, trivial, trivial⟩, trivial⟩
        rcases exists_introduce hlexical (.statement hstands List.mem_cons_self) hbody with
          ⟨code, hcode, hsupported⟩
        exact .of_ok hcode hsupported
  | .choose branches none, around, hstands, hfits => by
      rw [Stmt.CountsFit] at hfits
      rw [lowerStmt]
      refine (lowerBranches_ends hlexical branches hstands
        (fun _ => Stmt.parts_of_branch) hfits).bind ?_
      intro codes _ hcodes
      exact .of_ok rfl ⟨hcodes, trivial⟩
  | .choose branches (some otherwise), around, hstands, hfits => by
      rw [Stmt.CountsFit] at hfits
      rw [lowerStmt]
      refine (lowerBranches_ends hlexical branches hstands
        (fun _ => Stmt.parts_of_branch) hfits.1).bind ?_
      intro codes _ hcodes
      refine (lowerBlock_ends hlexical otherwise hstands (by simp [Stmt.blocks]) hfits.2).bind ?_
      intro code _ hcode
      exact .of_ok rfl ⟨hcodes, hcode⟩
  | .loop condition body, around, hstands, hfits => by
      rw [Stmt.CountsFit] at hfits
      rcases exists_lowerExpr condition (readable_of_stands hlexical hstands) hfits.1 with
        ⟨f, hf, hsupported⟩
      rw [lowerStmt, hf]
      refine (lowerBlock_ends hlexical body hstands List.mem_cons_self hfits.2).bind ?_
      intro code _ hcode
      exact .of_ok rfl ⟨hsupported, hcode⟩
  | .giveBack value _, around, hstands, hfits => by
      rw [Stmt.CountsFit] at hfits
      rcases exists_lowerExpr value (readable_of_stands hlexical hstands) hfits with
        ⟨f, hf, hsupported⟩
      rw [lowerStmt, hf]
      exact .of_ok rfl ⟨hsupported, trivial, trivial⟩
  | .evaluate value, around, hstands, hfits => by
      rw [Stmt.CountsFit] at hfits
      rcases exists_lowerExpr value (readable_of_stands hlexical hstands) hfits with
        ⟨f, hf, hsupported⟩
      rw [lowerStmt, hf]
      exact .of_ok rfl ⟨hsupported, trivial, trivial⟩
  | .block body, around, hstands, hfits => by
      rw [Stmt.CountsFit] at hfits
      rw [lowerStmt]
      exact lowerBlock_ends hlexical body hstands List.mem_cons_self hfits

theorem lowerBlock_ends (hlexical : program.Lexical builtins r) :
    ∀ (b : Block) {around : Surroundings} {outer : Stmt},
    program.Stands around outer -> b ∈ outer.blocks -> b.CountsFit ->
    Ends (r.lowerBlock b) (program.AssignsBuiltin builtins)
      (Fragment.Supported (builtins.map (·.name)))
  | { id, statements }, around, outer, hstands, hblock, hfits => by
      rw [Block.CountsFit] at hfits
      rw [lowerBlock, blockSize_eq_ok_iff.mpr (hlexical.blockSize around outer _ hstands hblock)]
      refine (lowerStmts_ends hlexical statements ?_ hfits [] (List.forall_mem_nil _)).bind ?_
      · intro before s rest hsplit
        exact ⟨_, .inBlock hstands hblock hsplit⟩
      · intro codes _ hcodes
        exact .of_ok rfl ⟨Fragment.allSupported_iff.mpr hcodes, Fragment.supported_pops _, trivial⟩

theorem lowerStmts_ends (hlexical : program.Lexical builtins r) : ∀ statements : List Stmt,
    (∀ before s rest, statements = before ++ s :: rest -> ∃ around, program.Stands around s) ->
    CountsFitAll statements -> ∀ done : List Fragment,
    (∀ f ∈ done, f.Supported (builtins.map (·.name))) ->
    Ends (r.lowerStmts done statements) (program.AssignsBuiltin builtins)
      fun codes => ∀ f ∈ codes, f.Supported (builtins.map (·.name))
  | [], _, _, done, hdone => by
      rw [lowerStmts]
      exact .of_ok rfl fun f hf => hdone f (List.mem_reverse.mp hf)
  | s :: rest, hstands, hfits, done, hdone => by
      rw [CountsFitAll] at hfits
      rcases hstands [] s rest rfl with ⟨around, hfirst⟩
      rw [lowerStmts]
      refine (lowerStmt_ends hlexical s hfirst hfits.1).bind ?_
      intro code _ hcode
      refine lowerStmts_ends hlexical rest ?_ hfits.2 (code :: done) ?_
      · intro before s' rest' hsplit
        exact hstands (s :: before) s' rest' (congrArg (s :: ·) hsplit)
      · exact List.forall_mem_cons.mpr ⟨hcode, hdone⟩

theorem lowerBranches_ends (hlexical : program.Lexical builtins r) :
    ∀ (branches : List Branch) {around : Surroundings} {outer : Stmt},
    program.Stands around outer ->
    (∀ branch ∈ branches, branch.body ∈ outer.blocks ∧
      branch.condition.references ⊆ outer.references) -> CountsFitBranches branches ->
    Ends (r.lowerBranches branches) (program.AssignsBuiltin builtins)
      (Fragment.BranchesSupported (builtins.map (·.name)))
  | [], _, _, _, _, _ => by
      rw [lowerBranches]
      exact .of_ok rfl trivial
  | { condition, body } :: rest, around, outer, hstands, hparts, hfits => by
      rw [List.forall_mem_cons] at hparts
      rw [CountsFitBranches] at hfits
      rcases hparts with ⟨⟨hblock, hcondition⟩, hrest⟩
      have hnames := readable_of_stands hlexical hstands
      rcases exists_lowerExpr condition (fun x hx => hnames x (hcondition hx)) hfits.1 with
        ⟨f, hf, hsupported⟩
      rw [lowerBranches, hf]
      refine (lowerBlock_ends hlexical body hstands hblock hfits.2.1).bind ?_
      intro code _ hcode
      refine (lowerBranches_ends hlexical rest hstands hrest hfits.2.2).bind ?_
      intro codes _ hcodes
      exact .of_ok rfl ⟨hsupported, hcode, hcodes⟩

end

end Statements

end Resolution
end StackScript
