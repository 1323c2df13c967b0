import StackScript.Proofs.ChunkOrder
import StackScript.Proofs.FinishedCode
import StackScript.Proofs.FunctionOrder

/-!
# The chunks of a compiled program

A compiled program has its main chunk in front, then the chunks of the built-in
functions, then one chunk for each function of the source, in source order.
Chunks of functions are started in the middle of the code around them, while
that is being emitted; still every one of them ends up in its place, and the
code that declares a function refers to that place.
-/

namespace StackScript

/-!
## Functions that a fragment defines itself
-/

namespace Fragment

mutual

/-- The names of the functions that a fragment defines itself: those that are
not inside another one. -/
def ownNames : Fragment -> List String
  | define name _ _ => [name]
  | sequence parts => ownNamesOfAll parts
  | call callee arguments => callee.ownNames ++ ownNamesOfAll arguments
  | both left right => left.ownNames ++ right.ownNames
  | either left right => left.ownNames ++ right.ownNames
  | choose branches otherwise => ownNamesOfBranches branches ++ otherwise.ownNames
  | loop condition body => condition.ownNames ++ body.ownNames
  | _ => []

def ownNamesOfAll : List Fragment -> List String
  | [] => []
  | part :: rest => part.ownNames ++ ownNamesOfAll rest

def ownNamesOfBranches : List FragmentBranch -> List String
  | [] => []
  | { condition, body } :: rest =>
      condition.ownNames ++ (body.ownNames ++ ownNamesOfBranches rest)

end

mutual

theorem ownNames_sublist : ∀ f : Fragment, f.ownNames.Sublist (f.definitions.map (·.name))
  | define name arity body => by
      rw [ownNames, definitions]
      exact List.singleton_sublist.mpr List.mem_cons_self
  | sequence parts => ownNamesOfAll_sublist parts
  | call callee arguments => by
      rw [ownNames, definitions, List.map_append]
      exact (ownNames_sublist callee).append (ownNamesOfAll_sublist arguments)
  | both left right => by
      rw [ownNames, definitions, List.map_append]
      exact (ownNames_sublist left).append (ownNames_sublist right)
  | either left right => by
      rw [ownNames, definitions, List.map_append]
      exact (ownNames_sublist left).append (ownNames_sublist right)
  | choose branches otherwise => by
      rw [ownNames, definitions, List.map_append]
      exact (ownNamesOfBranches_sublist branches).append (ownNames_sublist otherwise)
  | loop condition body => by
      rw [ownNames, definitions, List.map_append]
      exact (ownNames_sublist condition).append (ownNames_sublist body)
  | instr _ | pooled _ _ | store _ | self | position | functionOrNull _ | builtin _ | label _
  | place _ | jump _ | jumpIfFalse _ => List.nil_sublist _

theorem ownNamesOfAll_sublist : ∀ parts : List Fragment,
    (ownNamesOfAll parts).Sublist ((definitionsOfAll parts).map (·.name))
  | [] => List.nil_sublist _
  | part :: rest => by
      rw [ownNamesOfAll, definitionsOfAll, List.map_append]
      exact (ownNames_sublist part).append (ownNamesOfAll_sublist rest)

theorem ownNamesOfBranches_sublist : ∀ branches : List FragmentBranch,
    (ownNamesOfBranches branches).Sublist ((definitionsOfBranches branches).map (·.name))
  | [] => List.nil_sublist _
  | { condition, body } :: rest => by
      rw [ownNamesOfBranches, definitionsOfBranches, List.map_append, List.map_append]
      exact (ownNames_sublist condition).append
        ((ownNames_sublist body).append (ownNamesOfBranches_sublist rest))

end

theorem ownNames_of_definitions {f : Fragment} (h : f.definitions = []) : f.ownNames = [] := by
  have hsublist := ownNames_sublist f
  rw [h] at hsublist
  exact List.sublist_nil.mp hsublist

theorem ownNames_introduce {storage : Storage} {f g : Fragment}
    (h : storage.introduce? f = some g) : g.ownNames = f.ownNames := by
  cases storage with
  | localSlot name slot =>
      cases h
      rfl
  | globalName name =>
      cases h
      simp [setGlobal, ownNames, ownNamesOfAll]
  | builtin name arity => cases h

end Fragment

namespace Resolution

open Fragment

variable {r : Resolution}

theorem ownNames_of_no_functions {s : Stmt} {f : Fragment} (hs : s.functions = [])
    (h : r.lowerStmt s = .ok f) : f.ownNames = [] := by
  have hdefinitions := definitions_of_lowerStmt s h
  rw [hs, List.forall₂_nil_left_iff] at hdefinitions
  exact ownNames_of_definitions hdefinitions

mutual

theorem ownNames_of_lowerStmt : ∀ (s : Stmt) {f : Fragment}, r.lowerStmt s = .ok f ->
    f.ownNames = s.ownFunctions.map (·.name.name)
  | .function name params body, f, h => by
      simp only [lowerStmt, bind_eq_ok_iff, introduce_eq_ok_iff] at h
      rcases h with ⟨arity, _, codes, _, storage, _, hcode⟩
      rw [ownNames_introduce hcode]
      rfl
  | .choose branches none, f, h => by
      simp only [lowerStmt, bind_eq_ok_iff, pure_eq_ok_iff] at h
      rcases h with ⟨codes, hbranches, rfl⟩
      rw [ownNames, ownNames_of_lowerBranches branches hbranches, Stmt.ownFunctions,
        List.map_append]
      rfl
  | .choose branches (some otherwise), f, h => by
      simp only [lowerStmt, bind_eq_ok_iff, pure_eq_ok_iff] at h
      rcases h with ⟨codes, hbranches, code, hotherwise, rfl⟩
      rw [ownNames, ownNames_of_lowerBranches branches hbranches,
        ownNames_of_lowerBlock otherwise hotherwise, Stmt.ownFunctions, List.map_append]
  | .loop condition body, f, h => by
      simp only [lowerStmt, bind_eq_ok_iff, pure_eq_ok_iff] at h
      rcases h with ⟨codeCondition, hcondition, codeBody, hbody, rfl⟩
      rw [ownNames, ownNames_of_definitions (definitions_of_lowerExpr condition hcondition),
        ownNames_of_lowerBlock body hbody, Stmt.ownFunctions, List.nil_append]
  | .block body, f, h => by
      rw [lowerStmt] at h
      rw [ownNames_of_lowerBlock body h, Stmt.ownFunctions]
  | .declare _ _, f, h | .assign _ _, f, h | .assignField _ _ _, f, h | .giveBack _ _, f, h
  | .evaluate _, f, h => ownNames_of_no_functions rfl h

theorem ownNames_of_lowerBlock : ∀ (b : Block) {f : Fragment}, r.lowerBlock b = .ok f ->
    f.ownNames = b.ownFunctions.map (·.name.name)
  | { id, statements }, f, h => by
      simp only [lowerBlock, bind_eq_ok_iff, pure_eq_ok_iff, lowerAll_eq_ok_iff] at h
      rcases h with ⟨size, _, codes, hbody, rfl⟩
      rw [Block.ownFunctions, ← ownNames_of_lowerStmts statements hbody]
      simp [ownNames, ownNamesOfAll, ownNames_of_definitions (definitions_pops size)]

theorem ownNames_of_lowerStmts : ∀ (statements : List Stmt) {codes : List Fragment},
    List.Forall₂ (fun s code => r.lowerStmt s = .ok code) statements codes ->
    ownNamesOfAll codes = (ownFunctionsOfAll statements).map (·.name.name)
  | [], codes, h => by
      cases h
      rfl
  | s :: rest, codes, h => by
      cases h with
      | cons hfirst hrest =>
          rw [ownNamesOfAll, ownNames_of_lowerStmt s hfirst, ownNames_of_lowerStmts rest hrest,
            ownFunctionsOfAll, List.map_append]

theorem ownNames_of_lowerBranches : ∀ (branches : List Branch) {codes : List FragmentBranch},
    r.lowerBranches branches = .ok codes ->
    ownNamesOfBranches codes = (ownFunctionsOfBranches branches).map (·.name.name)
  | [], codes, h => by
      cases h
      rfl
  | { condition, body } :: rest, codes, h => by
      simp only [lowerBranches, bind_eq_ok_iff, pure_eq_ok_iff] at h
      rcases h with ⟨codeCondition, hcondition, codeBody, hbody, others, hothers, rfl⟩
      rw [ownNamesOfBranches,
        ownNames_of_definitions (definitions_of_lowerExpr condition hcondition),
        ownNames_of_lowerBlock body hbody, ownNames_of_lowerBranches rest hothers,
        ownFunctionsOfBranches, List.map_append, List.nil_append]

end

end Resolution

/-!
## References to functions
-/

def Draft.Refers (d : Draft) (a : Assembler) (name : String) : Prop :=
  ∃ ref, a.names[ref]? = some (some name) ∧ .function ref ∈ d.pool.constants

theorem Draft.Refers.mono {d d' : Draft} {a a' : Assembler} {name : String} (h : d.Refers a name)
    (hfits : d.pool.Fits) (hd : d.Extends d') (ha : a.names <+: a'.names) : d'.Refers a' name := by
  rcases h with ⟨ref, hname, href⟩
  rcases ha with ⟨more, hmore⟩
  refine ⟨ref, ?_, (hd.constants hfits).subset href⟩
  rw [← hmore, List.getElem?_append_left (List.getElem?_eq_some_iff.mp hname).1]
  exact hname

/-- The step only adds to the draft and the program, and behind it the draft
refers to the chunks with the names. -/
def Emit.Links {α : Type} (names : List String) (step : Emit α) : Prop :=
  ∀ d a x d' a', step.Yields d a x d' a' -> d.Extends d' ∧ a.names <+: a'.names ∧
    (d.pool.Fits -> ∀ name ∈ names, d'.Refers a' name)

namespace Emit.Links

variable {α β : Type} {names names' : List String}

theorem bind {step : Emit α} {next : α -> Emit β} (h : Links names step)
    (hnext : ∀ x, Links names' (next x)) : Links (names ++ names') (step >>= next) := by
  intro d a y d'' a'' hyields
  rcases yields_bind_iff.mp hyields with ⟨x, d', a', hstep, hrest⟩
  rcases h _ _ _ _ _ hstep with ⟨hd, ha, hfirst⟩
  rcases hnext x _ _ _ _ _ hrest with ⟨hd', ha', hsecond⟩
  refine ⟨hd.trans hd', ha.trans ha', ?_⟩
  intro hfits name hname
  rcases List.mem_append.mp hname with hname | hname
  · exact (hfirst hfits name hname).mono (hd.fits hfits) hd' ha'
  · exact hsecond (hd.fits hfits) name hname

theorem of_eq {step : Emit α} (h : Links names step) (hnames : names = names') :
    Links names' step :=
  hnames ▸ h

theorem of_extends {step : Emit α}
    (h : ∀ d a x d' a', step.Yields d a x d' a' -> d.Extends d' ∧ a = a') : Links [] step := by
  intro d a x d' a' hyields
  rcases h _ _ _ _ _ hyields with ⟨hd, rfl⟩
  exact ⟨hd, List.prefix_rfl, fun _ => nofun⟩

theorem push (directive : Directive) : Links [] (push directive) := by
  apply of_extends
  intro d a x d' a' h
  rcases yields_push_iff.mp h with ⟨rfl, rfl⟩
  exact ⟨d.extends_push directive, rfl⟩

theorem newLabel (name : Option String) : Links [] (newLabel name) := by
  apply of_extends
  intro d a x d' a' h
  rcases yields_newLabel_iff.mp h with ⟨hnew, rfl⟩
  exact ⟨Draft.extends_of_newLabel hnew, rfl⟩

theorem store (c : PoolConstant) : Links [] (store c) := by
  apply of_extends
  intro d a x d' a' h
  rcases yields_store_iff.mp h with ⟨hstore, rfl⟩
  exact ⟨Draft.extends_store hstore, rfl⟩

theorem place (label : Label) : Links [] (place label) := by
  apply of_extends
  intro d a x d' a' h
  rcases yields_place_iff.mp h with ⟨hplace, rfl⟩
  exact ⟨Draft.extends_place hplace, rfl⟩

theorem pure (x : α) : Links [] (pure x) := by
  apply of_extends
  intro d a y d' a' h
  rcases yields_pure_iff.mp h with ⟨_, rfl, rfl⟩
  exact ⟨.refl d, rfl⟩

theorem get : Links [] get := by
  apply of_extends
  intro d a x d' a' h
  rcases yields_get_iff.mp h with ⟨_, rfl, rfl⟩
  exact ⟨.refl d, rfl⟩

theorem named? (name : String) : Links [] (named? name) := by
  apply of_extends
  intro d a x d' a' h
  rcases yields_named?_iff.mp h with ⟨_, rfl, rfl⟩
  exact ⟨.refl d, rfl⟩

theorem throw (e : AssembleError) : Links [] (throw e : Emit α) := by
  intro d a x d' a' h
  exact absurd h not_yields_throw

theorem op (opcode : Opcode) : Links [] (op opcode) :=
  push _

theorem pooled (opcode : Opcode) (c : PoolConstant) : Links [] (pooled opcode c) :=
  (store c).bind fun _ => push _

theorem jump (target : Label) : Links [] (jump target) :=
  (newLabel none).bind fun _ => (push _).bind fun _ => place _

theorem jumpIfFalse (target : Label) : Links [] (jumpIfFalse target) :=
  (newLabel none).bind fun _ => (push _).bind fun _ => place _

theorem define (name : String) (arity : UInt8) (body : Fragment) :
    Links [name] (Fragment.define name arity body).emit := by
  intro d a x d' a' h
  simp only [Fragment.emit, yields_bind_iff, yields_lift_iff, yields_pooled_iff] at h
  rcases h with ⟨ref, d0, a0, ⟨hchunk, rfl⟩, index, d1, hstore, rfl, rfl⟩
  have hnames := (Grown.of_addFunctionChunk (Fragment.grown_of_emit body) hchunk).keeps_names
  refine ⟨(Draft.extends_store hstore).trans (d1.extends_push _), hnames, ?_⟩
  intro hfits other hother
  rw [List.mem_singleton.mp hother]
  refine ⟨ref, Assembly.getElem?_names_of_addFunctionChunk hchunk, ?_⟩
  exact List.mem_of_getElem? (Pool.store_eq_ok hfits (Draft.store_eq_ok hstore).1).2.1

mutual

theorem fragment : ∀ f : Fragment, Links f.ownNames f.emit
  | .instr i => push _
  | .pooled opcode c => pooled opcode c
  | .store c => (store c).bind fun _ => pure _
  | .self => get.bind fun _ => pooled _ _
  | .position => get.bind fun _ => pooled _ _
  | .functionOrNull name => by
      rw [Fragment.emit]
      apply (named? name).bind
      intro chunk?
      cases chunk? with
      | some chunk => exact pooled _ _
      | none => exact push _
  | .builtin name => by
      rw [Fragment.emit]
      apply (named? name).bind
      intro chunk?
      cases chunk? with
      | some chunk => exact pooled _ _
      | none => exact throw _
  | .define name arity body => define name arity body
  | .label name => (newLabel name).bind fun _ => pure _
  | .place mark => place mark
  | .jump target => jump target
  | .jumpIfFalse target => jumpIfFalse target
  | .sequence parts => by
      rw [Fragment.emit]
      exact fragments parts
  | .call callee arguments => by
      rw [Fragment.emit]
      by_cases hcount : arguments.length ≤ Fragment.maxCount
      · rw [if_pos hcount]
        exact ((fragment callee).bind fun _ => (fragments arguments).bind fun _ => push _).of_eq
          (by simp [Fragment.ownNames])
      · rw [if_neg hcount]
        intro d a x d' a' h
        exact absurd h not_yields_throw
  | .both left right => by
      rw [Fragment.emit]
      exact ((newLabel _).bind fun _ => (fragment left).bind fun _ =>
        (jumpIfFalse _).bind fun _ => (op _).bind fun _ => (fragment right).bind fun _ =>
        place _).of_eq (by simp [Fragment.ownNames])
  | .either left right => by
      rw [Fragment.emit]
      exact ((newLabel _).bind fun _ => (newLabel _).bind fun _ => (fragment left).bind fun _ =>
        (jumpIfFalse _).bind fun _ => (jump _).bind fun _ => (place _).bind fun _ =>
        (op _).bind fun _ => (fragment right).bind fun _ => place _).of_eq
        (by simp [Fragment.ownNames])
  | .choose branches otherwise => by
      rw [Fragment.emit]
      exact ((newLabel _).bind fun after => (fragmentBranches after branches).bind fun _ =>
        (fragment otherwise).bind fun _ => place _).of_eq (by simp [Fragment.ownNames])
  | .loop condition body => by
      rw [Fragment.emit]
      exact ((newLabel _).bind fun _ => (newLabel _).bind fun _ => (place _).bind fun _ =>
        (fragment condition).bind fun _ => (jumpIfFalse _).bind fun _ => (op _).bind fun _ =>
        (fragment body).bind fun _ => (jump _).bind fun _ => (place _).bind fun _ => op _).of_eq
        (by simp [Fragment.ownNames])

theorem fragments : ∀ parts : List Fragment,
    Links (Fragment.ownNamesOfAll parts) (Fragment.emitAll parts)
  | [] => pure ()
  | part :: rest => by
      rw [Fragment.emitAll]
      exact (fragment part).bind fun _ => fragments rest

theorem fragmentBranches : ∀ (after : Label) (branches : List FragmentBranch),
    Links (Fragment.ownNamesOfBranches branches) (Fragment.emitBranches after branches)
  | _, [] => pure ()
  | after, { condition, body } :: rest => by
      rw [Fragment.emitBranches]
      exact ((newLabel _).bind fun _ => (fragment condition).bind fun _ =>
        (jumpIfFalse _).bind fun _ => (op _).bind fun _ => (fragment body).bind fun _ =>
        (jump _).bind fun _ => (place _).bind fun _ => (op _).bind fun _ =>
        fragmentBranches after rest).of_eq (by simp [Fragment.ownNamesOfBranches])

end

end Emit.Links

/-!
## Chunks of functions
-/

structure Chunk.IsFunction (chunk : Chunk) (name : String) (arity : Nat) : Prop where
  name_eq : chunk.name = some name
  constants : [.string name, .int (Int32.ofNat arity)] <+: chunk.constants

namespace Definition

variable {a : Assembler} {f : Definition} {entry : ChunkEntry} {d : Draft}

end Definition

namespace Generated

variable {program : Program} {builtins : List Builtin} {resolution : Resolution}
  {a : Assembler} {b : Bytecode}

theorem main_refers (g : Generated program builtins resolution a) :
    ∀ name ∈ Fragment.ownNamesOfAll g.body, g.main.Refers a name := by
  rcases g.main_built with ⟨a0, a1, _, _, hnames, hyields⟩
  have hfits : (Draft.pool { name := none, self := g.before.length }).Fits := .empty
  rcases Emit.Links.fragment _ _ _ _ _ _ hyields with ⟨hextends, _, hrefers⟩
  intro name hname
  exact (hrefers hfits name hname).mono (hextends.fits hfits) (.refl g.main) hnames

end Generated

/-!
## Layout
-/

/-- Among the constants of the chunk are the places of the functions that the
statements declare themselves, when the functions have their chunks from the
place `first` on. -/
def Chunk.RefersTo (chunk : Chunk) (first : Nat) (functions : List FunctionDeclaration)
    (body : List Stmt) : Prop :=
  ∀ (j : Nat) fn, functions[j]? = some fn -> fn ∈ ownFunctionsOfAll body ->
    ∃ id : UInt8, id.toNat = first + j ∧ .function id ∈ chunk.constants

theorem FunctionDeclaration.LoweredTo.ownNames {r : Resolution} {fn : FunctionDeclaration}
    {f : Definition} (h : fn.LoweredTo r f) :
    f.body.ownNames = (ownFunctionsOfAll fn.body).map (·.name.name) := by
  rcases h with ⟨_, _, _, codes, hcodes, hbody⟩
  rw [hbody, ← Resolution.ownNames_of_lowerStmts fn.body hcodes]
  simp [Fragment.ownNames, Fragment.ownNamesOfAll, Fragment.giveBack, Fragment.unary,
    Fragment.null, Fragment.op]

theorem Builtin.names_sublist (builtins : List Builtin) :
    (builtins.map (·.name)).Sublist ((builtins.flatMap Builtin.definitions).map (·.name)) := by
  induction builtins with
  | nil => exact List.nil_sublist _
  | cons b rest ih =>
      rw [List.flatMap_cons, List.map_append, List.map_cons, Builtin.definitions, List.map_cons]
      exact (ih.trans (List.sublist_append_right _ _)).cons_cons _

/-- The chunks of a program: the main chunk, those of the built-in functions with
the functions inside them, and those of the functions of the source. -/
structure Bytecode.LaidOut (b : Bytecode) (builtins : List Builtin) (program : Program)
    (main : Chunk) (before after : List Chunk) : Prop where
  chunks_eq : b.chunks = main :: (before ++ after)
  main_name : main.name = none
  builtins : List.Forall₂ (fun f chunk => Chunk.IsFunction chunk f.name f.arity.toNat)
    (builtins.flatMap Builtin.definitions) before
  functions : List.Forall₂ (fun fn chunk => Chunk.IsFunction chunk fn.name.name fn.params.length)
    program.functions after
  names : (b.chunks.map (·.name)).Nodup
  /-- Each chunk has the numbers of the functions that its own code declares. -/
  main_refers : main.RefersTo (before.length + 1) program.functions program.statements
  functions_refer : List.Forall₂
    (fun fn chunk => Chunk.RefersTo chunk (before.length + 1) program.functions fn.body)
    program.functions after

namespace Bytecode.LaidOut

variable {b : Bytecode} {builtins : List Builtin} {program : Program} {main : Chunk}
  {before after : List Chunk}

theorem nodup_names (h : b.LaidOut builtins program main before after) :
    (builtins.map (·.name) ++ program.functions.map (·.name.name)).Nodup := by
  have hbefore : before.map (·.name) =
      ((builtins.flatMap Builtin.definitions).map (·.name)).map some := by
    rw [List.map_map, ← List.forall₂_eq_eq_eq, List.forall₂_map_left_iff,
      List.forall₂_map_right_iff]
    exact h.builtins.flip.imp fun chunk f hf => hf.name_eq
  have hafter : after.map (·.name) = (program.functions.map (·.name.name)).map some := by
    rw [List.map_map, ← List.forall₂_eq_eq_eq, List.forall₂_map_left_iff,
      List.forall₂_map_right_iff]
    exact h.functions.flip.imp fun chunk fn hfn => hfn.name_eq
  have hnames := h.names
  rw [h.chunks_eq, List.map_cons, List.nodup_cons, List.map_append, hbefore, hafter,
    ← List.map_append] at hnames
  have hall := List.Nodup.of_map some hnames.2
  exact hall.sublist ((Builtin.names_sublist builtins).append (List.Sublist.refl _))

end Bytecode.LaidOut

end StackScript
