import StackScript.Proofs.BindingNames
import StackScript.Resolution

/-!
# Places in a program

Lexical scoping, stated without the resolver: where the names of a program
stand, which declarations came before a place in the scopes around it, and which
of them a name refers to.
-/

namespace StackScript

/-!
## Surroundings
-/

/-- The declarations before a place that can be seen from it. -/
structure Surroundings where
  /-- Those of each scope, from the innermost one to that of the function around
  the place, in each of them the latest first. -/
  scopes : List (List Identifier) := []
  /-- Those outside of all blocks and functions, the latest first. -/
  globals : List Identifier := []

namespace Surroundings

def after (around : Surroundings) (names : List Identifier) : Surroundings :=
  match around.scopes with
  | [] => { around with globals := names.reverse ++ around.globals }
  | own :: outer => { around with scopes := (names.reverse ++ own) :: outer }

def inBlock (around : Surroundings) : Surroundings :=
  { around with scopes := [] :: around.scopes }

def inFunction (around : Surroundings) : Surroundings :=
  { around with scopes := [[]] }

def own (around : Surroundings) : List Identifier :=
  around.scopes.headD around.globals

/-- The declaration that a name refers to, which is that of the innermost scope
with the name. -/
def find? (around : Surroundings) (name : String) : Option Identifier :=
  (around.scopes.flatten ++ around.globals).find? (·.name == name)

/-- The slot of a local that is declared here: the first one is that of the
function itself. -/
def slot (around : Surroundings) : Nat :=
  around.scopes.flatten.length + 1

@[simp] theorem after_nil (around : Surroundings) : around.after [] = around := by
  rcases around with ⟨_ | ⟨own, outer⟩, globals⟩ <;> rfl

theorem after_append (around : Surroundings) (names names' : List Identifier) :
    around.after (names ++ names') = (around.after names).after names' := by
  rcases around with ⟨_ | ⟨own, outer⟩, globals⟩ <;>
    simp [after]

theorem own_after (around : Surroundings) (names : List Identifier) :
    (around.after names).own = names.reverse ++ around.own := by
  rcases around with ⟨_ | ⟨own, outer⟩, globals⟩ <;> rfl

theorem scopes_after_eq_nil_iff {around : Surroundings} {names : List Identifier} :
    (around.after names).scopes = [] ↔ around.scopes = [] := by
  rcases around with ⟨_ | ⟨own, outer⟩, globals⟩ <;> simp [after]

end Surroundings

/-!
## Parts of statements
-/

namespace Stmt

def declared : Stmt -> List Identifier
  | .declare name _ => [name]
  | .function name _ _ => [name]
  | .assign _ _ | .assignField _ _ _ | .choose _ _ | .loop _ _ | .giveBack _ _ | .evaluate _
  | .block _ => []

/-- The names that a statement uses outside of the blocks and functions in it. -/
def references : Stmt -> List Identifier
  | .declare _ value => value.references
  | .assign target value => target :: value.references
  | .assignField receiver _ value => receiver.references ++ value.references
  | .choose branches _ => branches.flatMap (·.condition.references)
  | .loop condition _ => condition.references
  | .giveBack value _ => value.references
  | .evaluate value => value.references
  | .function _ _ _ | .block _ => []

def blocks : Stmt -> List Block
  | .choose branches otherwise => branches.map (·.body) ++ otherwise.toList
  | .loop _ body => [body]
  | .block body => [body]
  | _ => []

theorem parts_of_branch {branches : List Branch} {otherwise : Option Block} {branch : Branch}
    (h : branch ∈ branches) : branch.body ∈ (choose branches otherwise).blocks ∧
      branch.condition.references ⊆ (choose branches otherwise).references := by
  constructor
  · exact List.mem_append_left _ (List.mem_map_of_mem h)
  · intro x hx
    exact List.mem_flatMap.mpr ⟨branch, h, hx⟩

end Stmt

def declaredBy (statements : List Stmt) : List Identifier :=
  statements.flatMap Stmt.declared

theorem declaredBy_cons (s : Stmt) (rest : List Stmt) :
    declaredBy (s :: rest) = s.declared ++ declaredBy rest := rfl

theorem declaredBy_append (statements statements' : List Stmt) :
    declaredBy (statements ++ statements') = declaredBy statements ++ declaredBy statements' :=
  List.flatMap_append

/-!
## Places of statements and names
-/

namespace Program

/-- The places of the statements of a program.  A variable can be seen behind
its declaration, a function also in its own body. -/
inductive Stands (program : Program) : Surroundings -> Stmt -> Prop where
  | outside {before rest : List Stmt} {s : Stmt}
      (hsplit : program.statements = before ++ s :: rest) :
      Stands program (Surroundings.after {} (declaredBy before)) s
  | inBlock {around : Surroundings} {outer s : Stmt} {block : Block} {before rest : List Stmt}
      (houter : Stands program around outer) (hblock : block ∈ outer.blocks)
      (hsplit : block.statements = before ++ s :: rest) :
      Stands program (around.inBlock.after (declaredBy before)) s
  | inFunction {around : Surroundings} {name : Identifier} {params : List Identifier}
      {body before rest : List Stmt} {s : Stmt}
      (houter : Stands program around (.function name params body))
      (hsplit : body = before ++ s :: rest) :
      Stands program ((around.after [name]).inFunction.after (params ++ declaredBy before)) s

inductive RefersAt (program : Program) : Surroundings -> Identifier -> Prop where
  | statement {around : Surroundings} {s : Stmt} {x : Identifier}
      (hstands : program.Stands around s) (hx : x ∈ s.references) : RefersAt program around x

inductive DeclaresAt (program : Program) : Surroundings -> Identifier -> Prop where
  | statement {around : Surroundings} {s : Stmt} {d : Identifier}
      (hstands : program.Stands around s) (hd : d ∈ s.declared) : DeclaresAt program around d
  | parameter {around : Surroundings} {name d : Identifier} {params before rest : List Identifier}
      {body : List Stmt} (hstands : program.Stands around (.function name params body))
      (hsplit : params = before ++ d :: rest) :
      DeclaresAt program ((around.after [name]).inFunction.after before) d

inductive HasScope (program : Program) : List Identifier -> Prop where
  | global : HasScope program (declaredBy program.statements)
  | block {around : Surroundings} {s : Stmt} {block : Block}
      (hstands : program.Stands around s) (hblock : block ∈ s.blocks) :
      HasScope program (declaredBy block.statements)
  | function {around : Surroundings} {name : Identifier} {params : List Identifier}
      {body : List Stmt} (hstands : program.Stands around (.function name params body)) :
      HasScope program (params ++ declaredBy body)

structure WellScoped (program : Program) (builtins : List Builtin) : Prop where
  declared : ∀ around x, program.RefersAt around x ->
    (∃ d, around.find? x.name = some d) ∨ ∃ b ∈ builtins, b.name = x.name
  distinct : ∀ names, program.HasScope names -> (names.map (·.name)).Nodup
  notBuiltin : ∀ d ∈ declaredBy program.statements, ∀ b ∈ builtins, b.name ≠ d.name
  room : ∀ around d, program.DeclaresAt around d -> around.scopes ≠ [] -> around.slot ≤ 255

structure Lexical (program : Program) (builtins : List Builtin) (r : Resolution) : Prop where
  global : ∀ around d, program.DeclaresAt around d -> around.scopes = [] ->
    r.storage? d = some (.globalName d.name)
  localSlot : ∀ around d, program.DeclaresAt around d -> around.scopes ≠ [] ->
    ∃ slot, r.storage? d = some (.localSlot d.name slot) ∧ slot.toNat = around.slot
  reference : ∀ around x d, program.RefersAt around x -> around.find? x.name = some d ->
    ∃ storage, r.storage? d = some storage ∧ r.storage? x = some storage
  builtin : ∀ around x, program.RefersAt around x -> around.find? x.name = none ->
    ∃ b, builtins.reverse.find? (·.name == x.name) = some b ∧
      r.storage? x = some (.builtin b.name b.arity)
  covers : ∀ x ∈ program.bindings, ∃ storage, r.storage? x = some storage
  blockSize : ∀ around s block, program.Stands around s -> block ∈ s.blocks ->
    r.blockSize? block.id = some (declaredBy block.statements).length

/-!
## Scopes and places
-/

variable {program : Program} {around : Surroundings}

/-- A statement is in a scope in which the names before it are those around. -/
theorem Stands.hasScope {s : Stmt} (h : program.Stands around s) :
    ∃ later, program.HasScope (around.own.reverse ++ (s.declared ++ later)) ∧
      (around.scopes = [] ->
        declaredBy program.statements = around.own.reverse ++ (s.declared ++ later)) := by
  cases h with
  | @outside before rest _ hsplit =>
      have hnames : declaredBy program.statements =
          (Surroundings.after {} (declaredBy before)).own.reverse ++
            (s.declared ++ declaredBy rest) := by
        rw [hsplit, declaredBy_append, declaredBy_cons, Surroundings.own_after]
        simp [Surroundings.own]
      exact ⟨declaredBy rest, hnames ▸ .global, fun _ => hnames⟩
  | @inBlock outside outer _ block before rest houter hblock hsplit =>
      have hnames : declaredBy block.statements =
          (outside.inBlock.after (declaredBy before)).own.reverse ++
            (s.declared ++ declaredBy rest) := by
        rw [hsplit, declaredBy_append, declaredBy_cons, Surroundings.own_after]
        simp [Surroundings.own, Surroundings.inBlock]
      refine ⟨declaredBy rest, hnames ▸ .block houter hblock, ?_⟩
      rw [Surroundings.scopes_after_eq_nil_iff]
      nofun
  | @inFunction outside name params body before rest _ houter hsplit =>
      have hnames : params ++ declaredBy body =
          ((outside.after [name]).inFunction.after (params ++ declaredBy before)).own.reverse ++
            (s.declared ++ declaredBy rest) := by
        rw [hsplit, declaredBy_append, declaredBy_cons, Surroundings.own_after]
        simp [Surroundings.own, Surroundings.inFunction]
      refine ⟨declaredBy rest, hnames ▸ .function houter, ?_⟩
      rw [Surroundings.scopes_after_eq_nil_iff]
      nofun

theorem DeclaresAt.hasScope {d : Identifier} (h : program.DeclaresAt around d) :
    ∃ later, program.HasScope (around.own.reverse ++ d :: later) ∧
      (around.scopes = [] -> declaredBy program.statements = around.own.reverse ++ d :: later) := by
  cases h with
  | @statement _ s _ hstands hd =>
      have hdeclared : s.declared = [d] := by
        cases s <;> simp_all [Stmt.declared]
      have hscope := hstands.hasScope
      rw [hdeclared] at hscope
      exact hscope
  | @parameter outside name _ params before rest body hstands hsplit =>
      have hscope := HasScope.function hstands
      rw [hsplit, List.append_assoc] at hscope
      refine ⟨rest ++ declaredBy body, ?_, ?_⟩
      · rw [Surroundings.own_after]
        simpa [Surroundings.own, Surroundings.inFunction] using hscope
      · rw [Surroundings.scopes_after_eq_nil_iff]
        nofun

/-!
## Every name has a place
-/

def Occurs (program : Program) (x : Identifier) : Prop :=
  ∃ around, program.RefersAt around x ∨ program.DeclaresAt around x

mutual

theorem occurs_of_mem_stmt : ∀ (s : Stmt) {around : Surroundings} {x : Identifier},
    program.Stands around s -> x ∈ s.bindings -> program.Occurs x
  | .declare name value, around, x, hstands, hx => by
      rw [Stmt.bindings, List.mem_cons] at hx
      rcases hx with rfl | hx
      · exact ⟨around, Or.inr (.statement hstands List.mem_cons_self)⟩
      · exact ⟨around, Or.inl (.statement hstands hx)⟩
  | .assign target value, around, x, hstands, hx => by
      rw [Stmt.bindings] at hx
      exact ⟨around, Or.inl (.statement hstands hx)⟩
  | .assignField receiver _ value, around, x, hstands, hx => by
      rw [Stmt.bindings] at hx
      exact ⟨around, Or.inl (.statement hstands hx)⟩
  | .function name params body, around, x, hstands, hx => by
      rw [Stmt.bindings, List.mem_cons, List.mem_append] at hx
      rcases hx with rfl | hx | hx
      · exact ⟨around, Or.inr (.statement hstands List.mem_cons_self)⟩
      · rcases List.append_of_mem hx with ⟨before, rest, hsplit⟩
        exact ⟨_, Or.inr (.parameter hstands hsplit)⟩
      · refine occurs_of_mem_stmts body ?_ hx
        intro before s rest hsplit
        exact ⟨_, .inFunction hstands hsplit⟩
  | .choose branches none, around, x, hstands, hx => by
      rw [Stmt.bindings] at hx
      exact occurs_of_mem_branches branches hstands (fun _ => Stmt.parts_of_branch) hx
  | .choose branches (some otherwise), around, x, hstands, hx => by
      rw [Stmt.bindings, List.mem_append] at hx
      rcases hx with hx | hx
      · exact occurs_of_mem_branches branches hstands (fun _ => Stmt.parts_of_branch) hx
      · exact occurs_of_mem_block otherwise hstands (by simp [Stmt.blocks]) hx
  | .loop condition body, around, x, hstands, hx => by
      rw [Stmt.bindings, List.mem_append] at hx
      rcases hx with hx | hx
      · exact ⟨around, Or.inl (.statement hstands hx)⟩
      · exact occurs_of_mem_block body hstands List.mem_cons_self hx
  | .giveBack value _, around, x, hstands, hx => by
      rw [Stmt.bindings] at hx
      exact ⟨around, Or.inl (.statement hstands hx)⟩
  | .evaluate value, around, x, hstands, hx => by
      rw [Stmt.bindings] at hx
      exact ⟨around, Or.inl (.statement hstands hx)⟩
  | .block body, around, x, hstands, hx => by
      rw [Stmt.bindings] at hx
      exact occurs_of_mem_block body hstands List.mem_cons_self hx

theorem occurs_of_mem_block : ∀ (b : Block) {around : Surroundings} {outer : Stmt}
    {x : Identifier}, program.Stands around outer -> b ∈ outer.blocks -> x ∈ b.bindings ->
    program.Occurs x
  | { id, statements }, around, outer, x, hstands, hblock, hx => by
      rw [Block.bindings] at hx
      refine occurs_of_mem_stmts statements ?_ hx
      intro before s rest hsplit
      exact ⟨_, .inBlock hstands hblock hsplit⟩

theorem occurs_of_mem_stmts : ∀ (statements : List Stmt) {x : Identifier},
    (∀ before s rest, statements = before ++ s :: rest ->
      ∃ around, program.Stands around s) -> x ∈ bindingsOfAll statements -> program.Occurs x
  | [], x, _, hx => by
      rw [bindingsOfAll] at hx
      cases hx
  | s :: rest, x, hstands, hx => by
      rw [bindingsOfAll, List.mem_append] at hx
      rcases hx with hx | hx
      · rcases hstands [] s rest rfl with ⟨around, hfirst⟩
        exact occurs_of_mem_stmt s hfirst hx
      · refine occurs_of_mem_stmts rest ?_ hx
        intro before s' rest' hsplit
        exact hstands (s :: before) s' rest' (congrArg (s :: ·) hsplit)

theorem occurs_of_mem_branches : ∀ (branches : List Branch) {around : Surroundings}
    {outer : Stmt} {x : Identifier}, program.Stands around outer ->
    (∀ branch ∈ branches, branch.body ∈ outer.blocks ∧
      branch.condition.references ⊆ outer.references) ->
    x ∈ bindingsOfBranches branches -> program.Occurs x
  | [], _, _, x, _, _, hx => by
      rw [bindingsOfBranches] at hx
      cases hx
  | { condition, body } :: rest, around, outer, x, hstands, hparts, hx => by
      rw [List.forall_mem_cons] at hparts
      rcases hparts with ⟨⟨hblock, hcondition⟩, hrest⟩
      rw [bindingsOfBranches, List.mem_append, List.mem_append] at hx
      rcases hx with hx | hx | hx
      · exact ⟨around, Or.inl (.statement hstands (hcondition hx))⟩
      · exact occurs_of_mem_block body hstands hblock hx
      · exact occurs_of_mem_branches rest hstands hrest hx

end

theorem occurs_of_mem_bindings {x : Identifier} (hx : x ∈ program.bindings) :
    program.Occurs x := by
  rw [bindings_eq] at hx
  refine occurs_of_mem_stmts program.statements ?_ hx
  intro before s rest hsplit
  exact ⟨_, .outside hsplit⟩

end Program
end StackScript
