import StackScript.Proofs.LoweredCode
import StackScript.Proofs.ParserSoundness

/-!
# Functions in source order

The functions of a program are listed in the order in which their keywords
stand in the source text, however deep they are: a function comes before those
inside it.  Each of them is declared outside of all functions or by another
function itself.
-/

namespace StackScript

/-!
## Names behind the keyword
-/

def leadingName? : List Token -> Option String
  | .ident name :: _ => some name
  | _ => none

def functionWords : List Token -> List String
  | [] => []
  | .keyword .fnWord :: rest => (leadingName? rest).toList ++ functionWords rest
  | _ :: rest => functionWords rest

/-- From one place among the tokens to another the keyword stands in front of
these names. -/
def Declaring (names : List String) (ts rest : List Token) : Prop :=
  functionWords ts = names ++ functionWords rest

namespace Declaring

variable {names names' : List String} {ts ts' rest : List Token} {t : Token}

theorem refl (ts : List Token) : Declaring [] ts ts :=
  rfl

theorem functionWords_cons (ht : t ≠ .keyword .fnWord) :
    functionWords (t :: ts) = functionWords ts := by
  cases t with
  | keyword k =>
      cases k with
      | fnWord => exact absurd rfl ht
      | _ => rfl
  | _ => rfl

theorem cons (ht : t ≠ .keyword .fnWord) (h : Declaring names ts rest) :
    Declaring names (t :: ts) rest :=
  (functionWords_cons ht).trans h

theorem trans (h : Declaring names ts ts') (h' : Declaring names' ts' rest) :
    Declaring (names ++ names') ts rest := by
  rw [Declaring, h, h', List.append_assoc]

theorem tail (h : Declaring names ts (t :: rest)) (ht : t ≠ .keyword .fnWord) :
    Declaring names ts rest := by
  rw [Declaring, h, functionWords_cons ht]

theorem function {name : String} (h : Declaring names ts rest) :
    Declaring (name :: names) (.keyword .fnWord :: .ident name :: ts) rest := by
  show [name] ++ functionWords (.ident name :: ts) = _
  rw [functionWords_cons (by nofun), h]
  rfl

end Declaring

namespace Grammar

theorem declaring_of_separated {ts rest : List Token} {xs : List Identifier}
    (h : Separated NameForm ts xs rest) : Declaring [] ts rest := by
  induction h with
  | one h =>
      rw [h]
      exact .cons (by nofun) (.refl _)
  | more h _ ih =>
      rw [h]
      exact .cons (by nofun) (.cons (by nofun) ih)

theorem declaring_of_parameters {ts rest : List Token} {xs : List Identifier}
    (h : ParametersForm ts xs rest) : Declaring [] ts rest := by
  cases h with
  | none => exact .refl _
  | some h => exact declaring_of_separated h

mutual

theorem declaring_of_binary {n : Nat} {ts rest : List Token} {e : Expr} :
    BinaryForm n ts e rest -> Declaring [] ts rest
  | .unary h => declaring_of_unary h
  | .tighter _ h => declaring_of_binary h
  | .operation hleft hright =>
      ((declaring_of_binary hleft).tail (by nofun)).trans (declaring_of_binary hright)

theorem declaring_of_unary {ts rest : List Token} {e : Expr} :
    UnaryForm ts e rest -> Declaring [] ts rest
  | .application h => declaring_of_application h
  | .operation h => .cons (by nofun) (declaring_of_unary h)

theorem declaring_of_application {ts rest : List Token} {e : Expr} :
    ApplicationForm ts e rest -> Declaring [] ts rest
  | .primary h => declaring_of_primary h
  | .call hcallee harguments =>
      ((declaring_of_application hcallee).tail (by nofun)).trans
        ((declaring_of_arguments harguments).tail (by nofun))
  | .field h => ((declaring_of_application h).tail (by nofun)).tail (by nofun)

theorem declaring_of_primary {ts rest : List Token} {e : Expr} :
    PrimaryForm ts e rest -> Declaring [] ts rest
  | .number | .string | .bool | .null | .ident => .cons (by nofun) (.refl rest)
  | .parenthesized h => .cons (by nofun) ((declaring_of_binary h).tail (by nofun))

theorem declaring_of_arguments {ts rest : List Token} {es : List Expr} :
    ArgumentsForm ts es rest -> Declaring [] ts rest
  | .none => .refl ts
  | .some h => declaring_of_items h

theorem declaring_of_items {ts rest : List Token} {es : List Expr} :
    ItemsForm ts es rest -> Declaring [] ts rest
  | .one h => declaring_of_binary h
  | .more h hs => ((declaring_of_binary h).tail (by nofun)).trans (declaring_of_items hs)

end

def namesOf (functions : List FunctionDeclaration) : List String :=
  functions.map (·.name.name)

theorem namesOf_append (functions functions' : List FunctionDeclaration) :
    namesOf (functions ++ functions') = namesOf functions ++ namesOf functions' :=
  List.map_append

theorem functions_choose_cons (first : Branch) (branches : List Branch)
    (otherwise : Option Block) :
    (Stmt.choose (first :: branches) otherwise).functions =
      first.body.functions ++ (Stmt.choose branches otherwise).functions := by
  rcases first with ⟨condition, body⟩
  cases otherwise with
  | none =>
      rw [Stmt.functions, Stmt.functions, functionsOfBranches, List.append_assoc]
  | some last =>
      rw [Stmt.functions, Stmt.functions, functionsOfBranches, List.append_assoc]

mutual

theorem declaring_of_statement {ts rest : List Token} {s : Stmt} :
    StatementForm ts s rest -> Declaring (namesOf s.functions) ts rest
  | .declare h =>
      .cons (by nofun) (.cons (by nofun) (.cons (by nofun)
        ((declaring_of_binary h).tail (by nofun))))
  | .block h => declaring_of_block h
  | .function hparams hbody => by
      have hinside := (((declaring_of_parameters hparams).tail (by nofun)).tail (by nofun)).trans
        ((declaring_of_statements hbody).tail (by nofun))
      exact .function (.cons (by nofun) hinside)
  | .choose hfirst hothers => by
      rw [functions_choose_cons, namesOf_append]
      exact .cons (by nofun)
        ((declaring_of_branch hfirst).trans (declaring_of_alternatives hothers))
  | .loop h => .cons (by nofun) (declaring_of_branch h)
  | .giveBack h => .cons (by nofun) ((declaring_of_binary h).tail (by nofun))
  | .giveBackNull => .cons (by nofun) (.cons (by nofun) (.refl rest))
  | .assign htarget hvalue | .assignField htarget hvalue =>
      ((declaring_of_binary htarget).tail (by nofun)).trans
        ((declaring_of_binary hvalue).tail (by nofun))
  | .evaluate h => (declaring_of_binary h).tail (by nofun)

theorem declaring_of_block {ts rest : List Token} {b : Block} :
    BlockForm ts b rest -> Declaring (namesOf b.functions) ts rest
  | .braces h => .cons (by nofun) ((declaring_of_statements h).tail (by nofun))

theorem declaring_of_branch {ts rest : List Token} {b : Branch} :
    BranchForm ts b rest -> Declaring (namesOf b.body.functions) ts rest
  | .guarded hcondition hbody =>
      .cons (by nofun) (((declaring_of_binary hcondition).tail (by nofun)).trans
        (declaring_of_block hbody))

theorem declaring_of_alternatives {ts rest : List Token} {branches : List Branch}
    {otherwise : Option Block} : AlternativesForm ts branches otherwise rest ->
    Declaring (namesOf (Stmt.choose branches otherwise).functions) ts rest
  | .none => .refl ts
  | .otherwise h => .cons (by nofun) (declaring_of_block h)
  | .branch hfirst hothers => by
      rw [functions_choose_cons, namesOf_append]
      exact .cons (by nofun) (.cons (by nofun)
        ((declaring_of_branch hfirst).trans (declaring_of_alternatives hothers)))

theorem declaring_of_statements {ts rest : List Token} {statements : List Stmt} :
    StatementsForm ts statements rest -> Declaring (namesOf (functionsOfAll statements)) ts rest
  | .nil => .refl ts
  | .cons h hs => by
      rw [functionsOfAll, namesOf_append]
      exact (declaring_of_statement h).trans (declaring_of_statements hs)

end

end Grammar

/-!
## Source texts
-/

mutual

/-- The functions that a statement declares itself: those that are not inside
another one. -/
def Stmt.ownFunctions : Stmt -> List FunctionDeclaration
  | .function name params body => [{ name, params, body }]
  | .choose branches otherwise =>
      ownFunctionsOfBranches branches ++
        match otherwise with
        | none => []
        | some body => body.ownFunctions
  | .loop _ body => body.ownFunctions
  | .block body => body.ownFunctions
  | _ => []

def Block.ownFunctions : Block -> List FunctionDeclaration
  | { statements, .. } => ownFunctionsOfAll statements

def ownFunctionsOfAll : List Stmt -> List FunctionDeclaration
  | [] => []
  | s :: rest => s.ownFunctions ++ ownFunctionsOfAll rest

def ownFunctionsOfBranches : List Branch -> List FunctionDeclaration
  | [] => []
  | { body, .. } :: rest => body.ownFunctions ++ ownFunctionsOfBranches rest

end

/-- The function is one of `own`, or one of the functions declares it. -/
def FunctionDeclaration.Belongs (fn : FunctionDeclaration)
    (own functions : List FunctionDeclaration) : Prop :=
  fn ∈ own ∨ ∃ outer ∈ functions, fn ∈ ownFunctionsOfAll outer.body

theorem FunctionDeclaration.Belongs.append
    {own own' functions functions' : List FunctionDeclaration}
    (h : ∀ fn ∈ functions, fn.Belongs own functions)
    (h' : ∀ fn ∈ functions', fn.Belongs own' functions') :
    ∀ fn ∈ functions ++ functions', fn.Belongs (own ++ own') (functions ++ functions') := by
  intro fn hfn
  rcases List.mem_append.mp hfn with hfn | hfn
  · rcases h fn hfn with hown | ⟨outer, houter, hinner⟩
    · exact Or.inl (List.mem_append_left _ hown)
    · exact Or.inr ⟨outer, List.mem_append_left _ houter, hinner⟩
  · rcases h' fn hfn with hown | ⟨outer, houter, hinner⟩
    · exact Or.inl (List.mem_append_right _ hown)
    · exact Or.inr ⟨outer, List.mem_append_right _ houter, hinner⟩

mutual

theorem Stmt.belongs : ∀ (s : Stmt), ∀ fn ∈ s.functions, fn.Belongs s.ownFunctions s.functions
  | .function name params body => by
      rw [Stmt.functions, Stmt.ownFunctions, List.forall_mem_cons]
      constructor
      · exact Or.inl (List.mem_singleton_self _)
      · intro fn hfn
        rcases belongs_of_all body fn hfn with hown | ⟨outer, houter, hinner⟩
        · exact Or.inr ⟨_, List.mem_cons_self, hown⟩
        · exact Or.inr ⟨outer, List.mem_cons_of_mem _ houter, hinner⟩
  | .choose branches none => by
      rw [Stmt.functions, Stmt.ownFunctions]
      exact .append (belongs_of_branches branches) nofun
  | .choose branches (some otherwise) => by
      rw [Stmt.functions, Stmt.ownFunctions]
      exact .append (belongs_of_branches branches) otherwise.belongs
  | .loop condition body => by
      rw [Stmt.functions, Stmt.ownFunctions]
      exact body.belongs
  | .block body => by
      rw [Stmt.functions, Stmt.ownFunctions]
      exact body.belongs
  | .declare _ _ | .assign _ _ | .assignField _ _ _ | .giveBack _ _ | .evaluate _ => by
      simp [Stmt.functions]

theorem Block.belongs : ∀ (b : Block), ∀ fn ∈ b.functions, fn.Belongs b.ownFunctions b.functions
  | { statements, .. } => by
      rw [Block.functions, Block.ownFunctions]
      exact belongs_of_all statements

theorem belongs_of_all : ∀ (statements : List Stmt), ∀ fn ∈ functionsOfAll statements,
    fn.Belongs (ownFunctionsOfAll statements) (functionsOfAll statements)
  | [] => nofun
  | s :: rest => by
      rw [functionsOfAll, ownFunctionsOfAll]
      exact .append s.belongs (belongs_of_all rest)

theorem belongs_of_branches : ∀ (branches : List Branch), ∀ fn ∈ functionsOfBranches branches,
    fn.Belongs (ownFunctionsOfBranches branches) (functionsOfBranches branches)
  | [] => nofun
  | { condition, body } :: rest => by
      rw [functionsOfBranches, ownFunctionsOfBranches]
      exact .append body.belongs (belongs_of_branches rest)

end

end StackScript
