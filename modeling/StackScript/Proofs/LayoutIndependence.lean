import StackScript.Compiler
import StackScript.Proofs.PositionErasure

/-!
# Layout does not matter

Names are resolved and code is generated without a look at positions, which only
stand in the errors.  With the same for parsing, two sources with the same tokens
are compiled to the same program, or not compiled for the same reasons.
-/

namespace StackScript

/-!
## Errors
-/

def ResolveError.unplaced : ResolveError -> ResolveError
  | undeclared name _ => undeclared name .start
  | duplicate name _ scope => duplicate name .start scope
  | tooManyLocals name _ slot => tooManyLocals name .start slot
  | resolvedTwice name _ => resolvedTwice name .start

def CompileError.unplaced : CompileError -> CompileError
  | unresolved name _ => unresolved name .start
  | notAssignable name _ hint => notAssignable name .start hint
  | assemble e => assemble e
  | internal detail => internal detail

/-- The error with all its positions forgotten: what is left are its kind, its
names and its texts, and for syntax errors how many there are. -/
def Error.unplaced : Error -> Error
  | syntaxErrors errors => syntaxErrors (errors.map SyntaxError.unplaced)
  | resolve e => resolve e.unplaced
  | compile e => compile e.unplaced
  | file detail => file detail

/-!
## Resolution

A construct is resolved in a chain of steps.  None of them depends on positions,
so each is answered with the same findings, or with the same error elsewhere.
-/

theorem Scope.declare_unplaced (s : Scope) (name : String) (span : Span) :
    s.declare name .start =
      EStateM.adaptExcept ResolveError.unplaced (Scope.declare · name span) s := by
  unfold Scope.declare EStateM.adaptExcept
  by_cases htaken : (s.get? name).isSome
  · simp [htaken, ResolveError.unplaced]
  by_cases hkind : s.kind = .global
  · simp [htaken, hkind]
  by_cases hroom : s.nextSlot ≤ maxSlot
  · simp [htaken, hkind, hroom]
  · simp [htaken, hkind, hroom, ResolveError.unplaced]

theorem ScopeStack.declare_unplaced (s : ScopeStack) (name : String) (span : Span) :
    s.declare name .start =
      EStateM.adaptExcept ResolveError.unplaced (ScopeStack.declare · name span) s := by
  rcases s with ⟨inner, bottom⟩
  cases inner with
  | nil =>
      simp only [ScopeStack.declare, bottom.declare_unplaced name span, EStateM.adaptExcept]
      cases bottom.declare name span <;> rfl
  | cons scope rest =>
      simp only [ScopeStack.declare, scope.declare_unplaced name span, EStateM.adaptExcept]
      cases scope.declare name span <;> rfl

namespace Resolver

theorem record_unplaced (r : Resolver) (name : Identifier) (storage : Storage) :
    r.record name.unplaced storage = (r.record name storage).mapError ResolveError.unplaced := by
  unfold record
  rw [Identifier.id_unplaced]
  split
  · rfl
  · rfl

theorem declare_unplaced (r : Resolver) (name : Identifier) :
    r.declare name.unplaced = (r.declare name).mapError ResolveError.unplaced := by
  have hscopes : r.scopes.declare name.unplaced.name name.unplaced.span = _ :=
    r.scopes.declare_unplaced name.name name.span
  simp only [declare, hscopes, EStateM.adaptExcept]
  cases r.scopes.declare name.name name.span with
  | ok storage scopes => exact record_unplaced _ name storage
  | error e scopes => rfl

theorem declareAll_unplaced (r : Resolver) (names : List Identifier) :
    r.declareAll (names.map Identifier.unplaced) =
      (r.declareAll names).mapError ResolveError.unplaced := by
  induction names generalizing r with
  | nil => rfl
  | cons name rest ih => exact bind_mapError (r.declare_unplaced name) ih

theorem use_unplaced (r : Resolver) (name : Identifier) :
    r.use name.unplaced = (r.use name).mapError ResolveError.unplaced := by
  unfold use
  rw [Identifier.name_unplaced]
  split
  · exact r.record_unplaced name _
  · rfl

mutual

theorem expr_unplaced : ∀ (e : Expr) (r : Resolver),
    r.expr e.unplaced = (r.expr e).mapError ResolveError.unplaced
  | .call callee arguments _, r =>
      bind_mapError (expr_unplaced callee r) (exprs_unplaced arguments)
  | .unary _ operand _, r => expr_unplaced operand r
  | .binary _ left right _, r => bind_mapError (expr_unplaced left r) (expr_unplaced right)
  | .string _, _ => rfl
  | .number _, _ => rfl
  | .bool _, _ => rfl
  | .null, _ => rfl
  | .ident name, r => r.use_unplaced name
  | .field receiver _, r => expr_unplaced receiver r

theorem exprs_unplaced : ∀ (es : List Expr) (r : Resolver),
    r.exprs (unplacedExprs es) = (r.exprs es).mapError ResolveError.unplaced
  | [], _ => rfl
  | e :: rest, r => bind_mapError (expr_unplaced e r) (exprs_unplaced rest)

end

mutual

theorem stmt_unplaced : ∀ (s : Stmt) (r : Resolver),
    r.stmt s.unplaced = (r.stmt s).mapError ResolveError.unplaced
  | .declare name value, r =>
      bind_mapError (expr_unplaced value r) fun r => r.declare_unplaced name
  | .assign target value, r => bind_mapError (r.use_unplaced target) (expr_unplaced value)
  | .assignField receiver _ value, r =>
      bind_mapError (expr_unplaced receiver r) (expr_unplaced value)
  | .function name params body, r =>
      bind_mapError (r.declare_unplaced name) fun _ =>
        bind_mapError (declareAll_unplaced _ params) fun r =>
          bind_mapError (stmts_unplaced body r) fun _ => rfl
  | .choose branches none, r => bind_mapError (branches_unplaced branches r) fun _ => rfl
  | .choose branches (some otherwise), r =>
      bind_mapError (branches_unplaced branches r) (block_unplaced otherwise)
  | .loop condition body, r => bind_mapError (expr_unplaced condition r) (block_unplaced body)
  | .giveBack value _, r => expr_unplaced value r
  | .evaluate value, r => expr_unplaced value r
  | .block body, r => block_unplaced body r

theorem block_unplaced : ∀ (b : Block) (r : Resolver),
    r.block b.unplaced = (r.block b).mapError ResolveError.unplaced
  | { statements, .. }, _ => bind_mapError (stmts_unplaced statements _) fun _ => rfl

theorem stmts_unplaced : ∀ (statements : List Stmt) (r : Resolver),
    r.stmts (unplacedStmts statements) = (r.stmts statements).mapError ResolveError.unplaced
  | [], _ => rfl
  | s :: rest, r => bind_mapError (stmt_unplaced s r) (stmts_unplaced rest)

theorem branches_unplaced : ∀ (branches : List Branch) (r : Resolver),
    r.branches (unplacedBranches branches) =
      (r.branches branches).mapError ResolveError.unplaced
  | [], _ => rfl
  | { condition, body } :: rest, r =>
      bind_mapError (expr_unplaced condition r) fun r =>
        bind_mapError (block_unplaced body r) (branches_unplaced rest)

end

end Resolver

theorem Program.resolve_unplaced (program : Program) (builtins : List Builtin) :
    program.unplaced.resolve builtins =
      (program.resolve builtins).mapError ResolveError.unplaced :=
  bind_mapError (Resolver.stmts_unplaced program.statements _) fun _ => rfl

/-!
## Code
-/

namespace Resolution

variable (r : Resolution)

theorem storage_unplaced (name : Identifier) :
    r.storage name.unplaced = (r.storage name).mapError CompileError.unplaced := by
  unfold storage storage?
  rw [Identifier.id_unplaced]
  split
  · rfl
  · rfl

theorem introduce_unplaced (name : Identifier) (value : Fragment) :
    r.introduce name.unplaced value =
      (r.introduce name value).mapError CompileError.unplaced := by
  refine bind_mapError (r.storage_unplaced name) fun storage => ?_
  cases storage.introduce? value with
  | some code => rfl
  | none => rfl

theorem assign_unplaced (name : Identifier) (value : Fragment) :
    r.assign name.unplaced value = (r.assign name value).mapError CompileError.unplaced := by
  refine bind_mapError (r.storage_unplaced name) fun storage => ?_
  cases storage.write? value with
  | some code => rfl
  | none => rfl

theorem arity_unplaced (name : Identifier) (params : List Identifier) :
    arity name.unplaced (params.map Identifier.unplaced) =
      (arity name params).mapError CompileError.unplaced := by
  unfold arity
  rw [List.length_map]
  split
  · rfl
  · rfl

theorem blockSize_unplaced (id : BlockId) :
    r.blockSize id = (r.blockSize id).mapError CompileError.unplaced := by
  unfold blockSize
  split
  · rfl
  · rfl

mutual

theorem lowerExpr_unplaced : ∀ e : Expr,
    r.lowerExpr e.unplaced = (r.lowerExpr e).mapError CompileError.unplaced
  | .call callee arguments _ =>
      bind_mapError (lowerExprs_unplaced arguments) fun _ =>
        bind_mapError (lowerExpr_unplaced callee) fun _ => rfl
  | .unary _ operand _ => bind_mapError (lowerExpr_unplaced operand) fun _ => rfl
  | .binary _ left right _ =>
      bind_mapError (lowerExpr_unplaced left) fun _ =>
        bind_mapError (lowerExpr_unplaced right) fun _ => rfl
  | .string _ => rfl
  | .number _ => rfl
  | .bool _ => rfl
  | .null => rfl
  | .ident name => bind_mapError (r.storage_unplaced name) fun _ => rfl
  | .field receiver _ => bind_mapError (lowerExpr_unplaced receiver) fun _ => rfl

theorem lowerExprs_unplaced : ∀ es : List Expr,
    r.lowerExprs (unplacedExprs es) = (r.lowerExprs es).mapError CompileError.unplaced
  | [] => rfl
  | e :: rest =>
      bind_mapError (lowerExpr_unplaced e) fun _ =>
        bind_mapError (lowerExprs_unplaced rest) fun _ => rfl

end

mutual

theorem lowerStmt_unplaced : ∀ s : Stmt,
    r.lowerStmt s.unplaced = (r.lowerStmt s).mapError CompileError.unplaced
  | .declare name value =>
      bind_mapError (r.lowerExpr_unplaced value) fun _ => r.introduce_unplaced name _
  | .assign target value =>
      bind_mapError (r.lowerExpr_unplaced value) fun _ => r.assign_unplaced target _
  | .assignField receiver _ value =>
      bind_mapError (r.lowerExpr_unplaced value) fun _ =>
        bind_mapError (r.lowerExpr_unplaced receiver) fun _ => rfl
  | .function name params body =>
      bind_mapError (arity_unplaced name params) fun _ =>
        bind_mapError (lowerStmts_unplaced body []) fun _ => r.introduce_unplaced name _
  | .choose branches none => bind_mapError (lowerBranches_unplaced branches) fun _ => rfl
  | .choose branches (some otherwise) =>
      bind_mapError (lowerBranches_unplaced branches) fun _ =>
        bind_mapError (lowerBlock_unplaced otherwise) fun _ => rfl
  | .loop condition body =>
      bind_mapError (r.lowerExpr_unplaced condition) fun _ =>
        bind_mapError (lowerBlock_unplaced body) fun _ => rfl
  | .giveBack value _ => bind_mapError (r.lowerExpr_unplaced value) fun _ => rfl
  | .evaluate value => bind_mapError (r.lowerExpr_unplaced value) fun _ => rfl
  | .block body => lowerBlock_unplaced body

theorem lowerBlock_unplaced : ∀ b : Block,
    r.lowerBlock b.unplaced = (r.lowerBlock b).mapError CompileError.unplaced
  | { id, statements } =>
      bind_mapError (r.blockSize_unplaced id) fun _ =>
        bind_mapError (lowerStmts_unplaced statements []) fun _ => rfl

theorem lowerStmts_unplaced : ∀ (statements : List Stmt) (done : List Fragment),
    r.lowerStmts done (unplacedStmts statements) =
      (r.lowerStmts done statements).mapError CompileError.unplaced
  | [], _ => rfl
  | s :: rest, _ =>
      bind_mapError (lowerStmt_unplaced s) fun _ => lowerStmts_unplaced rest _

theorem lowerBranches_unplaced : ∀ branches : List Branch,
    r.lowerBranches (unplacedBranches branches) =
      (r.lowerBranches branches).mapError CompileError.unplaced
  | [] => rfl
  | { condition, body } :: rest =>
      bind_mapError (r.lowerExpr_unplaced condition) fun _ =>
        bind_mapError (lowerBlock_unplaced body) fun _ =>
          bind_mapError (lowerBranches_unplaced rest) fun _ => rfl

end

end Resolution

theorem Assembly.runFrom_unplaced {α : Type} (a : Assembler) (step : Assembly α) :
    Assembly.runFrom a step = (Assembly.runFrom a step).mapError CompileError.unplaced := by
  unfold Assembly.runFrom
  split
  · rfl
  · rfl

theorem Program.generate_unplaced (program : Program) (builtins : List Builtin)
    (resolution : Resolution) :
    program.unplaced.generate builtins resolution =
      (program.generate builtins resolution).mapError CompileError.unplaced :=
  bind_mapError (Assembly.runFrom_unplaced _ _) fun _ =>
    bind_mapError (resolution.lowerStmts_unplaced program.statements []) fun _ =>
      bind_mapError (Assembly.runFrom_unplaced _ _) fun _ => rfl

/-!
## Compiling
-/

namespace Program

def compilation (program : Program) (builtins : List Builtin) : Except Error Compilation := do
  let resolution ← (program.resolve builtins).mapError .resolve
  let assembler ← (program.generate builtins resolution).mapError .compile
  assembler.compilation.mapError .ofAssembleError

theorem compilation_unplaced (program : Program) (builtins : List Builtin) :
    program.unplaced.compilation builtins =
      (program.compilation builtins).mapError Error.unplaced := by
  refine bind_mapError ?_ fun resolution => bind_mapError ?_ fun assembler => ?_
  · rw [resolve_unplaced]
    cases program.resolve builtins with
    | ok resolution => rfl
    | error e => rfl
  · rw [generate_unplaced]
    cases program.generate builtins resolution with
    | ok assembler => rfl
    | error e => rfl
  · cases assembler.compilation with
    | ok c => rfl
    | error e => rfl

def compilationOfTokens (tokens : List Located) (builtins : List Builtin) :
    Except Error Compilation := do
  let program ← (Parser.program { rest := tokens }).1.mapError .syntaxErrors
  program.compilation builtins

theorem compilationOfTokens_unplaced (tokens : List Located) (builtins : List Builtin) :
    compilationOfTokens (tokens.map Located.unplaced) builtins =
      (compilationOfTokens tokens builtins).mapError Error.unplaced := by
  have hprogram : (Parser.program { rest := tokens.map Located.unplaced }).1 = _ :=
    Parser.program_unplaced { rest := tokens }
  unfold compilationOfTokens
  rw [hprogram]
  cases (Parser.program { rest := tokens }).1 with
  | ok program => exact program.compilation_unplaced builtins
  | error errors => rfl

end Program

theorem compile_of_tokens {source : String} {tokens : List Located}
    (h : (Cursor.ofSource source).significantTokens.outcome = .ok tokens)
    (builtins : List Builtin) :
    compile source builtins = Program.compilationOfTokens tokens builtins := by
  rcases map_eq_ok_iff.mp h with ⟨all, hall, rfl⟩
  have hparse : Program.parse source = Program.ofTokens all := by
    rw [Program.parse, tokenize, hall]
  unfold compile
  rw [hparse]
  rfl

theorem map_unplaced_eq {tokens tokens' : List Located}
    (h : tokens.map (·.token) = tokens'.map (·.token)) :
    tokens.map Located.unplaced = tokens'.map Located.unplaced := by
  have hfactor : Located.unplaced = (fun token => { token, span := .start }) ∘ (·.token) := rfl
  rw [hfactor, ← List.map_map, ← List.map_map, h]

/-- Two sources with the same significant tokens are compiled to the same
bytecode and listing, or have the same errors but for the positions. -/
theorem compile_layout_independent {source source' : String} {tokens tokens' : List Located}
    (h : (Cursor.ofSource source).significantTokens.outcome = .ok tokens)
    (h' : (Cursor.ofSource source').significantTokens.outcome = .ok tokens')
    (hsame : tokens.map (·.token) = tokens'.map (·.token)) (builtins : List Builtin) :
    (∃ c, compile source builtins = .ok c ∧ compile source' builtins = .ok c) ∨
      ∃ e e', compile source builtins = .error e ∧ compile source' builtins = .error e' ∧
        e.unplaced = e'.unplaced := by
  have hforgotten : (compile source builtins).mapError Error.unplaced =
      (compile source' builtins).mapError Error.unplaced := by
    rw [compile_of_tokens h, compile_of_tokens h', ← Program.compilationOfTokens_unplaced,
      ← Program.compilationOfTokens_unplaced, map_unplaced_eq hsame]
  cases hc : compile source builtins with
  | ok c =>
      rw [hc] at hforgotten
      left
      exact ⟨c, rfl, mapError_eq_ok_iff.mp hforgotten.symm⟩
  | error e =>
      rw [hc] at hforgotten
      right
      cases hc' : compile source' builtins with
      | ok c =>
          rw [hc'] at hforgotten
          cases hforgotten
      | error e' =>
          rw [hc'] at hforgotten
          exact ⟨e, e', rfl, rfl, Except.error.inj hforgotten⟩

def crowdedSource : String :=
  "\x7d fn()\x7b\x7d fn g(\x7b\x7d"

def spacedSource : String :=
  "\x7d // closes nothing\n\nfn () \x7b\n\x7d\n\n// no parameter\nfn g(\n  \x7b \x7d\n"

def crowdedTokens : List Token :=
  [.symbol .rightBrace, .keyword .fnWord, .symbol .leftParen, .symbol .rightParen,
    .symbol .leftBrace, .symbol .rightBrace, .keyword .fnWord, .ident "g", .symbol .leftParen,
    .symbol .leftBrace, .symbol .rightBrace, .endOfInput]

theorem compile_layout_independent_crowded :
    (∃ tokens, (Cursor.ofSource crowdedSource).significantTokens.outcome = .ok tokens ∧
      tokens.map (·.token) = crowdedTokens) ∧
    (∃ tokens, (Cursor.ofSource spacedSource).significantTokens.outcome = .ok tokens ∧
      tokens.map (·.token) = crowdedTokens) ∧
    ∃ e e', compile crowdedSource Builtin.standard = .error e ∧
      compile spacedSource Builtin.standard = .error e' ∧ e ≠ e' ∧ e.unplaced = e'.unplaced := by
  have hcrowded : ∃ tokens, (Cursor.ofSource crowdedSource).significantTokens.outcome =
      .ok tokens ∧ tokens.map (·.token) = crowdedTokens := by
    apply exists_ok_of_map (List.map (·.token)) (y := crowdedTokens)
    · decide +kernel
    · exact fun _ _ htokens => htokens
  have hspaced : ∃ tokens, (Cursor.ofSource spacedSource).significantTokens.outcome =
      .ok tokens ∧ tokens.map (·.token) = crowdedTokens := by
    apply exists_ok_of_map (List.map (·.token)) (y := crowdedTokens)
    · decide +kernel
    · exact fun _ _ htokens => htokens
  refine ⟨hcrowded, hspaced, ?_⟩
  have hdiffer : compile crowdedSource Builtin.standard ≠
      compile spacedSource Builtin.standard := by
    decide +kernel
  rcases hcrowded with ⟨tokens, h, htokens⟩
  rcases hspaced with ⟨tokens', h', htokens'⟩
  rcases compile_layout_independent h h' (htokens.trans htokens'.symm) Builtin.standard with
    ⟨c, hc, hc'⟩ | ⟨e, e', he, he', hsame⟩
  · exact absurd (hc.trans hc'.symm) hdiffer
  · refine ⟨e, e', he, he', ?_, hsame⟩
    intro heq
    rw [he, he', heq] at hdiffer
    exact hdiffer rfl

end StackScript
