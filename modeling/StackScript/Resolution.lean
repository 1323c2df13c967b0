import Std.Data.TreeMap
import StackScript.Program
import StackScript.Scope

/-!
# Resolution

For each use of a name in a program the storage of its value, and for each block
the number of its locals.  A name can be used behind its declaration, and a
function also within its own body.
-/

namespace StackScript

structure Resolution where
  identifiers : Std.TreeMap IdentId Storage := ∅
  blocks : Std.TreeMap BlockId Nat := ∅

namespace Resolution

def storage? (r : Resolution) (name : Identifier) : Option Storage :=
  r.identifiers[name.id]?

def blockSize? (r : Resolution) (id : BlockId) : Option Nat :=
  r.blocks[id]?

end Resolution

structure Resolver where
  scopes : ScopeStack
  found : Resolution := {}

namespace Resolver

def record (r : Resolver) (name : Identifier) (storage : Storage) :
    Except ResolveError Resolver :=
  if r.found.identifiers.contains name.id then
    .error (.resolvedTwice name.name name.span)
  else
    .ok { r with
      found := { r.found with identifiers := r.found.identifiers.insert name.id storage } }

def declare (r : Resolver) (name : Identifier) : Except ResolveError Resolver :=
  match r.scopes.declare name.name name.span with
  | .ok storage scopes => { r with scopes := scopes }.record name storage
  | .error e _ => .error e

def declareAll (r : Resolver) : List Identifier -> Except ResolveError Resolver
  | [] => .ok r
  | name :: rest => do
      let r ← r.declare name
      r.declareAll rest

def use (r : Resolver) (name : Identifier) : Except ResolveError Resolver :=
  match r.scopes.lookup name.name with
  | some storage => r.record name storage
  | none => .error (.undeclared name.name name.span)

def closeBlock (r : Resolver) (id : BlockId) : Resolver :=
  match r.scopes.pop? with
  | some (scope, scopes) =>
      { scopes := scopes
        found := { r.found with blocks := r.found.blocks.insert id scope.locals } }
  | none => { r with found := { r.found with blocks := r.found.blocks.insert id 0 } }

def closeFunction (r : Resolver) : Resolver :=
  match r.scopes.pop? with
  | some (_, scopes) => { r with scopes := scopes }
  | none => r

mutual

def expr (r : Resolver) : Expr -> Except ResolveError Resolver
  | .call callee arguments _ => do
      let r ← r.expr callee
      r.exprs arguments
  | .unary _ operand _ => r.expr operand
  | .binary _ left right _ => do
      let r ← r.expr left
      r.expr right
  | .string _ => .ok r
  | .number _ => .ok r
  | .bool _ => .ok r
  | .null => .ok r
  | .ident name => r.use name
  | .field receiver _ => r.expr receiver

def exprs (r : Resolver) : List Expr -> Except ResolveError Resolver
  | [] => .ok r
  | e :: rest => do
      let r ← r.expr e
      r.exprs rest

end

mutual

def stmt (r : Resolver) : Stmt -> Except ResolveError Resolver
  | .declare name value => do
      let r ← r.expr value
      r.declare name
  | .assign target value => do
      let r ← r.use target
      r.expr value
  | .assignField receiver _ value => do
      let r ← r.expr receiver
      r.expr value
  | .function name params body => do
      let r ← r.declare name
      let r ← { r with scopes := r.scopes.pushFunction }.declareAll params
      let r ← r.stmts body
      return r.closeFunction
  | .choose branches otherwise => do
      let r ← r.branches branches
      match otherwise with
      | none => return r
      | some body => r.block body
  | .loop condition body => do
      let r ← r.expr condition
      r.block body
  | .giveBack value _ => r.expr value
  | .evaluate value => r.expr value
  | .block body => r.block body

def block (r : Resolver) : Block -> Except ResolveError Resolver
  | { id, statements } => do
      let r ← { r with scopes := r.scopes.pushBlock }.stmts statements
      return r.closeBlock id

def stmts (r : Resolver) : List Stmt -> Except ResolveError Resolver
  | [] => .ok r
  | s :: rest => do
      let r ← r.stmt s
      r.stmts rest

def branches (r : Resolver) : List Branch -> Except ResolveError Resolver
  | [] => .ok r
  | { condition, body } :: rest => do
      let r ← r.expr condition
      let r ← r.block body
      r.branches rest

end

end Resolver

def Program.resolve (program : Program) (builtins : List Builtin) :
    Except ResolveError Resolution := do
  let start : Resolver := { scopes := .ofBuiltins builtins }
  let r ← start.stmts program.statements
  return r.found

end StackScript
