import StackScript.Builtin
import StackScript.Span
import StackScript.Storage

/-!
# Scopes

The names that can be used at a place of a program.  Scopes are stacked, with
the global one at the bottom.  A function sees its own names and the global
ones, and not those of the blocks around it.
-/

namespace StackScript

inductive ScopeKind where
  | global
  | block
  | function
  deriving DecidableEq, Repr

def ScopeKind.text : ScopeKind -> String
  | global => "global"
  | block => "block"
  | function => "function"

inductive ResolveError where
  | undeclared (name : String) (span : Span)
  | duplicate (name : String) (span : Span) (scope : ScopeKind)
  | tooManyLocals (name : String) (span : Span) (slot : Nat)
  | resolvedTwice (name : String) (span : Span)
  deriving DecidableEq, Repr

def maxSlot : Nat := 255

/-- The first slot of a local; the one before it holds the function itself. -/
def firstSlot : Nat := 1

def ResolveError.message : ResolveError -> String
  | undeclared name span => span.text ++ ": undeclared identifier '" ++ name ++ "'"
  | duplicate name span scope =>
      span.text ++ ": '" ++ name ++ "' is already declared in this " ++ scope.text ++ " scope"
  | tooManyLocals name span slot =>
      span.text ++ ": too many local variables, '" ++ name ++ "' would need slot "
        ++ toString slot ++ " (at most " ++ toString maxSlot ++ ")"
  | resolvedTwice name span =>
      "internal: identifier '" ++ name ++ "' at " ++ span.text ++ " resolved twice"

/-- One scope: its names, the latest first, the slot of its first local and the
number of its locals. -/
structure Scope where
  kind : ScopeKind
  values : List (String × Storage) := []
  base : Nat := firstSlot
  locals : Nat := 0
  deriving DecidableEq, Repr

namespace Scope

def nextSlot (s : Scope) : Nat := s.base + s.locals

def get? (s : Scope) (name : String) : Option Storage :=
  s.values.lookup name

/-- Adds a name, which has to be new in the scope.  There is a scope behind this
also when it fails. -/
def declare (s : Scope) (name : String) (span : Span) :
    EStateM.Result ResolveError Scope Storage :=
  if (s.get? name).isSome then
    .error (.duplicate name span s.kind) s
  else if s.kind = .global then
    .ok (.globalName name) { s with values := (name, .globalName name) :: s.values }
  else if s.nextSlot ≤ maxSlot then
    let storage := Storage.localSlot name (UInt8.ofNat s.nextSlot)
    .ok storage { s with values := (name, storage) :: s.values, locals := s.locals + 1 }
  else
    .error (.tooManyLocals name span s.nextSlot) s

end Scope

/-- The scopes around a place: the inner ones, the innermost first, over the
global one. -/
structure ScopeStack where
  inner : List Scope := []
  bottom : Scope
  deriving DecidableEq, Repr

namespace ScopeStack

def ofBuiltins (builtins : List Builtin) : ScopeStack where
  bottom :=
    { kind := .global
      values := builtins.foldl (fun values b => (b.name, .builtin b.name b.arity) :: values) [] }

def top (s : ScopeStack) : Scope :=
  s.inner.headD s.bottom

def depth (s : ScopeStack) : Nat :=
  s.inner.length + 1

/-- Opens a block, whose locals follow those around it. -/
def pushBlock (s : ScopeStack) : ScopeStack :=
  { s with inner := { kind := .block, base := s.top.nextSlot } :: s.inner }

/-- Opens a function, whose locals start anew. -/
def pushFunction (s : ScopeStack) : ScopeStack :=
  { s with inner := { kind := .function, base := s.bottom.nextSlot } :: s.inner }

/-- Closes the innermost scope.  The global scope stays. -/
def pop? (s : ScopeStack) : Option (Scope × ScopeStack) :=
  match s.inner with
  | [] => none
  | scope :: rest => some (scope, { s with inner := rest })

def declare (s : ScopeStack) (name : String) (span : Span) :
    EStateM.Result ResolveError ScopeStack Storage :=
  match s.inner with
  | [] =>
      match s.bottom.declare name span with
      | .ok storage bottom => .ok storage { s with bottom := bottom }
      | .error e bottom => .error e { s with bottom := bottom }
  | scope :: rest =>
      match scope.declare name span with
      | .ok storage scope => .ok storage { s with inner := scope :: rest }
      | .error e scope => .error e { s with inner := scope :: rest }

/-- The storage of a name as the given scopes see it.  Behind a function only
the global scope is left. -/
def lookupIn (bottom : Scope) (name : String) : List Scope -> Option Storage
  | [] => bottom.get? name
  | scope :: rest =>
      match scope.get? name with
      | some storage => some storage
      | none =>
          if scope.kind = .function then
            bottom.get? name
          else
            lookupIn bottom name rest

def lookup (s : ScopeStack) (name : String) : Option Storage :=
  lookupIn s.bottom name s.inner

end ScopeStack
end StackScript
