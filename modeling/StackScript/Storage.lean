import StackScript.Bytecode.Fragment

/-!
# Storage

Where the value of a name is kept while a program runs: in a slot of the stack,
in the table of globals, or, for a built-in function, in its chunk.
-/

namespace StackScript

inductive Storage where
  | localSlot (name : String) (slot : UInt8)
  | globalName (name : String)
  | builtin (name : String) (arity : UInt8)
  deriving DecidableEq, Repr

namespace Storage

def read : Storage -> Fragment
  | localSlot _ slot => .getLocal slot
  | globalName name => .getGlobal name
  | builtin name _ => .builtin name

/-- The code that stores a value.  A built-in function cannot be changed. -/
def write? (value : Fragment) : Storage -> Option Fragment
  | localSlot _ slot => some (.setLocal slot value)
  | globalName name => some (.setGlobal name value)
  | builtin _ _ => none

/-- The code that gives a new name its first value.  A local stays on the stack,
where it already is in its slot. -/
def introduce? (value : Fragment) : Storage -> Option Fragment
  | localSlot _ _ => some value
  | globalName name => some (.setGlobal name value)
  | builtin _ _ => none

end Storage
end StackScript
