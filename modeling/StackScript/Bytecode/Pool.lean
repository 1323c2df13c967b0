import StackScript.Bytecode.AssembleError

/-!
# Constant pools

The constants of a chunk, each kept once, in the order in which they were
first stored.  A constant is used by its index, which is a single byte.  The
pool also keeps the indices by constant, so that a constant which is stored again
is found there and not among the others.
-/

namespace StackScript

/-- A handle on a chunk of the program under construction: how many chunks were
started before it. -/
abbrev ChunkRef := Nat

/-- A constant of a chunk under construction.  A function is known by the
handle on its chunk. -/
inductive PoolConstant where
  | int (value : Int32)
  | string (text : String)
  | function (chunk : ChunkRef)
  deriving DecidableEq, Repr

def maxConstants : Nat := 255

structure Pool where
  constants : List PoolConstant := []
  /-- The index of each constant, the latest first. -/
  indices : List (PoolConstant × UInt8) := []
  deriving DecidableEq, Repr

namespace Pool

def get? (pool : Pool) (index : Nat) : Option PoolConstant :=
  pool.constants[index]?

/-- The index of a constant, which is added if it is new, and the pool behind
this, also when it fails.  The name of the chunk is for the error of a full
pool. -/
def store (pool : Pool) (c : PoolConstant) (chunk : String) :
    EStateM.Result AssembleError Pool UInt8 :=
  match pool.indices.lookup c with
  | some index => .ok index pool
  | none =>
      if pool.constants.length < maxConstants then
        let index := UInt8.ofNat pool.constants.length
        .ok index { constants := pool.constants ++ [c], indices := (c, index) :: pool.indices }
      else
        .error (.constantPoolFull chunk maxConstants) pool

end Pool
end StackScript
