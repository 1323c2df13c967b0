import StackScript.Bytecode.Fragment

/-!
# Built-in functions

Functions that a program can use without declaring them.  Each is given as a
fragment and gets a chunk of its own; its arguments are in the slots from one
on.
-/

namespace StackScript

structure Builtin where
  name : String
  /-- The number of parameters. -/
  arity : UInt8
  code : Fragment

namespace Builtin

open Fragment

def fact : Builtin where
  name := "fact"
  arity := 1
  code :=
    sequence
      [ifThen (binary (getLocal 1) (int 1) .equal) (giveBack (int 1)),
        giveBack
          (binary (getLocal 1)
            (call self [binary (getLocal 1) (int 1) .subtract])
            .multiply)]

def println : Builtin where
  name := "println"
  arity := 1
  code := sequence [print (getLocal 1), giveBack null]

def object : Builtin where
  name := "object"
  arity := 0
  code := giveBack newInstance

def standard : List Builtin := [fact, println, object]

end Builtin
end StackScript
