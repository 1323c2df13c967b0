import StackScript.Text.Quoted
import StackScript.Token

/-!
# Compiled programs

A program is a list of chunks, one for the main code and one for each function,
the main chunk first.  A chunk has its constants and its code; its name is kept
for people and tools.
-/

namespace StackScript

/-- A constant of a finished chunk.  A function is known by the place of its
chunk in the program. -/
inductive Constant where
  | int (value : Int32)
  | string (text : String)
  | function (chunk : UInt8)
  deriving DecidableEq, Repr

def Constant.text : Constant -> String
  | int n => integerText n
  | string s => Text.quoted s
  | function id => "<fn #" ++ toString id.toNat ++ ">"

def mainName : String := "<main>"

structure Chunk where
  /-- The main chunk has no name. -/
  name : Option String
  constants : List Constant
  code : List UInt8
  deriving DecidableEq, Repr

def Chunk.displayName (chunk : Chunk) : String :=
  chunk.name.getD mainName

structure Bytecode where
  chunks : List Chunk
  deriving DecidableEq, Repr

def maxCodeLength : Nat := 65535

def maxStringLength : Nat := 65535

end StackScript
