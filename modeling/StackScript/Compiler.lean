import StackScript.Bytecode.Listing
import StackScript.Lowering
import StackScript.Program.Parser.Statement

/-!
# Compiling

From a source text to the bytecode and its listing.
-/

namespace StackScript

inductive Error where
  | syntaxErrors (errors : List SyntaxError)
  | resolve (error : ResolveError)
  | compile (error : CompileError)
  /-- A file could not be read or written. -/
  | file (detail : String)
  deriving DecidableEq, Repr

namespace Error

def message : Error -> String
  | syntaxErrors errors => Diagnostic.report (errors.map SyntaxError.diagnostic)
  | resolve e => "resolve error: " ++ e.message
  | compile e => e.message
  | file detail => "I/O error: " ++ detail

def ofAssembleError (e : AssembleError) : Error :=
  compile (.assemble e)

end Error

structure Compilation where
  bytecode : Bytecode
  listing : String
  deriving DecidableEq, Repr

def Assembler.compilation (a : Assembler) : Except AssembleError Compilation := do
  let bytecode ← a.finalize
  let listing ← a.listing
  return { bytecode := bytecode, listing := listing }

def compile (source : String) (builtins : List Builtin) : Except Error Compilation := do
  let program ← (Program.parse source).mapError .syntaxErrors
  let resolution ← (program.resolve builtins).mapError .resolve
  let assembler ← (program.generate builtins resolution).mapError .compile
  assembler.compilation.mapError .ofAssembleError

end StackScript
