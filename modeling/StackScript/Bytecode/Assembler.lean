import StackScript.Bytecode.Draft

/-!
# Programs under construction

An assembler holds the chunks of a program in the order in which they were
started: one main chunk, and others with names that differ.  It also keeps the
handles by name, and that on the main chunk, so that a chunk is found there and
not among the others.  A chunk whose construction fails keeps its place, its name
taken and nothing in it, so that the program can no longer be finished.
-/

namespace StackScript

/-- A chunk that was started, and its draft once that is complete.  The main
chunk has no name. -/
structure ChunkEntry where
  name : Option String
  draft : Option Draft := none
  deriving DecidableEq, Repr

structure Assembler where
  entries : Array ChunkEntry := #[]
  /-- The handle on each chunk with a name, the latest first. -/
  handles : List (String × ChunkRef) := []
  /-- The handle on the main chunk, once it was started. -/
  main? : Option ChunkRef := none
  deriving DecidableEq, Repr

def maxChunks : Nat := 256

namespace Assembler

def named? (a : Assembler) (name : String) : Option ChunkRef :=
  a.handles.lookup name

/-- The chunk that was started under a name, or the main chunk. -/
def handle? (a : Assembler) : Option String -> Option ChunkRef
  | some name => a.named? name
  | none => a.main?

def draft? (a : Assembler) (chunk : ChunkRef) : Option Draft :=
  a.entries[chunk]?.bind (·.draft)

def entered (a : Assembler) (name : Option String) : Assembler :=
  let entries := a.entries.push { name := name }
  match name with
  | some text => { a with entries := entries, handles := (text, a.entries.size) :: a.handles }
  | none => { a with entries := entries, main? := some a.entries.size }

/-- Starts a chunk, unless there is one under its name. -/
def reserve (a : Assembler) (name : Option String) : Except AssembleError (ChunkRef × Assembler) :=
  if (a.handle? name).isSome then
    .error (.duplicateChunk (name.getD mainName))
  else
    .ok (a.entries.size, a.entered name)

def complete (a : Assembler) (d : Draft) : Assembler :=
  { a with entries := a.entries.modify d.self fun entry => { entry with draft := some d } }

/-- How messages name a chunk that is not there. -/
def refText (chunk : ChunkRef) : String :=
  "#" ++ toString chunk

/-- The place of a chunk in the finished program: the main chunk comes first,
the others follow in the order in which they were started. -/
def chunkId (a : Assembler) (chunk : ChunkRef) : Except AssembleError UInt8 :=
  match a.main? with
  | none => .error .missingMain
  | some main =>
      if a.entries.size ≤ chunk then
        .error (.unknownChunk (refText chunk))
      else
        let id := if chunk = main then 0 else if chunk < main then chunk + 1 else chunk
        if id < maxChunks then
          .ok (UInt8.ofNat id)
        else
          .error (.tooManyChunks a.entries.size)

def order (a : Assembler) (main : ChunkRef) : List ChunkRef :=
  main :: (List.range a.entries.size).filter (· ≠ main)

def ordered (a : Assembler) : Except AssembleError (List Draft) :=
  match a.main? with
  | none => .error .missingMain
  | some main =>
      if a.entries.size ≤ maxChunks then
        (a.order main).mapM fun chunk =>
          match a.draft? chunk with
          | some d => .ok d
          | none => .error (.unknownChunk (refText chunk))
      else
        .error (.tooManyChunks a.entries.size)

def finalize (a : Assembler) : Except AssembleError Bytecode := do
  let drafts ← a.ordered
  let chunks ← drafts.mapM fun d => d.finish a.chunkId
  return { chunks := chunks }

end Assembler
end StackScript
