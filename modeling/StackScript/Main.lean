import StackScript.CommandLine.Session

/-!
# The command line

Runs a session in the real world: files are files, and texts go to the two
output streams.
-/

namespace StackScript

def FileFault.ofError : IO.Error -> FileFault
  | .noFileOrDirectory .. => .notFound
  | .inappropriateType .. => .isDirectory
  | e => .other (toString e)

def Session.perform : Session -> IO UInt32
  | .exit status => return status.toUInt32
  | .print text next => do
      IO.print text
      next.perform
  | .printError text next => do
      IO.eprint text
      next.perform
  | .read path next => do
      let answer ←
        try
          let bytes ← IO.FS.readBinFile path
          pure (.ok bytes.data.toList)
        catch e => pure (.error (FileFault.ofError e))
      (next answer).perform
  | .write path bytes next => do
      let answer ←
        try
          IO.FS.writeBinFile path { data := bytes.toArray }
          pure (.ok ())
        catch e => pure (.error (FileFault.ofError e))
      (next answer).perform

end StackScript

def main (arguments : List String) : IO UInt32 :=
  (StackScript.Session.ofArguments arguments).perform
