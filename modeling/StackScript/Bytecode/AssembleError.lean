/-!
# Limits and slips of assembly

What can keep code from being put together: a limit of the encoded form, or a
use of labels and chunks that makes no sense.
-/

namespace StackScript

inductive AssembleError where
  | labelPlacedTwice (label : String) (first second : Nat)
  | labelNotPlaced (label : String)
  | constantPoolFull (chunk : String) (limit : Nat)
  | argumentOutOfRange (what : String) (value : Nat)
  | jumpOutOfRange (label : String) (distance : Nat)
  | jumpNotForward (label : String)
  | codeTooLong (chunk : String) (length : Nat)
  | stringTooLong (length : Nat)
  | duplicateChunk (chunk : String)
  | tooManyChunks (count : Nat)
  | missingMain
  | unknownChunk (chunk : String)
  deriving DecidableEq, Repr

namespace AssembleError

def message : AssembleError -> String
  | labelPlacedTwice label first second =>
      "internal: label " ++ label ++ " placed twice (at " ++ toString first ++ " and "
        ++ toString second ++ ")"
  | labelNotPlaced label =>
      "internal: position of label " ++ label ++ " read before it was placed"
  | constantPoolFull chunk limit =>
      "constant pool of chunk '" ++ chunk ++ "' is full (" ++ toString limit ++ " entries)"
  | argumentOutOfRange what value =>
      what ++ " " ++ toString value ++ " does not fit in one byte"
  | jumpOutOfRange label distance =>
      "jump to " ++ label ++ " spans " ++ toString distance
        ++ " bytes, at most 127 can be encoded"
  | jumpNotForward label =>
      "internal: conditional jump to " ++ label ++ " does not point forward"
  | codeTooLong chunk length =>
      "chunk '" ++ chunk ++ "' has " ++ toString length
        ++ " bytes of code, at most 65535 can be encoded"
  | stringTooLong length =>
      "string constant of " ++ toString length
        ++ " bytes is too long, at most 65535 can be encoded"
  | duplicateChunk chunk => "chunk '" ++ chunk ++ "' already exists"
  | tooManyChunks count =>
      "program has " ++ toString count ++ " chunks, at most 256 can be addressed"
  | missingMain => "internal: main chunk was never added"
  | unknownChunk chunk => "internal: unknown chunk '" ++ chunk ++ "'"

end AssembleError
end StackScript
