import StackScript.Bytecode.Assembler
import StackScript.Text.Padding

/-!
# Listings

The chunks of a program as text: the constants of each, then its code with one
instruction to a line, under the names of the labels that are placed there.
-/

namespace StackScript

/-- The labels with a name by their positions, each position with its labels in
the order in which they were made. -/
def Draft.labelIndex (d : Draft) : Array (List Label) :=
  d.labels.toList.zipIdx.foldr
    (fun (entry, label) index =>
      match entry.name, entry.position with
      | some _, some position => index.modify position (label :: ·)
      | _, _ => index)
    (Array.replicate (d.position + 1) [])

namespace Listing

/-- The text of a constant.  A function goes by its name and its place in the
program. -/
def constantText (a : Assembler) : PoolConstant -> Except AssembleError String
  | .int n => .ok (integerText n)
  | .string s => .ok (Text.quoted s)
  | .function chunk => do
      let id ← a.chunkId chunk
      let name := (a.draft? chunk).elim "?" Draft.displayName
      return "<fn '" ++ name ++ "' #" ++ toString id.toNat ++ ">"

/-- The text of an instruction that is no jump.  A constant that is used stands
behind it. -/
def instructionText (d : Draft) (i : Instruction) : String :=
  match i.argument with
  | some index =>
      if i.opcode.takesConstant then
        match d.pool.get? index.toNat with
        | some (.string s) => i.text ++ " (" ++ Text.quoted s ++ ")"
        | some (.int n) => i.text ++ " (" ++ integerText n ++ ")"
        | _ => i.text
      else
        i.text
  | none => i.text

def jumpTarget (i : Instruction) (behind distance : Nat) : Nat :=
  if i.opcode = .jumpBackward then behind - distance else behind + distance

/-- The text of a jump at a position: its distance, and where it leads. -/
def jumpText (d : Draft) (position : Nat) (target : Label) (i : Instruction) : String :=
  match i.argument with
  | some distance =>
      i.text ++ " -> "
        ++ Text.zeroPadded 4 (jumpTarget i (position + 2) distance.toNat)
        ++ " (" ++ d.labelName target ++ ")"
  | none => i.text

def directiveText (d : Draft) (position : Nat) (directive : Directive) :
    Except AssembleError String := do
  let i ← d.resolve directive
  match directive with
  | .instr _ => return instructionText d i
  | .jump target _ => return jumpText d position target i
  | .jumpIfFalse target _ => return jumpText d position target i

def labelLines (d : Draft) (labels : List Label) : String :=
  String.join (labels.map fun label => d.labelName label ++ ":\n")

def writeCode (d : Draft) (labelsAt : Nat -> List Label) (written : String) (position : Nat) :
    List Directive -> Except AssembleError String
  | [] => .ok (written ++ labelLines d (labelsAt position))
  | directive :: rest =>
      match directiveText d position directive with
      | .ok text =>
          writeCode d labelsAt
            (written ++ labelLines d (labelsAt position)
              ++ Text.zeroPadded 4 position ++ "    " ++ text ++ "\n")
            (position + directive.byteLength) rest
      | .error e => .error e

def chunkText (a : Assembler) (d : Draft) : Except AssembleError String := do
  let id ← a.chunkId d.self
  let constants ← d.pool.constants.mapM (constantText a)
  let lines := constants.zipIdx.map fun (text, index) => "@" ++ toString index ++ ": " ++ text ++ "\n"
  let index := d.labelIndex
  writeCode d (fun position => index[position]?.getD [])
    ("Chunk '" ++ d.displayName ++ "' #" ++ toString id.toNat ++ "\n----- Constants -----\n"
      ++ String.join lines ++ "----- Code -----\n")
    0 d.directives.toList

end Listing

/-- The listing of a program under construction, with an empty line between
chunks. -/
def Assembler.listing (a : Assembler) : Except AssembleError String := do
  let drafts ← a.ordered
  let texts ← drafts.mapM (Listing.chunkText a)
  return "\n".intercalate texts

end StackScript
