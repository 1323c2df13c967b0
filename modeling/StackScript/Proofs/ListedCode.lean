import StackScript.Bytecode.Listing
import StackScript.Proofs.DraftInvariants

/-!
# The lines of listed code

The code of a chunk is listed as lines: instructions at offsets that the listing
counts itself, and the names of labels above them.  The lines of a sound draft
show what a reader of the finished bytes finds, and every jump with the position
that its distance leads to.
-/

namespace StackScript

/-!
## Labels by position
-/

namespace Draft

variable {d : Draft}

def Named (d : Draft) (label : Label) : Prop :=
  ∃ name, d.labels[label]?.bind (·.name) = some name

def labelsAt (d : Draft) (position : Nat) : List Label :=
  d.labelIndex[position]?.getD []

end Draft

/-!
## Lines
-/

inductive CodeLine where
  /-- The name of a label. -/
  | label (label : Label)
  /-- An instruction at an offset, with the constant that it uses. -/
  | plain (offset : Nat) (i : Instruction) (note : String)
  /-- A jump at an offset, with the label that it goes to and its position. -/
  | jump (offset : Nat) (i : Instruction) (target : Label) (there : Nat)

namespace CodeLine

def text (d : Draft) : CodeLine -> String
  | label l => d.labelName l ++ ":\n"
  | plain offset i note => Text.zeroPadded 4 offset ++ "    " ++ (i.text ++ note) ++ "\n"
  | jump offset i target there =>
      Text.zeroPadded 4 offset ++ "    "
        ++ (i.text ++ " -> " ++ Text.zeroPadded 4 there ++ " (" ++ d.labelName target ++ ")")
        ++ "\n"

def instruction? : CodeLine -> Option (Nat × Instruction)
  | label _ => none
  | plain offset i _ | jump offset i _ _ => some (offset, i)

def label? : CodeLine -> Option Label
  | label l => some l
  | _ => none

/-- The offset of the first instruction of the lines, or the end of the code. -/
def nextOffset (stop : Nat) (lines : List CodeLine) : Nat :=
  ((lines.findSome? instruction?).map (·.1)).getD stop

variable {labels : List Label} {lines : List CodeLine}

end CodeLine

/-!
## Constants in lines
-/

/-- The text of a constant that is shown where it is used, which is one that is
not a function. -/
def PoolConstant.shown? : PoolConstant -> Option String
  | .int n => some (integerText n)
  | .string s => some (Text.quoted s)
  | .function _ => none

def Constant.shown? : Constant -> Option String
  | .int n => some (integerText n)
  | .string s => some (Text.quoted s)
  | .function _ => none

def Instruction.note (i : Instruction) (shown? : Nat -> Option String) : String :=
  match i.argument with
  | some index =>
      if i.opcode.takesConstant then
        (shown? index.toNat).elim "" fun text => " (" ++ text ++ ")"
      else
        ""
  | none => ""

def Chunk.constantNote (chunk : Chunk) (i : Instruction) : String :=
  i.note fun index => chunk.constants[index]?.bind Constant.shown?

namespace Draft

def constantNote (d : Draft) (i : Instruction) : String :=
  i.note fun index => (d.pool.get? index).bind PoolConstant.shown?

def line (d : Draft) (offset : Nat) : Directive -> Instruction -> CodeLine
  | .instr _, i => .plain offset i (d.constantNote i)
  | .jump target _, i | .jumpIfFalse target _, i =>
      .jump offset i target (Listing.jumpTarget i (offset + 2) i.operand)

/-- The lines of directives from an offset on, each under the labels of its
offset, with the labels of the end last. -/
def linesFrom (d : Draft) : Nat -> List Directive -> List Instruction -> List CodeLine
  | offset, directive :: directives, i :: instructions =>
      (d.labelsAt offset).map .label ++
        d.line offset directive i ::
          linesFrom d (offset + directive.byteLength) directives instructions
  | offset, _, _ => (d.labelsAt offset).map .label

variable {d : Draft} {offset : Nat} {directive : Directive} {i : Instruction}

theorem instructionText_eq : Listing.instructionText d i = i.text ++ d.constantNote i := by
  unfold Listing.instructionText constantNote Instruction.note
  cases i.argument with
  | none => simp
  | some index =>
      by_cases htakes : i.opcode.takesConstant
      · simp only [htakes, if_true]
        cases d.pool.get? index.toNat with
        | none => simp
        | some c => cases c <;> simp [PoolConstant.shown?, String.append_assoc]
      · simp [htakes]

theorem jumpText_of_jumpInstruction {opcode : Opcode} {target : Label} {distance : Nat}
    (h : d.jumpInstruction opcode target distance = .ok i) :
    Listing.jumpText d offset target i = i.text ++ " -> "
      ++ Text.zeroPadded 4 (Listing.jumpTarget i (offset + 2) i.operand)
      ++ " (" ++ d.labelName target ++ ")" := by
  rcases jumpInstruction_cases d opcode target distance with ⟨byte, hok, _⟩ | ⟨⟨e, he⟩, _⟩
  · cases h.symm.trans hok
    rfl
  · cases h.symm.trans he

theorem jumpInstruction_of_resolve {target here : Label}
    (h : d.resolve (.jump target here) = .ok i ∨ d.resolve (.jumpIfFalse target here) = .ok i) :
    ∃ opcode distance, d.jumpInstruction opcode target distance = .ok i := by
  rcases h with h | h
  · simp only [resolve, bind_eq_ok_iff] at h
    rcases h with ⟨there, _, behind, _, h⟩
    by_cases hforward : behind < there
    · rw [if_pos hforward] at h
      exact ⟨_, _, h⟩
    · rw [if_neg hforward] at h
      exact ⟨_, _, h⟩
  · simp only [resolve, bind_eq_ok_iff] at h
    rcases h with ⟨there, _, behind, _, h⟩
    by_cases hbackward : there < behind
    · rw [if_pos hbackward] at h
      cases h
    · rw [if_neg hbackward] at h
      exact ⟨_, _, h⟩

theorem directiveText_of_resolve (offset : Nat) (h : d.resolve directive = .ok i) :
    ∃ text, Listing.directiveText d offset directive = .ok text ∧
      Text.zeroPadded 4 offset ++ "    " ++ text ++ "\n" = (d.line offset directive i).text d := by
  rw [Listing.directiveText, h]
  cases directive with
  | instr j => exact ⟨_, rfl, by rw [instructionText_eq]; rfl⟩
  | jump target here =>
      rcases jumpInstruction_of_resolve (Or.inl h) with ⟨opcode, distance, hjump⟩
      exact ⟨_, rfl, by rw [jumpText_of_jumpInstruction hjump]; rfl⟩
  | jumpIfFalse target here =>
      rcases jumpInstruction_of_resolve (Or.inr h) with ⟨opcode, distance, hjump⟩
      exact ⟨_, rfl, by rw [jumpText_of_jumpInstruction hjump]; rfl⟩

theorem directiveText_of_error {e : AssembleError} (h : d.resolve directive = .error e) :
    Listing.directiveText d offset directive = .error e := by
  rw [Listing.directiveText, h]
  rfl

theorem labelLines_eq (labels : List Label) :
    Listing.labelLines d labels =
      String.join ((labels.map CodeLine.label).map (CodeLine.text d)) := by
  rw [List.map_map]
  rfl

/-- Writing the code is resolving it and writing down the lines. -/
theorem writeCode_eq (written : String) (offset : Nat) (directives : List Directive) :
    Listing.writeCode d d.labelsAt written offset directives =
      (directives.mapM d.resolve).map fun instructions =>
        written ++
          String.join ((d.linesFrom offset directives instructions).map (CodeLine.text d)) := by
  induction directives generalizing written offset with
  | nil =>
      rw [Listing.writeCode, labelLines_eq]
      rfl
  | cons directive rest ih =>
      rw [Listing.writeCode, List.mapM_cons]
      cases hresolve : d.resolve directive with
      | error e =>
          rw [directiveText_of_error hresolve]
          rfl
      | ok i =>
          rcases directiveText_of_resolve offset hresolve with ⟨text, htext, hline⟩
          simp only [htext, ih]
          cases rest.mapM d.resolve with
          | error e => rfl
          | ok instructions =>
              show Except.ok _ = Except.ok (written ++ String.join
                ((d.linesFrom offset (directive :: rest) (i :: instructions)).map _))
              rw [linesFrom, List.map_append, List.map_cons, String.join_append, String.join_cons,
                ← labelLines_eq, ← hline]
              simp only [String.append_assoc]

/-!
## What the lines show
-/

section Shown

variable {directives : List Directive} {instructions : List Instruction}
  {R : Directive -> Instruction -> Prop}

end Shown

end Draft

namespace Draft

/-- The line is that of the directive at the offset.  A jump is shown with the
label that it goes to and the position of that label, which its distance leads
to. -/
def Depicts (d : Draft) (chunk : Chunk) (offset : Nat) : Directive -> CodeLine -> Prop
  | .instr i, line => line = .plain offset i (chunk.constantNote i)
  | .jump target here, line =>
      ∃ i there, line = .jump offset i target there ∧ d.positionOf target = some there ∧
        d.Leads offset (.jump target here) i ∧
        (i.opcode = .jumpBackward -> i.operand ≤ offset + 2)
  | .jumpIfFalse target here, line =>
      ∃ i there, line = .jump offset i target there ∧ d.positionOf target = some there ∧
        d.Leads offset (.jumpIfFalse target here) i

structure Shows (d : Draft) (chunk : Chunk) (lines : List CodeLine) : Prop where
  /-- One line for each instruction that the bytes are read as, at its offset. -/
  instructions : sweep chunk.code = some (lines.filterMap CodeLine.instruction?)
  directives : List.Forall₂ (fun p line => d.Depicts chunk p.1 p.2 line) d.locations
    (lines.filter (·.instruction?.isSome))
  labels_once : (lines.filterMap CodeLine.label?).Nodup
  labels : ∀ label, label ∈ lines.filterMap CodeLine.label? ↔
    d.Named label ∧ ∃ position, d.positionOf label = some position
  /-- A label stands right before the instruction at its position, or at the end. -/
  places : ∀ label later, CodeLine.label label :: later <:+ lines ->
    d.positionOf label = some (CodeLine.nextOffset chunk.code.length later)

variable {d : Draft} {chunk : Chunk} {chunkId : ChunkRef -> Except AssembleError UInt8}
  {offset : Nat} {directive : Directive} {i : Instruction}

end Draft

end StackScript
