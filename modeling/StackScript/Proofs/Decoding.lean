import StackScript.Proofs.Layout

/-!
# Reading code back

Code is a string of bytes.  It can be read at one offset, as a machine does, or
from end to end.  Both ways give back the instructions that were encoded, as
long as each of them has exactly the argument that its opcode calls for.
-/

namespace StackScript

/-!
## Reading bytes
-/

def Instruction.operand (i : Instruction) : Nat :=
  (i.argument.getD 0).toNat

def Instruction.decode? : List UInt8 -> Option Instruction
  | [] => none
  | b :: rest =>
      match Opcode.ofByte? b with
      | none => none
      | some opcode =>
          if opcode.argumentBytes = 0 then
            some { opcode := opcode }
          else
            rest.head?.map fun arg => { opcode := opcode, argument := some arg }

def fetch (code : List UInt8) (offset : Nat) : Option Instruction :=
  Instruction.decode? (code.drop offset)

theorem fetch_length (code : List UInt8) : fetch code code.length = none := by
  rw [fetch, List.drop_length]
  rfl

/-- The instructions of some code from end to end, each with its offset, when
the first one has the offset `start`. -/
def sweepFrom (start : Nat) : List UInt8 -> Option (List (Nat × Instruction))
  | [] => some []
  | b :: rest =>
      match Opcode.ofByte? b with
      | none => none
      | some opcode =>
          if opcode.argumentBytes = 0 then
            (sweepFrom (start + 1) rest).map ((start, { opcode := opcode }) :: ·)
          else
            match rest with
            | [] => none
            | arg :: rest =>
                (sweepFrom (start + 2) rest).map
                  ((start, { opcode := opcode, argument := some arg }) :: ·)

def sweep (code : List UInt8) : Option (List (Nat × Instruction)) :=
  sweepFrom 0 code

/-!
## Offsets
-/

section Located

variable {α : Type}

def located (size : α -> Nat) (start : Nat) : List α -> List (Nat × α)
  | [] => []
  | x :: rest => (start, x) :: located size (start + size x) rest

variable {size : α -> Nat}

@[simp] theorem located_nil (start : Nat) : located size start [] = [] := rfl

@[simp] theorem located_cons (start : Nat) (x : α) (rest : List α) :
    located size start (x :: rest) = (start, x) :: located size (start + size x) rest := rfl

theorem located_append (start : Nat) (xs ys : List α) :
    located size start (xs ++ ys) =
      located size start xs ++ located size (start + totalSize size xs) ys := by
  induction xs generalizing start with
  | nil => simp
  | cons x rest ih =>
      simp [ih, Nat.add_assoc]

theorem mem_located_iff {start offset : Nat} {x : α} {xs : List α} :
    (offset, x) ∈ located size start xs ↔
      ∃ before after, xs = before ++ x :: after ∧ offset = start + totalSize size before := by
  induction xs generalizing start with
  | nil => simp
  | cons y rest ih =>
      rw [located_cons, List.mem_cons, ih]
      constructor
      · rintro (h | ⟨before, after, rfl, rfl⟩)
        · cases h
          exact ⟨[], rest, rfl, rfl⟩
        · exact ⟨y :: before, after, rfl, by simp [Nat.add_assoc]⟩
      · rintro ⟨before, after, hsplit, rfl⟩
        cases before with
        | nil =>
            cases hsplit
            exact Or.inl rfl
        | cons z before =>
            cases hsplit
            exact Or.inr ⟨before, after, rfl, by simp [Nat.add_assoc]⟩

theorem forall₂_located {β : Type} {size' : β -> Nat} {R : α -> β -> Prop} {xs : List α}
    {ys : List β} (hsize : ∀ x y, R x y -> size x = size' y) (h : List.Forall₂ R xs ys)
    (start : Nat) :
    List.Forall₂ (fun p q => p.1 = q.1 ∧ R p.2 q.2)
      (located size start xs) (located size' start ys) := by
  induction h generalizing start with
  | nil => exact .nil
  | cons hfirst _ ih =>
      rw [located_cons, located_cons, ← hsize _ _ hfirst]
      exact .cons ⟨rfl, hfirst⟩ (ih _)

theorem forall₂_totalSize {β : Type} {size' : β -> Nat} {R : α -> β -> Prop} {xs : List α}
    {ys : List β} (hsize : ∀ x y, R x y -> size x = size' y) (h : List.Forall₂ R xs ys) :
    totalSize size xs = totalSize size' ys := by
  induction h with
  | nil => rfl
  | cons hfirst _ ih =>
      rw [totalSize_cons, totalSize_cons, hsize _ _ hfirst, ih]

end Located

/-!
## Encoded instructions
-/

namespace Instruction

/-- A well-formed instruction has no argument, or the one that its opcode takes. -/
theorem argument_cases {i : Instruction} (h : i.WellFormed) :
    i.argument = none ∧ i.opcode.argumentBytes = 0 ∨
      ∃ arg, i.argument = some arg ∧ i.opcode.argumentBytes = 1 := by
  have hbytes : i.opcode.argumentBytes = 0 ∨ i.opcode.argumentBytes = 1 := by
    cases i.opcode <;> decide
  unfold WellFormed at h
  rcases hbytes with hbytes | hbytes
  · rw [hbytes] at h
    exact Or.inl ⟨Option.isNone_iff_eq_none.mp (by simpa using h), hbytes⟩
  · rw [hbytes] at h
    exact Or.inr ((Option.isSome_iff_exists.mp h).imp fun arg harg => ⟨harg, hbytes⟩)

theorem length_encode {i : Instruction} (h : i.WellFormed) : i.encode.length = i.byteLength := by
  unfold encode byteLength
  rcases argument_cases h with ⟨hargument, hbytes⟩ | ⟨arg, hargument, hbytes⟩
  · simp [hargument, hbytes]
  · simp [hargument, hbytes]

theorem decode?_encode {i : Instruction} (h : i.WellFormed) (rest : List UInt8) :
    decode? (i.encode ++ rest) = some i := by
  rcases i with ⟨opcode, argument⟩
  rcases argument_cases h with ⟨rfl, hbytes⟩ | ⟨arg, rfl, hbytes⟩
  · simp [encode, decode?, Opcode.ofByte?_byte, hbytes]
  · simp [encode, decode?, Opcode.ofByte?_byte, hbytes]

theorem sweepFrom_encode {i : Instruction} (h : i.WellFormed) (start : Nat)
    (rest : List UInt8) :
    sweepFrom start (i.encode ++ rest) =
      (sweepFrom (start + i.byteLength) rest).map ((start, i) :: ·) := by
  rcases i with ⟨opcode, argument⟩
  rcases argument_cases h with ⟨rfl, hbytes⟩ | ⟨arg, rfl, hbytes⟩
  · simp [encode, sweepFrom, byteLength, Opcode.ofByte?_byte, hbytes]
  · simp [encode, sweepFrom, byteLength, Opcode.ofByte?_byte, hbytes]

theorem length_flatMap_encode {instructions : List Instruction}
    (h : ∀ i ∈ instructions, i.WellFormed) :
    (instructions.flatMap encode).length = totalSize byteLength instructions := by
  induction instructions with
  | nil => rfl
  | cons i rest ih =>
      rw [List.flatMap_cons, List.length_append, totalSize_cons,
        length_encode (h i List.mem_cons_self), ih fun j hj => h j (List.mem_cons_of_mem i hj)]

theorem sweepFrom_flatMap_encode {instructions : List Instruction} (start : Nat)
    (h : ∀ i ∈ instructions, i.WellFormed) :
    sweepFrom start (instructions.flatMap encode) =
      some (located byteLength start instructions) := by
  induction instructions generalizing start with
  | nil => rfl
  | cons i rest ih =>
      rw [List.flatMap_cons, sweepFrom_encode (h i List.mem_cons_self),
        ih _ fun j hj => h j (List.mem_cons_of_mem i hj)]
      rfl

theorem fetch_flatMap_encode {instructions : List Instruction} {offset : Nat} {i : Instruction}
    (h : ∀ i ∈ instructions, i.WellFormed)
    (hi : (offset, i) ∈ located byteLength 0 instructions) :
    fetch (instructions.flatMap encode) offset = some i := by
  rcases mem_located_iff.mp hi with ⟨before, after, rfl, rfl⟩
  have hbefore : ∀ j ∈ before, j.WellFormed := fun j hj => h j (List.mem_append_left _ hj)
  have hhere : i.WellFormed := h i (List.mem_append_right _ List.mem_cons_self)
  unfold fetch
  rw [List.flatMap_append, List.flatMap_cons, Nat.zero_add, ← length_flatMap_encode hbefore,
    List.drop_left]
  exact decode?_encode hhere _

end Instruction
end StackScript
