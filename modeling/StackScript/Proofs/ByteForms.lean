import Mathlib.Algebra.Group.Nat.Defs
import StackScript.Bytecode.Bytes
import StackScript.Proofs.Outcomes

/-!
# Forms of bytes

A reader that succeeds has consumed some bytes from the front of its input.
Where these bytes are always the written form of the value, and a written form
is always read, reading and writing are two sides of one relation.  This module
gives that relation for the smallest readers and for the ways of putting readers
together.
-/

namespace StackScript

/-!
## Numbers and text
-/

theorem length_littleEndian (width n : Nat) : (littleEndian width n).length = width := by
  induction width generalizing n with
  | zero => rfl
  | succ width ih => rw [littleEndian, List.length_cons, ih]

theorem ofLittleEndian_lt (bytes : List UInt8) : ofLittleEndian bytes < 256 ^ bytes.length := by
  induction bytes with
  | nil => exact Nat.one_pos
  | cons b rest ih =>
      have hbyte := b.toNat_lt
      rw [ofLittleEndian, List.length_cons, Nat.pow_succ]
      omega

theorem littleEndian_ofLittleEndian (bytes : List UInt8) :
    littleEndian bytes.length (ofLittleEndian bytes) = bytes := by
  induction bytes with
  | nil => rfl
  | cons b rest ih =>
      have hbyte := b.toNat_lt
      have hrest : (b.toNat + 256 * ofLittleEndian rest) / 256 = ofLittleEndian rest := by omega
      have hfirst : UInt8.ofNat (b.toNat + 256 * ofLittleEndian rest) = b := by
        apply UInt8.toNat_inj.mp
        rw [UInt8.toNat_ofNat']
        omega
      rw [List.length_cons, littleEndian, ofLittleEndian, hrest, hfirst, ih]

theorem ofLittleEndian_littleEndian {width n : Nat} (h : n < 256 ^ width) :
    ofLittleEndian (littleEndian width n) = n := by
  induction width generalizing n with
  | zero =>
      rw [Nat.pow_zero] at h
      rw [littleEndian, ofLittleEndian]
      omega
  | succ width ih =>
      rw [Nat.pow_succ] at h
      rw [littleEndian, ofLittleEndian, ih (by omega), UInt8.toNat_ofNat']
      omega

theorem ofUtf8?_eq_some_iff {bytes : List UInt8} {text : String} :
    ofUtf8? bytes = some text ↔ bytes = utf8 text := by
  unfold ofUtf8? String.fromUTF8?
  constructor
  · intro h
    split at h
    · cases h
      rfl
    · cases h
  · rintro rfl
    have hbytes : ByteArray.mk (utf8 text).toArray = text.toByteArray := by
      apply ByteArray.ext
      exact Array.toArray_toList
    rw [dif_pos (hbytes ▸ text.isValidUTF8)]
    exact congrArg some (String.toByteArray_inj.mp hbytes)

/-!
## Cursors
-/

namespace ByteCursor

variable {c c' c'' : ByteCursor} {bytes bytes' : List UInt8}

/-- The second cursor stands behind the given bytes, and the first in front of
them. -/
def Passes (c : ByteCursor) (bytes : List UInt8) (c' : ByteCursor) : Prop :=
  c.rest = bytes ++ c'.rest ∧ c'.position = c.position + bytes.length

theorem passes_nil_iff : c.Passes [] c' ↔ c' = c := by
  rcases c with ⟨rest, position⟩
  rcases c' with ⟨rest', position'⟩
  simp [Passes, eq_comm]

theorem passes_append_iff :
    c.Passes (bytes ++ bytes') c'' ↔ ∃ c', c.Passes bytes c' ∧ c'.Passes bytes' c'' := by
  constructor
  · rintro ⟨hrest, hposition⟩
    rw [List.append_assoc] at hrest
    rw [List.length_append, ← Nat.add_assoc] at hposition
    exact ⟨{ rest := bytes' ++ c''.rest, position := c.position + bytes.length },
      ⟨hrest, rfl⟩, rfl, hposition⟩
  · rintro ⟨c', ⟨hrest, hposition⟩, hrest', hposition'⟩
    constructor
    · rw [hrest, hrest', List.append_assoc]
    · rw [hposition', hposition, List.length_append, Nat.add_assoc]

end ByteCursor

/-!
## Readers
-/

namespace ByteReader

variable {ε α β : Type} {reader : ByteReader ε α} {Form Form' : α -> List UInt8 -> Prop}

/-- The reader gives a value exactly when a form of the value comes next, and
stops behind it. -/
def Reads (reader : ByteReader ε α) (Form : α -> List UInt8 -> Prop) : Prop :=
  ∀ (c c' : ByteCursor) (x : α),
    reader c = .ok (x, c') ↔ ∃ bytes, Form x bytes ∧ c.Passes bytes c'

theorem Reads.congr (h : Reads reader Form) (hform : ∀ x bytes, Form x bytes ↔ Form' x bytes) :
    Reads reader Form' := by
  intro c c' x
  rw [h]
  simp only [hform]

theorem reads_pure (x : α) :
    Reads (pure x : ByteReader ε α) (fun y bytes => y = x ∧ bytes = []) := by
  intro c c' y
  show Except.ok (x, c) = .ok (y, c') ↔ _
  simp only [Except.ok.injEq, Prod.mk.injEq]
  constructor
  · rintro ⟨rfl, rfl⟩
    exact ⟨[], ⟨rfl, rfl⟩, ByteCursor.passes_nil_iff.mpr rfl⟩
  · rintro ⟨_, ⟨rfl, rfl⟩, hpasses⟩
    exact ⟨rfl, (ByteCursor.passes_nil_iff.mp hpasses).symm⟩

theorem reads_throw (e : ε) : Reads (throw e : ByteReader ε α) (fun _ _ => False) := by
  intro c c' x
  show Except.error e = .ok (x, c') ↔ _
  simp

theorem Reads.bind {next : α -> ByteReader ε β} {Next : α -> β -> List UInt8 -> Prop}
    (h : Reads reader Form) (hnext : ∀ x, Reads (next x) (Next x)) :
    Reads (reader >>= next) (fun y bytes =>
      ∃ x first rest, Form x first ∧ Next x y rest ∧ bytes = first ++ rest) := by
  intro c c'' y
  show (reader c >>= fun read => next read.1 read.2) = .ok (y, c'') ↔ _
  rw [bind_eq_ok_iff]
  constructor
  · rintro ⟨⟨x, c'⟩, hfirst, hrest⟩
    rcases (h c c' x).mp hfirst with ⟨first, hform, hpasses⟩
    rcases (hnext x c' c'' y).mp hrest with ⟨rest, hform', hpasses'⟩
    exact ⟨first ++ rest, ⟨x, first, rest, hform, hform', rfl⟩,
      ByteCursor.passes_append_iff.mpr ⟨c', hpasses, hpasses'⟩⟩
  · rintro ⟨_, ⟨x, first, rest, hform, hform', rfl⟩, hpasses⟩
    rcases ByteCursor.passes_append_iff.mp hpasses with ⟨c', hfirst, hrest⟩
    exact ⟨(x, c'), (h c c' x).mpr ⟨first, hform, hfirst⟩,
      (hnext x c' c'' y).mpr ⟨rest, hform', hrest⟩⟩

theorem Reads.map (h : Reads reader Form) (f : α -> β) :
    Reads (reader >>= fun x => pure (f x)) (fun y bytes => ∃ x, Form x bytes ∧ y = f x) := by
  apply (h.bind fun x => reads_pure (f x)).congr
  intro y bytes
  constructor
  · rintro ⟨x, first, _, hform, ⟨rfl, rfl⟩, rfl⟩
    rw [List.append_nil]
    exact ⟨x, hform, rfl⟩
  · rintro ⟨x, hform, rfl⟩
    exact ⟨x, bytes, [], hform, ⟨rfl, rfl⟩, (List.append_nil _).symm⟩

theorem reads_get {next : ByteCursor -> ByteReader ε α} (h : ∀ c, Reads (next c) Form) :
    Reads (get >>= next) Form := by
  intro c c' x
  exact h c c c' x

theorem reads_byte (short : Nat -> ε) : Reads (byte short) (fun x bytes => bytes = [x]) := by
  intro c c' x
  rcases c with ⟨rest, position⟩
  rcases c' with ⟨rest', position'⟩
  cases rest with
  | nil =>
      show Except.error _ = .ok _ ↔ _
      simp [ByteCursor.Passes]
  | cons b rest =>
      show Except.ok (b, _) = .ok (x, _) ↔ _
      simp [ByteCursor.Passes, eq_comm, and_assoc]

theorem reads_take (short : Nat -> ε) (count : Nat) :
    Reads (take short count) (fun x bytes => bytes = x ∧ x.length = count) := by
  intro c c' x
  rcases c with ⟨rest, position⟩
  rcases c' with ⟨rest', position'⟩
  constructor
  · intro h
    change (if (rest.take count).length = count then _ else _) = _ at h
    by_cases hlength : (rest.take count).length = count
    · rw [if_pos hlength] at h
      cases h
      exact ⟨_, ⟨rfl, hlength⟩, (List.take_append_drop count rest).symm,
        congrArg (position + ·) hlength.symm⟩
    · rw [if_neg hlength] at h
      cases h
  · rintro ⟨_, ⟨rfl, rfl⟩, hrest, hposition⟩
    dsimp only at hrest hposition
    rw [hrest, hposition]
    simp [take]

theorem Reads.timesFrom (h : Reads reader Form) (count : Nat) (read : List α) :
    Reads (timesFrom reader count read) (fun xs bytes =>
      ∃ more parts, xs = read.reverse ++ more ∧ more.length = count ∧
        List.Forall₂ Form more parts ∧ bytes = parts.flatten) := by
  induction count generalizing read with
  | zero =>
      apply (reads_pure read.reverse).congr
      intro xs bytes
      constructor
      · rintro ⟨rfl, rfl⟩
        exact ⟨[], [], (List.append_nil _).symm, rfl, .nil, rfl⟩
      · rintro ⟨more, parts, rfl, hlength, hforms, rfl⟩
        cases List.length_eq_zero_iff.mp hlength
        cases hforms
        exact ⟨List.append_nil _, rfl⟩
  | succ count ih =>
      apply (h.bind fun x => ih (x :: read)).congr
      intro xs bytes
      constructor
      · rintro ⟨x, first, _, hform, ⟨more, parts, rfl, hlength, hforms, rfl⟩, rfl⟩
        exact ⟨x :: more, first :: parts, by simp, congrArg (· + 1) hlength, .cons hform hforms,
          rfl⟩
      · rintro ⟨more, parts, rfl, hlength, hforms, rfl⟩
        cases hforms with
        | nil => cases hlength
        | cons hform hforms =>
            exact ⟨_, _, _, hform, ⟨_, _, by simp, Nat.succ.inj hlength, hforms, rfl⟩, rfl⟩

theorem Reads.times (h : Reads reader Form) (count : Nat) :
    Reads (times reader count) (fun xs bytes =>
      xs.length = count ∧ ∃ parts, List.Forall₂ Form xs parts ∧ bytes = parts.flatten) := by
  apply (h.timesFrom count []).congr
  intro xs bytes
  constructor
  · rintro ⟨_, parts, rfl, hlength, hforms, hbytes⟩
    exact ⟨hlength, parts, hforms, hbytes⟩
  · rintro ⟨hlength, parts, hforms, hbytes⟩
    exact ⟨xs, parts, rfl, hlength, hforms, hbytes⟩

end ByteReader
end StackScript
