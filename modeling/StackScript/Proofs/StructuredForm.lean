import StackScript.Bytecode.Structured
import StackScript.Proofs.ByteForms

/-!
# The structured form read back

A number can be written with more groups than it needs, so a program has many
structured forms, of which writing gives the shortest.  Each layer of the form is
read exactly where one of its forms stands.  So what was written is read back
with its names, whatever bytes follow.
-/

namespace StackScript

/-!
## Lengths

The only numbers that grow with a program are lengths, and they are written and
read as numbers of 64 bits.  No list in memory is longer than that.
-/

def lengthBound : Nat := 2 ^ 64

structure Chunk.Addressable (chunk : Chunk) : Prop where
  name : ∀ text, chunk.name = some text -> (utf8 text).length < lengthBound
  constants : chunk.constants.length < lengthBound
  strings : ∀ text, .string text ∈ chunk.constants -> (utf8 text).length < lengthBound
  code : chunk.code.length < lengthBound

structure Bytecode.Addressable (program : Bytecode) : Prop where
  count : program.chunks.length < lengthBound
  chunks : ∀ chunk ∈ program.chunks, chunk.Addressable

namespace Structured

open ByteReader

/-!
## Numbers
-/

/-- The bytes are a number in groups of seven bits: at most `more + 1` groups, of
which the last possible one is at most `last`. -/
inductive Groups (last : Nat) : Nat -> Nat -> List UInt8 -> Prop where
  | final {b : UInt8} (h : b.toNat ≤ last) : Groups last 0 b.toNat [b]
  | lone {more : Nat} {b : UInt8} (h : b.toNat < 128) : Groups last (more + 1) b.toNat [b]
  | cons {more high : Nat} {b : UInt8} {rest : List UInt8} (h : 128 ≤ b.toNat)
      (hrest : Groups last more high rest) :
      Groups last (more + 1) (b.toNat - 128 + 128 * high) (b :: rest)

def WordForm : Nat -> List UInt8 -> Prop := Groups 15 4

def LengthForm : Nat -> List UInt8 -> Prop := Groups 1 9

theorem reads_byte : Reads byte (fun x bytes => bytes = [x]) :=
  ByteReader.reads_byte _

theorem reads_take (count : Nat) :
    Reads (take count) (fun x bytes => bytes = x ∧ x.length = count) :=
  ByteReader.reads_take _ count

theorem reads_varint (last more : Nat) : Reads (readVarint last more) (Groups last more) := by
  induction more with
  | zero =>
      have hlast : ∀ b : UInt8, Reads
          (if b.toNat ≤ last then pure b.toNat else throw .badVarint : Reader Nat)
          (fun n bytes => b.toNat ≤ last ∧ n = b.toNat ∧ bytes = []) := by
        intro b
        by_cases hb : b.toNat ≤ last
        · rw [if_pos hb]
          exact (reads_pure _).congr fun n bytes => by simp [hb]
        · rw [if_neg hb]
          exact (reads_throw _).congr fun n bytes => by simp [hb]
      apply (reads_byte.bind hlast).congr
      intro n bytes
      constructor
      · rintro ⟨b, _, _, rfl, ⟨hb, rfl, rfl⟩, rfl⟩
        exact .final hb
      · rintro ⟨hb⟩
        exact ⟨_, _, _, rfl, ⟨hb, rfl, rfl⟩, rfl⟩
  | succ more ih =>
      have hnext : ∀ b : UInt8, Reads
          (if b.toNat < 128 then pure b.toNat
            else readVarint last more >>= fun high => pure (b.toNat - 128 + 128 * high) :
            Reader Nat)
          (fun n bytes => b.toNat < 128 ∧ n = b.toNat ∧ bytes = [] ∨
            128 ≤ b.toNat ∧ ∃ high, Groups last more high bytes ∧
              n = b.toNat - 128 + 128 * high) := by
        intro b
        by_cases hb : b.toNat < 128
        · rw [if_pos hb]
          exact (reads_pure _).congr fun n bytes => by simp [hb, Nat.not_le.mpr hb]
        · rw [if_neg hb]
          exact (ih.map _).congr fun n bytes => by simp [hb, Nat.not_lt.mp hb]
      apply (reads_byte.bind hnext).congr
      intro n bytes
      constructor
      · rintro ⟨b, _, _, rfl, ⟨hb, rfl, rfl⟩ | ⟨hb, high, hhigh, rfl⟩, rfl⟩
        · exact .lone hb
        · exact .cons hb hhigh
      · intro h
        cases h with
        | lone hb => exact ⟨_, _, _, rfl, Or.inl ⟨hb, rfl, rfl⟩, rfl⟩
        | cons hb hrest => exact ⟨_, _, _, rfl, Or.inr ⟨hb, _, hrest, rfl⟩, rfl⟩

theorem reads_word : Reads readWord WordForm :=
  reads_varint 15 4

theorem reads_length : Reads readLength LengthForm :=
  reads_varint 1 9

theorem Groups.lt {last more n : Nat} {bytes : List UInt8} (h : Groups last more n bytes) :
    n < (last + 1) * 128 ^ more := by
  induction h with
  | final hb => omega
  | @lone more b hb =>
      have hpos : 0 < (last + 1) * 128 ^ more :=
        Nat.mul_pos (Nat.succ_pos last) (Nat.pow_pos (by decide))
      rw [Nat.pow_succ, ← Nat.mul_assoc]
      exact Nat.lt_of_lt_of_le hb (Nat.le_mul_of_pos_left 128 hpos)
  | @cons more high b rest _ _ ih =>
      have hbyte := b.toNat_lt
      rw [Nat.pow_succ, ← Nat.mul_assoc]
      omega

/-- What is written has as few groups as the number needs, so it fits where the
number does. -/
theorem groups_varint {last more n : Nat} (hlast : last < 128)
    (h : n < (last + 1) * 128 ^ more) : Groups last more n (varint n) := by
  induction more generalizing n with
  | zero =>
      have hn : n ≤ last := by omega
      have hbyte : (UInt8.ofNat n).toNat = n :=
        UInt8.toNat_ofNat_of_lt' (show n < 256 by omega)
      have hfinal : Groups last 0 (UInt8.ofNat n).toNat [UInt8.ofNat n] := .final (by omega)
      rw [varint, if_pos (by omega)]
      rwa [hbyte] at hfinal
  | succ more ih =>
      rw [varint]
      by_cases hn : n < 128
      · have hbyte : (UInt8.ofNat n).toNat = n :=
          UInt8.toNat_ofNat_of_lt' (show n < 256 by omega)
        have hlone : Groups last (more + 1) (UInt8.ofNat n).toNat [UInt8.ofNat n] :=
          .lone (by omega)
        rw [if_pos hn]
        rwa [hbyte] at hlone
      · rw [Nat.pow_succ, ← Nat.mul_assoc] at h
        have hbyte : (UInt8.ofNat (n % 128 + 128)).toNat = n % 128 + 128 :=
          UInt8.toNat_ofNat_of_lt' (show n % 128 + 128 < 256 by omega)
        have hcons := Groups.cons (b := UInt8.ofNat (n % 128 + 128)) (by omega)
          (ih (n := n / 128) (by omega))
        have hvalue : n % 128 + 128 - 128 + 128 * (n / 128) = n := by omega
        rw [if_neg hn]
        rwa [hbyte, hvalue] at hcons

theorem wordForm_varint {n : Nat} (h : n < 2 ^ 32) : WordForm n (varint n) :=
  groups_varint (by decide) h

theorem lengthForm_varint {n : Nat} (h : n < lengthBound) : LengthForm n (varint n) :=
  groups_varint (by decide) h

theorem LengthForm.lt {n : Nat} {bytes : List UInt8} (h : LengthForm n bytes) :
    n < lengthBound :=
  Groups.lt h

theorem zigzag_lt (n : Int32) : zigzag n < 2 ^ 32 := by
  have hlow := n.le_toInt
  have hhigh := n.toInt_lt
  unfold zigzag
  split <;> omega

theorem ofZigzag_zigzag (n : Int32) : ofZigzag (zigzag n) = n := by
  apply Int32.toInt_inj.mp
  have hlow := n.le_toInt
  have hhigh := n.toInt_lt
  unfold ofZigzag zigzag
  by_cases hn : n.toInt < 0
  · rw [if_pos hn, if_neg (by omega), Int32.toInt_ofInt_of_le (by omega) (by omega)]
    omega
  · rw [if_neg hn, if_pos (by omega), Int32.toInt_ofInt_of_le (by omega) (by omega)]
    omega

/-!
## Forms
-/

inductive TextForm : String -> List UInt8 -> Prop where
  | counted {s : String} {size : List UInt8} (hsize : LengthForm (utf8 s).length size) :
      TextForm s (size ++ utf8 s)

inductive ConstantForm : Constant -> List UInt8 -> Prop where
  | int {z : Nat} {kind value : List UInt8} (hkind : WordForm 0 kind)
      (hvalue : WordForm z value) : ConstantForm (.int (ofZigzag z)) (kind ++ value)
  | string {s : String} {kind text : List UInt8} (hkind : WordForm 1 kind)
      (htext : TextForm s text) : ConstantForm (.string s) (kind ++ text)
  | function {id : UInt8} {kind : List UInt8} (hkind : WordForm 2 kind) :
      ConstantForm (.function id) (kind ++ [id])

inductive OptionForm : Option String -> List UInt8 -> Prop where
  | none : OptionForm none [0]
  | some {s : String} {text : List UInt8} (htext : TextForm s text) :
      OptionForm (some s) (1 :: text)

inductive ChunkForm : Chunk -> List UInt8 -> Prop where
  | parts {chunk : Chunk} {name count size : List UInt8} {constants : List (List UInt8)}
      (hname : OptionForm chunk.name name) (hcount : LengthForm chunk.constants.length count)
      (hconstants : List.Forall₂ ConstantForm chunk.constants constants)
      (hsize : LengthForm chunk.code.length size) :
      ChunkForm chunk (name ++ (count ++ (constants.flatten ++ (size ++ chunk.code))))

inductive ProgramForm : Bytecode -> List UInt8 -> Prop where
  | counted {program : Bytecode} {count : List UInt8} {chunks : List (List UInt8)}
      (hcount : LengthForm program.chunks.length count)
      (hchunks : List.Forall₂ ChunkForm program.chunks chunks) :
      ProgramForm program (count ++ chunks.flatten)

/-!
## Reading
-/

theorem reads_text : Reads readText TextForm := by
  refine (reads_length.bind fun length => (reads_take length).bind fun bytes =>
    (?_ : Reads _ fun s rest => bytes = utf8 s ∧ rest = [])).congr ?_
  · cases hutf8 : ofUtf8? bytes with
    | some s =>
        apply (reads_pure s).congr
        intro s' rest
        rw [← ofUtf8?_eq_some_iff, hutf8, Option.some.injEq, eq_comm]
    | none =>
        apply (reads_throw _).congr
        intro s' rest
        rw [← ofUtf8?_eq_some_iff, hutf8]
        simp
  · intro s bytes
    constructor
    · rintro ⟨_, size, _, hsize, ⟨_, _, _, ⟨rfl, rfl⟩, ⟨rfl, rfl⟩, rfl⟩, rfl⟩
      rw [List.append_nil]
      exact .counted hsize
    · rintro ⟨hsize⟩
      exact ⟨_, _, _, hsize, ⟨_, _, _, ⟨rfl, rfl⟩, ⟨rfl, rfl⟩, rfl⟩, by rw [List.append_nil]⟩

inductive ValueForm : Nat -> Constant -> List UInt8 -> Prop where
  | int {z : Nat} {value : List UInt8} (hvalue : WordForm z value) :
      ValueForm 0 (.int (ofZigzag z)) value
  | string {s : String} {text : List UInt8} (htext : TextForm s text) :
      ValueForm 1 (.string s) text
  | function {id : UInt8} : ValueForm 2 (.function id) [id]

theorem reads_value (kind : Nat) : Reads
    (match kind with
      | 0 => readWord >>= fun z => pure (.int (ofZigzag z))
      | 1 => readText >>= fun s => pure (.string s)
      | 2 => byte >>= fun id => pure (.function id)
      | _ => throw .badKind : Reader Constant)
    (ValueForm kind) := by
  match kind with
  | 0 =>
      apply (reads_word.map _).congr
      intro k bytes
      constructor
      · rintro ⟨z, hz, rfl⟩
        exact .int hz
      · intro h
        cases h with
        | int hz => exact ⟨_, hz, rfl⟩
  | 1 =>
      apply (reads_text.map _).congr
      intro k bytes
      constructor
      · rintro ⟨s, hs, rfl⟩
        exact .string hs
      · intro h
        cases h with
        | string hs => exact ⟨_, hs, rfl⟩
  | 2 =>
      apply (reads_byte.map _).congr
      intro k bytes
      constructor
      · rintro ⟨id, rfl, rfl⟩
        exact .function
      · rintro ⟨⟩
        exact ⟨_, rfl, rfl⟩
  | kind + 3 =>
      apply (reads_throw _).congr
      intro k bytes
      constructor
      · exact False.elim
      · rintro ⟨⟩

theorem reads_constant : Reads readConstant ConstantForm := by
  apply (reads_word.bind reads_value).congr
  intro k bytes
  constructor
  · rintro ⟨kind, _, _, hkind, hvalue, rfl⟩
    cases hvalue with
    | int hvalue => exact .int hkind hvalue
    | string htext => exact .string hkind htext
    | function => exact .function hkind
  · intro h
    cases h with
    | int hkind hvalue => exact ⟨0, _, _, hkind, .int hvalue, rfl⟩
    | string hkind htext => exact ⟨1, _, _, hkind, .string htext, rfl⟩
    | function hkind => exact ⟨2, _, _, hkind, .function, rfl⟩

theorem reads_name : Reads readName OptionForm := by
  have hmarked : ∀ b : UInt8, Reads
      (if b = 0 then pure none
        else if b = 1 then readText >>= fun s => pure (some s)
        else throw .badOption : Reader (Option String))
      (fun name bytes => OptionForm name (b :: bytes)) := by
    intro b
    by_cases hnone : b = 0
    · rw [if_pos hnone, hnone]
      apply (reads_pure _).congr
      intro name bytes
      constructor
      · rintro ⟨rfl, rfl⟩
        exact .none
      · rintro ⟨⟩
        exact ⟨rfl, rfl⟩
    by_cases hsome : b = 1
    · rw [if_neg hnone, if_pos hsome, hsome]
      apply (reads_text.map _).congr
      intro name bytes
      constructor
      · rintro ⟨s, hs, rfl⟩
        exact .some hs
      · intro h
        cases h with
        | some hs => exact ⟨_, hs, rfl⟩
    · rw [if_neg hnone, if_neg hsome]
      apply (reads_throw _).congr
      intro name bytes
      constructor
      · exact False.elim
      · intro h
        cases h with
        | none => exact hnone rfl
        | some _ => exact hsome rfl
  apply (reads_byte.bind hmarked).congr
  intro name bytes
  constructor
  · rintro ⟨b, _, rest, rfl, hform, rfl⟩
    exact hform
  · intro h
    cases h with
    | none => exact ⟨0, [0], [], rfl, .none, rfl⟩
    | some htext => exact ⟨1, [1], _, rfl, .some htext, rfl⟩

theorem reads_chunk : Reads readChunk ChunkForm := by
  apply (reads_name.bind fun name => reads_length.bind fun count =>
    (reads_constant.times count).bind fun constants => reads_length.bind fun size =>
      (reads_take size).map fun code => ({ name, constants, code } : Chunk)).congr
  intro chunk bytes
  constructor
  · rintro ⟨name, _, _, hname, ⟨_, _, _, hcount, ⟨constants, _, _, ⟨rfl, parts, hparts, rfl⟩,
      ⟨_, _, _, hsize, ⟨code, ⟨rfl, rfl⟩, rfl⟩, rfl⟩, rfl⟩, rfl⟩, rfl⟩
    exact .parts hname hcount hparts hsize
  · rintro ⟨hname, hcount, hconstants, hsize⟩
    exact ⟨_, _, _, hname, ⟨_, _, _, hcount, ⟨_, _, _, ⟨rfl, _, hconstants, rfl⟩,
      ⟨_, _, _, hsize, ⟨_, ⟨rfl, rfl⟩, rfl⟩, rfl⟩, rfl⟩, rfl⟩, rfl⟩

/-- A program is decoded exactly where one of its forms stands, and what follows
is left alone. -/
theorem decode_eq_ok_iff {bytes : List UInt8} {program : Bytecode} :
    decode bytes = .ok program ↔
      ∃ form rest, ProgramForm program form ∧ bytes = form ++ rest := by
  have hchunks := reads_length.bind fun count => reads_chunk.times count
  rw [decode, bind_eq_ok_iff]
  constructor
  · rintro ⟨⟨chunks, c⟩, hread, h⟩
    cases h
    rcases (hchunks _ _ _).mp hread with
      ⟨_, ⟨_, count, _, hcount, ⟨rfl, parts, hparts, rfl⟩, rfl⟩, hpasses⟩
    exact ⟨_, c.rest, .counted hcount hparts, hpasses.1⟩
  · rintro ⟨form, rest, hform, rfl⟩
    refine ⟨(program.chunks, { rest, position := 0 + form.length }), ?_, rfl⟩
    refine (hchunks _ _ _).mpr ⟨form, ?_, rfl, rfl⟩
    cases hform with
    | counted hcount hparts => exact ⟨_, _, _, hcount, ⟨rfl, _, hparts, rfl⟩, rfl⟩

/-!
## Writing
-/

theorem TextForm.lt {s : String} {bytes : List UInt8} (h : TextForm s bytes) :
    (utf8 s).length < lengthBound := by
  cases h with
  | counted hsize => exact hsize.lt

theorem textForm_text {s : String} (h : (utf8 s).length < lengthBound) : TextForm s (text s) :=
  .counted (lengthForm_varint h)

theorem constantForm_constant {k : Constant}
    (h : ∀ s, k = .string s -> (utf8 s).length < lengthBound) : ConstantForm k (constant k) := by
  cases k with
  | int n =>
      have hform := ConstantForm.int (wordForm_varint (n := 0) (by decide))
        (wordForm_varint (zigzag_lt n))
      rwa [ofZigzag_zigzag] at hform
  | string s => exact .string (wordForm_varint (by decide)) (textForm_text (h s rfl))
  | function id => exact .function (wordForm_varint (by decide))

theorem optionForm_name {name? : Option String}
    (h : ∀ s, name? = some s -> (utf8 s).length < lengthBound) : OptionForm name? (name name?) := by
  cases name? with
  | none => exact .none
  | some s => exact .some (textForm_text (h s rfl))

theorem forms_map {α : Type} {Form : α -> List UInt8 -> Prop} {write : α -> List UInt8}
    {xs : List α} (h : ∀ x ∈ xs, Form x (write x)) : List.Forall₂ Form xs (xs.map write) :=
  List.forall₂_map_right_iff.mpr (List.forall₂_same.mpr h)

theorem chunkForm_chunk {c : Chunk} (h : c.Addressable) : ChunkForm c (chunk c) := by
  have hconstants : List.Forall₂ ConstantForm c.constants (c.constants.map constant) := by
    apply forms_map
    rintro k hk
    apply constantForm_constant
    rintro s rfl
    exact h.strings s hk
  have hform := ChunkForm.parts (optionForm_name h.name) (lengthForm_varint h.constants)
    hconstants (lengthForm_varint h.code)
  rw [← List.flatMap_def] at hform
  simpa only [chunk, List.append_assoc] using hform

theorem ChunkForm.addressable {c : Chunk} {bytes : List UInt8} (h : ChunkForm c bytes) :
    c.Addressable := by
  cases h with
  | parts hname hcount hconstants hsize =>
      refine ⟨?_, hcount.lt, ?_, hsize.lt⟩
      · intro s hs
        rw [hs] at hname
        cases hname with
        | some htext => exact htext.lt
      · intro s hs
        rcases forall₂_mem_left hconstants hs with ⟨_, _, hform⟩
        cases hform with
        | string _ htext => exact htext.lt

theorem programForm_encode {program : Bytecode} (h : program.Addressable) :
    ProgramForm program (encode program) := by
  have hform := ProgramForm.counted (lengthForm_varint h.count)
    (forms_map fun c hc => chunkForm_chunk (h.chunks c hc))
  rwa [← List.flatMap_def] at hform

theorem ProgramForm.addressable {program : Bytecode} {bytes : List UInt8}
    (h : ProgramForm program bytes) : program.Addressable := by
  cases h with
  | counted hcount hchunks =>
      refine ⟨hcount.lt, ?_⟩
      intro c hc
      rcases forall₂_mem_left hchunks hc with ⟨_, _, hform⟩
      exact hform.addressable

/-- A program is read back from its structured form, names and all, whatever
bytes follow.  Lengths beyond 64 bits, which no list in memory has, are the only
ones that are not read back. -/
theorem decode_encode_append (program : Bytecode) (rest : List UInt8) :
    decode (encode program ++ rest) = .ok program ↔ program.Addressable := by
  rw [decode_eq_ok_iff]
  constructor
  · rintro ⟨_, _, hform, _⟩
    exact hform.addressable
  · intro haddressable
    exact ⟨encode program, rest, programForm_encode haddressable, rfl⟩

def mixed : Bytecode where
  chunks :=
    [{ name := none, constants := [.int (-2147483648), .int 2147483647], code := [] },
      { name := some "grüß", constants := [.string "", .function 255], code := [0x80, 0x00] }]

theorem decode_encode_append_mixed :
    mixed.Addressable ∧ decode (encode mixed ++ [0x80, 0x80]) = .ok mixed := by
  have haddressable : mixed.Addressable := by
    refine ⟨by decide, List.forall_mem_cons.mpr ⟨?_, List.forall_mem_cons.mpr ⟨?_, ?_⟩⟩⟩
    · exact ⟨by simp, by decide, by simp, by decide⟩
    · refine ⟨?_, by decide, ?_, by decide⟩
      · intro text htext
        cases htext
        decide
      · intro text htext
        simp only [List.mem_cons, Constant.string.injEq, reduceCtorEq, List.not_mem_nil,
          or_false] at htext
        rw [htext]
        decide
    · exact List.forall_mem_nil _
  exact ⟨haddressable, (decode_encode_append mixed _).mpr haddressable⟩

end Structured
end StackScript
