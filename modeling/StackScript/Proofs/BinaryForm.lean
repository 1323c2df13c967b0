import StackScript.Bytecode.Binary
import StackScript.Proofs.ByteForms

/-!
# The binary form both ways

Each layer of the binary form is read exactly where it was written: a constant,
a chunk, and a program up to the end of the bytes.  So decoding gives back what
was encoded, but for the names, and nothing but the result of an encoding can be
decoded.
-/

namespace StackScript

open ByteReader

/-!
## Writing
-/

theorem Constant.encode_eq_ok_iff_of_string {text : String} {bytes : List UInt8} :
    (Constant.string text).encode = .ok bytes ↔
      (utf8 text).length ≤ maxStringLength ∧
        bytes = stringTag :: (littleEndian 2 (utf8 text).length ++ utf8 text) := by
  rw [encode]
  by_cases hlength : (utf8 text).length ≤ maxStringLength
  · simp [hlength, eq_comm]
  · simp [hlength]

theorem Constant.exists_encode_iff {k : Constant} :
    (∃ bytes, k.encode = .ok bytes) ↔
      ∀ text, k = .string text -> (utf8 text).length ≤ maxStringLength := by
  cases k with
  | int n => simp [encode]
  | string text => simp [encode_eq_ok_iff_of_string]
  | function id => simp [encode]

structure Chunk.FitsBinary (chunk : Chunk) : Prop where
  constants : chunk.constants.length ≤ 255
  code : chunk.code.length ≤ 65535
  strings : ∀ text, .string text ∈ chunk.constants -> (utf8 text).length ≤ 65535

theorem Chunk.encode_eq_ok_iff {chunk : Chunk} {bytes : List UInt8} :
    chunk.encode = .ok bytes ↔
      chunk.constants.length ≤ 255 ∧ chunk.code.length ≤ maxCodeLength ∧
        ∃ parts, List.Forall₂ (fun k part => k.encode = .ok part) chunk.constants parts ∧
          bytes = UInt8.ofNat chunk.constants.length ::
            (parts.flatten ++ littleEndian 2 chunk.code.length ++ chunk.code) := by
  rw [encode]
  by_cases hcount : 255 < chunk.constants.length
  · simp [hcount, Nat.not_le.mpr hcount]
  by_cases hlength : maxCodeLength < chunk.code.length
  · simp [hcount, hlength, Nat.not_le.mpr hlength]
  · rw [if_neg hcount, if_neg hlength, bind_eq_ok_iff]
    simp only [mapM_eq_ok_iff, pure_eq_ok_iff, Nat.not_lt.mp hcount, Nat.not_lt.mp hlength,
      true_and, @eq_comm _ bytes]

theorem Bytecode.encode_eq_ok_iff {program : Bytecode} {bytes : List UInt8} :
    program.encode = .ok bytes ↔
      ∃ parts, List.Forall₂ (fun chunk part => chunk.encode = .ok part) program.chunks parts ∧
        bytes = parts.flatten := by
  rw [encode, bind_eq_ok_iff]
  simp only [mapM_eq_ok_iff, pure_eq_ok_iff, @eq_comm _ bytes]

theorem Chunk.exists_encode_iff {chunk : Chunk} :
    (∃ bytes, chunk.encode = .ok bytes) ↔ chunk.FitsBinary := by
  simp only [encode_eq_ok_iff]
  constructor
  · rintro ⟨_, hcount, hlength, parts, hparts, _⟩
    refine ⟨hcount, hlength, ?_⟩
    intro text htext
    rcases forall₂_mem_left hparts htext with ⟨part, _, hpart⟩
    exact Constant.exists_encode_iff.mp ⟨part, hpart⟩ text rfl
  · rintro ⟨hcount, hlength, hstrings⟩
    have hparts : ∃ parts,
        List.Forall₂ (fun k part => k.encode = .ok part) chunk.constants parts := by
      apply exists_forall₂_iff.mpr
      rintro k hk
      apply Constant.exists_encode_iff.mpr
      rintro text rfl
      exact hstrings text hk
    rcases hparts with ⟨parts, hparts⟩
    exact ⟨_, hcount, hlength, parts, hparts, rfl⟩

theorem Bytecode.exists_encode_iff {program : Bytecode} :
    (∃ bytes, program.encode = .ok bytes) ↔ ∀ chunk ∈ program.chunks, chunk.FitsBinary := by
  simp only [encode_eq_ok_iff, ← Chunk.exists_encode_iff, ← exists_forall₂_iff]
  constructor
  · rintro ⟨_, parts, hparts, _⟩
    exact ⟨parts, hparts⟩
  · rintro ⟨parts, hparts⟩
    exact ⟨_, parts, hparts, rfl⟩

/-!
## Names
-/

def Chunk.unnamed (chunk : Chunk) : Chunk :=
  { chunk with name := none }

def Bytecode.unnamed (program : Bytecode) : Bytecode where
  chunks := program.chunks.map Chunk.unnamed

theorem Chunk.encode_unnamed_eq_ok_iff {chunk : Chunk} {bytes : List UInt8} :
    chunk.unnamed.encode = .ok bytes ↔ chunk.encode = .ok bytes := by
  rw [encode_eq_ok_iff, encode_eq_ok_iff]
  rfl

theorem Bytecode.encode_unnamed_eq_ok_iff {program : Bytecode} {bytes : List UInt8} :
    program.unnamed.encode = .ok bytes ↔ program.encode = .ok bytes := by
  simp only [encode_eq_ok_iff, unnamed, List.forall₂_map_left_iff, Chunk.encode_unnamed_eq_ok_iff]

/-!
## Reading
-/

namespace Binary

theorem reads_take (count : Nat) :
    Reads (take count) (fun x bytes => bytes = x ∧ x.length = count) :=
  ByteReader.reads_take _ count

theorem reads_byte : Reads byte (fun x bytes => bytes = [x]) :=
  ByteReader.reads_byte _

theorem reads_word : Reads word (fun n bytes => bytes = littleEndian 2 n ∧ n ≤ 65535) := by
  apply ((reads_take 2).map ofLittleEndian).congr
  intro n bytes
  constructor
  · rintro ⟨_, ⟨rfl, hlength⟩, rfl⟩
    have hform := littleEndian_ofLittleEndian bytes
    have hbound := ofLittleEndian_lt bytes
    rw [hlength] at hform hbound
    exact ⟨hform.symm, Nat.le_of_lt_succ hbound⟩
  · rintro ⟨rfl, hbound⟩
    exact ⟨_, ⟨rfl, length_littleEndian 2 n⟩,
      (ofLittleEndian_littleEndian (Nat.lt_succ_of_le hbound)).symm⟩

theorem reads_int :
    Reads (take 4 >>= fun bytes => pure (.int (UInt32.ofNat (ofLittleEndian bytes)).toInt32))
      (fun (k : Constant) bytes => k.encode = .ok (intTag :: bytes)) := by
  apply ((reads_take 4).map _).congr
  intro k bytes
  constructor
  · rintro ⟨_, ⟨rfl, hlength⟩, rfl⟩
    have hform := littleEndian_ofLittleEndian bytes
    have hbound := ofLittleEndian_lt bytes
    rw [hlength] at hform hbound
    rw [Constant.encode, UInt32.toUInt32_toInt32, UInt32.toNat_ofNat_of_lt' hbound, hform]
  · intro h
    cases k with
    | int n =>
        cases h
        refine ⟨_, ⟨rfl, length_littleEndian 4 _⟩, ?_⟩
        rw [ofLittleEndian_littleEndian (UInt32.toNat_lt _), UInt32.ofNat_toNat,
          Int32.toInt32_toUInt32]
    | string text => simp [Constant.encode_eq_ok_iff_of_string, intTag, stringTag] at h
    | function id => simp [Constant.encode, intTag, functionTag] at h

theorem reads_string :
    Reads (word >>= fun length => get >>= fun start => take length >>= fun bytes =>
        match ofUtf8? bytes with
        | some text => pure (.string text)
        | none => throw (.invalidUtf8 start.position))
      (fun (k : Constant) bytes => k.encode = .ok (stringTag :: bytes)) := by
  have htext : ∀ (start : ByteCursor) (bytes : List UInt8),
      Reads (match ofUtf8? bytes with
        | some text => pure (.string text)
        | none => throw (.invalidUtf8 start.position) : Reader Constant)
        (fun k rest => rest = [] ∧ ∃ text, bytes = utf8 text ∧ k = .string text) := by
    intro start bytes
    cases hutf8 : ofUtf8? bytes with
    | some text =>
        rw [ofUtf8?_eq_some_iff] at hutf8
        apply (reads_pure _).congr
        intro k rest
        constructor
        · rintro ⟨rfl, rfl⟩
          exact ⟨rfl, text, hutf8, rfl⟩
        · rintro ⟨rfl, text', htext', rfl⟩
          have hsame := ofUtf8?_eq_some_iff.mpr htext'
          rw [ofUtf8?_eq_some_iff.mpr hutf8] at hsame
          cases hsame
          exact ⟨rfl, rfl⟩
    | none =>
        apply (reads_throw _).congr
        intro k rest
        constructor
        · exact False.elim
        · rintro ⟨_, text, htext, _⟩
          rw [ofUtf8?_eq_some_iff.mpr htext] at hutf8
          cases hutf8
  apply (reads_word.bind fun length => reads_get fun start =>
    (reads_take length).bind (htext start)).congr
  intro k bytes
  constructor
  · rintro ⟨_, _, _, ⟨rfl, hbound⟩, ⟨_, _, _, ⟨rfl, rfl⟩, ⟨rfl, text, rfl, rfl⟩, rfl⟩, rfl⟩
    rw [Constant.encode_eq_ok_iff_of_string, List.append_nil]
    exact ⟨hbound, rfl⟩
  · intro h
    cases k with
    | int n => simp [Constant.encode, intTag, stringTag] at h
    | string text =>
        rcases Constant.encode_eq_ok_iff_of_string.mp h with ⟨hbound, hbytes⟩
        exact ⟨_, _, _, ⟨rfl, hbound⟩,
          ⟨_, _, _, ⟨rfl, rfl⟩, ⟨rfl, text, rfl, rfl⟩, rfl⟩, by simpa using hbytes⟩
    | function id => simp [Constant.encode, functionTag, stringTag] at h

theorem reads_function :
    Reads (byte >>= fun id => pure (.function id))
      (fun (k : Constant) bytes => k.encode = .ok (functionTag :: bytes)) := by
  apply (reads_byte.map _).congr
  intro k bytes
  constructor
  · rintro ⟨id, rfl, rfl⟩
    rfl
  · intro h
    cases k with
    | int n => simp [Constant.encode, intTag, functionTag] at h
    | string text => simp [Constant.encode_eq_ok_iff_of_string, functionTag, stringTag] at h
    | function id =>
        cases h
        exact ⟨id, rfl, rfl⟩

theorem tag_of_encode {k : Constant} {tag : UInt8} {bytes : List UInt8}
    (h : k.encode = .ok (tag :: bytes)) : tag = intTag ∨ tag = stringTag ∨ tag = functionTag := by
  cases k with
  | int n =>
      cases h
      exact Or.inl rfl
  | string text =>
      cases (Constant.encode_eq_ok_iff_of_string.mp h).2
      exact Or.inr (Or.inl rfl)
  | function id =>
      cases h
      exact Or.inr (Or.inr rfl)

theorem encode_ne_nil {k : Constant} : k.encode ≠ .ok [] := by
  cases k with
  | string text => simp [Constant.encode_eq_ok_iff_of_string]
  | _ => simp [Constant.encode]

theorem reads_constant : Reads constant (fun k bytes => k.encode = .ok bytes) := by
  have htagged : ∀ (start : Nat) (tag : UInt8),
      Reads (if tag = intTag then
          take 4 >>= fun bytes => pure (.int (UInt32.ofNat (ofLittleEndian bytes)).toInt32)
        else if tag = stringTag then
          word >>= fun length => get >>= fun start => take length >>= fun bytes =>
            match ofUtf8? bytes with
            | some text => pure (.string text)
            | none => throw (.invalidUtf8 start.position)
        else if tag = functionTag then
          byte >>= fun id => pure (.function id)
        else
          throw (.unknownTag tag start) : Reader Constant)
        (fun k bytes => k.encode = .ok (tag :: bytes)) := by
    intro start tag
    by_cases hint : tag = intTag
    · rw [if_pos hint, hint]
      exact reads_int
    by_cases hstring : tag = stringTag
    · rw [if_neg hint, if_pos hstring, hstring]
      exact reads_string
    by_cases hfunction : tag = functionTag
    · rw [if_neg hint, if_neg hstring, if_pos hfunction, hfunction]
      exact reads_function
    · rw [if_neg hint, if_neg hstring, if_neg hfunction]
      apply (reads_throw _).congr
      intro k bytes
      constructor
      · exact False.elim
      · intro h
        rcases tag_of_encode h with htag | htag | htag
        · exact hint htag
        · exact hstring htag
        · exact hfunction htag
  apply (reads_get fun c => reads_byte.bind (htagged c.position)).congr
  intro k bytes
  constructor
  · rintro ⟨tag, _, rest, rfl, hrest, rfl⟩
    exact hrest
  · intro h
    cases bytes with
    | nil => exact absurd h encode_ne_nil
    | cons tag rest => exact ⟨tag, [tag], rest, rfl, h, rfl⟩

/-- A chunk is read exactly where it was written, and has no name then. -/
theorem reads_chunk : Reads chunk (fun k bytes => k.name = none ∧ k.encode = .ok bytes) := by
  apply (reads_byte.bind fun count => (reads_constant.times count.toNat).bind
    fun constants => reads_word.bind fun length => (reads_take length).map
      fun code => ({ name := none, constants, code } : Chunk)).congr
  intro k bytes
  rw [Chunk.encode_eq_ok_iff]
  constructor
  · rintro ⟨count, _, _, rfl, ⟨constants, _, _, ⟨hcount, parts, hparts, rfl⟩,
      ⟨_, _, _, ⟨rfl, hbound⟩, ⟨_, ⟨rfl, rfl⟩, rfl⟩, rfl⟩, rfl⟩, rfl⟩
    have hsmall : constants.length ≤ 255 := hcount ▸ Nat.le_of_lt_succ count.toNat_lt
    refine ⟨rfl, hsmall, hbound, parts, hparts, ?_⟩
    simp [hcount]
  · rintro ⟨hname, hcount, hlength, parts, hparts, rfl⟩
    rcases k with ⟨_, constants, code⟩
    cases hname
    have hbyte : (UInt8.ofNat constants.length).toNat = constants.length :=
      UInt8.toNat_ofNat_of_lt' (Nat.lt_succ_of_le hcount)
    refine ⟨_, _, _, rfl, ⟨constants, _, _, ⟨hbyte.symm, parts, hparts, rfl⟩,
      ⟨_, _, _, ⟨rfl, hlength⟩, ⟨code, ⟨rfl, rfl⟩, rfl⟩, rfl⟩, rfl⟩, ?_⟩
    simp

theorem chunksUpTo_of_end {c : ByteCursor} (h : c.rest = []) (bound : Nat) (read : List Chunk) :
    chunksUpTo bound read c = .ok (read.reverse, c) := by
  cases bound with
  | zero => rfl
  | succ bound =>
      show (if c.rest.isEmpty = true then _ else _ : Reader (List Chunk)) c = _
      rw [h]
      rfl

theorem chunksUpTo_succ {c : ByteCursor} (h : c.rest ≠ []) (bound : Nat) (read : List Chunk) :
    chunksUpTo (bound + 1) read c = (chunk >>= fun next => chunksUpTo bound (next :: read)) c := by
  show (if c.rest.isEmpty = true then _ else _ : Reader (List Chunk)) c = _
  rw [if_neg (fun hempty => h (List.isEmpty_iff.mp hempty))]

theorem length_lt_of_passes {k : Chunk} {bytes : List UInt8} {c c' : ByteCursor}
    (hencode : k.encode = .ok bytes) (h : c.Passes bytes c') : c'.rest.length < c.rest.length := by
  rcases Chunk.encode_eq_ok_iff.mp hencode with ⟨_, _, _, _, rfl⟩
  rw [h.1, List.length_append, List.length_cons]
  omega

/-- The chunks lie one behind the other from the first cursor to the second,
where the bytes end. -/
def Chunked (c : ByteCursor) (chunks : List Chunk) (c' : ByteCursor) : Prop :=
  ∃ parts, List.Forall₂ (fun k bytes => k.name = none ∧ k.encode = .ok bytes) chunks parts ∧
    c.Passes parts.flatten c' ∧ c'.rest = []

theorem chunked_iff_of_end {c c' : ByteCursor} {chunks : List Chunk} (h : c.rest = []) :
    Chunked c chunks c' ↔ chunks = [] ∧ c' = c := by
  constructor
  · rintro ⟨parts, hforms, hpasses, _⟩
    cases hforms with
    | nil => exact ⟨rfl, ByteCursor.passes_nil_iff.mp hpasses⟩
    | cons hform _ =>
        rcases ByteCursor.passes_append_iff.mp hpasses with ⟨c1, hfirst, _⟩
        have hshort := length_lt_of_passes hform.2 hfirst
        rw [h] at hshort
        exact absurd hshort (Nat.not_lt_zero _)
  · rintro ⟨rfl, rfl⟩
    exact ⟨[], .nil, ByteCursor.passes_nil_iff.mpr rfl, h⟩

theorem chunked_iff {c c' : ByteCursor} {chunks : List Chunk} (h : c.rest ≠ []) :
    Chunked c chunks c' ↔ ∃ first rest c1, chunks = first :: rest ∧
      chunk c = .ok (first, c1) ∧ Chunked c1 rest c' := by
  constructor
  · rintro ⟨parts, hforms, hpasses, hend⟩
    cases hforms with
    | nil =>
        rw [ByteCursor.passes_nil_iff.mp hpasses] at hend
        exact absurd hend h
    | cons hform hforms =>
        rcases ByteCursor.passes_append_iff.mp hpasses with ⟨c1, hfirst, hrest⟩
        exact ⟨_, _, c1, rfl, (reads_chunk c c1 _).mpr ⟨_, hform, hfirst⟩, _, hforms, hrest, hend⟩
  · rintro ⟨first, rest, c1, rfl, hfirst, parts, hforms, hrest, hend⟩
    rcases (reads_chunk c c1 first).mp hfirst with ⟨bytes, hform, hpasses⟩
    exact ⟨bytes :: parts, .cons hform hforms,
      ByteCursor.passes_append_iff.mpr ⟨c1, hpasses, hrest⟩, hend⟩

/-- Chunks are read up to the end of the bytes, if the bound is no smaller than
the number of bytes left. -/
theorem chunksUpTo_eq_ok_iff {bound : Nat} {read chunks : List Chunk} {c c' : ByteCursor}
    (hbound : c.rest.length ≤ bound) :
    chunksUpTo bound read c = .ok (chunks, c') ↔
      ∃ more, chunks = read.reverse ++ more ∧ Chunked c more c' := by
  induction bound generalizing read c with
  | zero =>
      have hrest := List.eq_nil_of_length_eq_zero (Nat.le_zero.mp hbound)
      rw [chunksUpTo_of_end hrest]
      simp [chunked_iff_of_end hrest, eq_comm]
  | succ bound ih =>
      by_cases hrest : c.rest = []
      · rw [chunksUpTo_of_end hrest]
        simp [chunked_iff_of_end hrest, eq_comm]
      · have hstep : ∀ first c1, chunk c = .ok (first, c1) -> c1.rest.length ≤ bound := by
          intro first c1 hfirst
          rcases (reads_chunk c c1 first).mp hfirst with ⟨bytes, hform, hpasses⟩
          have hshort := length_lt_of_passes hform.2 hpasses
          omega
        rw [chunksUpTo_succ hrest]
        show (chunk c >>= fun next => chunksUpTo bound (next.1 :: read) next.2) = _ ↔ _
        simp only [bind_eq_ok_iff, chunked_iff hrest]
        constructor
        · rintro ⟨⟨first, c1⟩, hfirst, h⟩
          rcases (ih (hstep first c1 hfirst)).mp h with ⟨more, rfl, hmore⟩
          exact ⟨first :: more, by simp, first, more, c1, rfl, hfirst, hmore⟩
        · rintro ⟨_, rfl, first, more, c1, rfl, hfirst, hmore⟩
          exact ⟨(first, c1), hfirst, (ih (hstep first c1 hfirst)).mpr ⟨more, by simp, hmore⟩⟩

end Binary

/-!
## Programs
-/

theorem Binary.chunked_start_iff {bytes : List UInt8} {chunks : List Chunk} :
    (∃ c, Chunked { rest := bytes } chunks c) ↔
      (∀ k ∈ chunks, k.name = none) ∧ Bytecode.encode { chunks } = .ok bytes := by
  simp only [Bytecode.encode_eq_ok_iff, Chunked, List.forall₂_and_left]
  constructor
  · rintro ⟨c, parts, ⟨hnames, hforms⟩, hpasses, hend⟩
    refine ⟨hnames, parts, hforms, ?_⟩
    rw [← List.append_nil parts.flatten, ← hend]
    exact hpasses.1
  · rintro ⟨hnames, parts, hforms, rfl⟩
    exact ⟨{ rest := [], position := 0 + parts.flatten.length }, parts, ⟨hnames, hforms⟩,
      ⟨(List.append_nil _).symm, rfl⟩, rfl⟩

namespace Bytecode

/-- A program without names is decoded from its binary form, and from nothing
else. -/
theorem decode_eq_ok_iff {bytes : List UInt8} {program : Bytecode} :
    decode bytes = .ok program ↔
      (∀ chunk ∈ program.chunks, chunk.name = none) ∧ program.encode = .ok bytes := by
  have hread : ∀ chunks c, Binary.chunksUpTo bytes.length [] { rest := bytes } = .ok (chunks, c) ↔
      Binary.Chunked { rest := bytes } chunks c := by
    intro chunks c
    have hstart : ByteCursor.rest { rest := bytes } = bytes := rfl
    rw [Binary.chunksUpTo_eq_ok_iff (Nat.le_of_eq (congrArg List.length hstart))]
    simp
  rw [← Binary.chunked_start_iff, decode, bind_eq_ok_iff]
  constructor
  · rintro ⟨⟨chunks, c⟩, hchunks, h⟩
    cases h
    exact ⟨c, (hread chunks c).mp hchunks⟩
  · rintro ⟨c, hchunked⟩
    exact ⟨(program.chunks, c), (hread program.chunks c).mpr hchunked, rfl⟩

theorem decode_of_encode {bytes : List UInt8} {program : Bytecode}
    (h : program.encode = .ok bytes) : decode bytes = .ok program.unnamed := by
  rw [decode_eq_ok_iff, encode_unnamed_eq_ok_iff]
  refine ⟨?_, h⟩
  intro chunk hchunk
  rcases List.mem_map.mp hchunk with ⟨named, _, rfl⟩
  rfl

theorem decode_encode (program : Bytecode) :
    ((∃ bytes, program.encode = .ok bytes) ↔ ∀ chunk ∈ program.chunks, chunk.FitsBinary) ∧
      ∀ bytes, program.encode = .ok bytes -> decode bytes = .ok program.unnamed :=
  ⟨exists_encode_iff, fun _ => decode_of_encode⟩

/-- Two chunks, with a negative number, a text beyond ASCII and code that is no
code of the stack machine. -/
def sample : Bytecode where
  chunks :=
    [{ name := none, constants := [.int (-2), .string "grüß"], code := [0xFF, 0x00] },
      { name := some "f", constants := [.string "f", .int 1, .function 1], code := [] }]

theorem decode_encode_sample :
    sample.encode = .ok
        [2, 0, 254, 255, 255, 255, 1, 6, 0, 103, 114, 195, 188, 195, 159, 2, 0, 255, 0,
          3, 1, 1, 0, 102, 0, 1, 0, 0, 0, 2, 1, 0, 0] ∧
      decode
        [2, 0, 254, 255, 255, 255, 1, 6, 0, 103, 114, 195, 188, 195, 159, 2, 0, 255, 0,
          3, 1, 1, 0, 102, 0, 1, 0, 0, 0, 2, 1, 0, 0] = .ok sample.unnamed ∧
      ∀ chunk ∈ sample.chunks, chunk.FitsBinary := by
  have hbytes : sample.encode = .ok
      [2, 0, 254, 255, 255, 255, 1, 6, 0, 103, 114, 195, 188, 195, 159, 2, 0, 255, 0,
        3, 1, 1, 0, 102, 0, 1, 0, 0, 0, 2, 1, 0, 0] := by
    decide +kernel
  exact ⟨hbytes, (decode_encode sample).2 _ hbytes, (decode_encode sample).1.mp ⟨_, hbytes⟩⟩

/-- Whatever can be decoded is the binary form of what it is decoded to.  So no
two lists of bytes have one meaning, and what can be decoded is what can come
from an encoding. -/
theorem encode_decode :
    (∀ bytes program, decode bytes = .ok program -> program.encode = .ok bytes) ∧
      (∀ bytes bytes' program, decode bytes = .ok program -> decode bytes' = .ok program ->
        bytes = bytes') ∧
      ∀ bytes, (∃ program, decode bytes = .ok program) ↔ ∃ program, encode program = .ok bytes := by
  have hcanonical : ∀ bytes program, decode bytes = .ok program -> program.encode = .ok bytes :=
    fun _ _ h => (decode_eq_ok_iff.mp h).2
  refine ⟨hcanonical, ?_, ?_⟩
  · intro bytes bytes' program h h'
    have hbytes := hcanonical bytes program h
    rw [hcanonical bytes' program h'] at hbytes
    exact (Except.ok.inj hbytes).symm
  · intro bytes
    constructor
    · rintro ⟨program, h⟩
      exact ⟨program, hcanonical bytes program h⟩
    · rintro ⟨program, h⟩
      exact ⟨program.unnamed, decode_of_encode h⟩

theorem encode_decode_function :
    decode [1, 2, 7, 2, 0, 25, 0] =
        .ok { chunks := [{ name := none, constants := [.function 7], code := [25, 0] }] } ∧
      encode { chunks := [{ name := none, constants := [.function 7], code := [25, 0] }] } =
        .ok [1, 2, 7, 2, 0, 25, 0] := by
  have hdecode : decode [1, 2, 7, 2, 0, 25, 0] =
      .ok { chunks := [{ name := none, constants := [.function 7], code := [25, 0] }] } := by
    decide +kernel
  exact ⟨hdecode, encode_decode.1 _ _ hdecode⟩

end Bytecode
end StackScript
