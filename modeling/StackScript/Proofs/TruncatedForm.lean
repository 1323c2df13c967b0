import StackScript.Proofs.BinaryForm

/-!
# Truncated programs

What a reader of the binary form does is settled by the bytes that it looked at:
more bytes behind them change nothing, unless the reader ran out of bytes.  So a
program that was cut off inside a chunk can only be short of bytes, wherever the
cut falls, and one that was cut off between two chunks is the program of the
chunks in front of the cut.
-/

namespace StackScript

/-!
## Cursors in front of more bytes
-/

namespace ByteCursor

def followedBy (c : ByteCursor) (more : List UInt8) : ByteCursor :=
  { c with rest := c.rest ++ more }

def stop (c : ByteCursor) : Nat :=
  c.position + c.rest.length

end ByteCursor

/-!
## Steady readers
-/

namespace Binary

variable {α β : Type} {reader : Reader α}

/-- Only a reader that ran out of bytes could do something else with more of them,
and it ran out of them no later than at their end. -/
def Steady (reader : Reader α) : Prop :=
  ∀ (c : ByteCursor) (more : List UInt8),
    match reader c with
    | .ok (x, c') => c'.stop ≤ c.stop ∧ reader (c.followedBy more) = .ok (x, c'.followedBy more)
    | .error (.unexpectedEnd position) => position ≤ c.stop
    | .error e => reader (c.followedBy more) = .error e

theorem steady_pure (x : α) : Steady (pure x : Reader α) :=
  fun _ _ => ⟨Nat.le_refl _, rfl⟩

theorem steady_throw {e : DecodeError} (h : ∀ position, e ≠ .unexpectedEnd position) :
    Steady (throw e : Reader α) := by
  intro c more
  cases e with
  | unexpectedEnd position => exact absurd rfl (h position)
  | unknownTag tag position => rfl
  | invalidUtf8 position => rfl

theorem steady_byte : Steady byte := by
  rintro ⟨rest, position⟩ more
  cases rest with
  | nil => exact Nat.le_refl _
  | cons b rest =>
      refine ⟨?_, rfl⟩
      simp only [ByteCursor.stop, List.length_cons]
      omega

theorem steady_take (count : Nat) : Steady (take count) := by
  rintro ⟨rest, position⟩ more
  by_cases hcount : count ≤ rest.length
  · have hread : ∀ later, take count { rest := rest ++ later, position } =
        .ok (rest.take count,
          { rest := rest.drop count ++ later, position := position + count }) := by
      intro later
      show (if ((rest ++ later).take count).length = count then _ else _) = _
      rw [List.take_append_of_le_length hcount, List.drop_append_of_le_length hcount,
        List.length_take, Nat.min_eq_left hcount, if_pos rfl]
    have hshort := hread []
    rw [List.append_nil, List.append_nil] at hshort
    rw [hshort]
    refine ⟨?_, hread more⟩
    simp only [ByteCursor.stop, List.length_drop]
    omega
  · have hshort : take count { rest, position } = .error (.unexpectedEnd position) := by
      show (if (rest.take count).length = count then _ else _) = _
      rw [List.length_take, if_neg]
      omega
    rw [hshort]
    exact Nat.le_add_right _ _

theorem Steady.bind {next : α -> Reader β} (h : Steady reader) (hnext : ∀ x, Steady (next x)) :
    Steady (reader >>= next) := by
  intro c more
  have hfirst := h c more
  have hchain : ∀ c, (reader >>= next) c = reader c >>= fun read => next read.1 read.2 :=
    fun _ => rfl
  rw [hchain, hchain]
  cases hread : reader c with
  | ok read =>
      rcases read with ⟨x, c'⟩
      rw [hread] at hfirst
      rcases hfirst with ⟨hstop, hmore⟩
      rw [hmore]
      have hrest := hnext x c' more
      show match next x c' with
        | .ok (y, c'') => c''.stop ≤ c.stop ∧
            next x (c'.followedBy more) = .ok (y, c''.followedBy more)
        | .error (.unexpectedEnd position) => position ≤ c.stop
        | .error e => next x (c'.followedBy more) = .error e
      cases hlast : next x c' with
      | ok read' =>
          rw [hlast] at hrest
          exact ⟨Nat.le_trans hrest.1 hstop, hrest.2⟩
      | error e =>
          rw [hlast] at hrest
          cases e with
          | unexpectedEnd position => exact Nat.le_trans hrest hstop
          | unknownTag tag position => exact hrest
          | invalidUtf8 position => exact hrest
  | error e =>
      rw [hread] at hfirst
      cases e with
      | unexpectedEnd position => exact hfirst
      | unknownTag tag position =>
          rw [hfirst]
          rfl
      | invalidUtf8 position =>
          rw [hfirst]
          rfl

theorem steady_get {next : ByteCursor -> Reader α} (h : ∀ c, Steady (next c))
    (hsame : ∀ c more, next (c.followedBy more) = next c) : Steady (get >>= next) := by
  intro c more
  have hnext := h c c more
  show match next c c with
    | .ok (x, c') => c'.stop ≤ c.stop ∧
        next (c.followedBy more) (c.followedBy more) = .ok (x, c'.followedBy more)
    | .error (.unexpectedEnd position) => position ≤ c.stop
    | .error e => next (c.followedBy more) (c.followedBy more) = .error e
  rw [hsame]
  exact hnext

theorem Steady.timesFrom (h : Steady reader) (count : Nat) (read : List α) :
    Steady (ByteReader.timesFrom reader count read) := by
  induction count generalizing read with
  | zero => exact steady_pure _
  | succ count ih => exact h.bind fun x => ih (x :: read)

theorem steady_word : Steady word :=
  (steady_take 2).bind fun _ => steady_pure _

theorem steady_constant : Steady constant := by
  refine steady_get (fun start => steady_byte.bind fun tag => ?_) fun _ _ => rfl
  by_cases hint : tag = intTag
  · rw [if_pos hint]
    exact (steady_take 4).bind fun _ => steady_pure _
  by_cases hstring : tag = stringTag
  · rw [if_neg hint, if_pos hstring]
    refine steady_word.bind fun length => steady_get
      (fun start => (steady_take length).bind fun bytes => ?_) fun _ _ => rfl
    cases ofUtf8? bytes with
    | some text => exact steady_pure _
    | none => exact steady_throw fun _ h => by cases h
  by_cases hfunction : tag = functionTag
  · rw [if_neg hint, if_neg hstring, if_pos hfunction]
    exact steady_byte.bind fun _ => steady_pure _
  · rw [if_neg hint, if_neg hstring, if_neg hfunction]
    exact steady_throw fun _ h => by cases h

theorem steady_chunk : Steady chunk :=
  steady_byte.bind fun count => (steady_constant.timesFrom count.toNat []).bind fun _ =>
    steady_word.bind fun length => (steady_take length).bind fun _ => steady_pure _

/-!
## Cuts
-/

theorem chunk_of_cut {k : Chunk} {cut more : List UInt8} (hname : k.name = none)
    (hencode : k.encode = .ok (cut ++ more)) (hmore : more ≠ []) (position : Nat) :
    ∃ short, short ≤ position + cut.length ∧
      chunk { rest := cut, position } = .error (.unexpectedEnd short) := by
  have hwhole : chunk { rest := cut ++ more, position } =
      .ok (k, { rest := [], position := position + (cut ++ more).length }) :=
    (reads_chunk _ _ k).mpr ⟨_, ⟨hname, hencode⟩, (List.append_nil _).symm, rfl⟩
  have hsteady := steady_chunk { rest := cut, position } more
  simp only [ByteCursor.followedBy] at hsteady
  rw [hwhole] at hsteady
  cases hread : chunk { rest := cut, position } with
  | ok read =>
      rw [hread] at hsteady
      have hend : [] = read.2.rest ++ more :=
        congrArg (fun read => read.2.rest) (Except.ok.inj hsteady.2)
      exact absurd (List.append_eq_nil_iff.mp hend.symm).2 hmore
  | error e =>
      rw [hread] at hsteady
      cases e with
      | unexpectedEnd short => exact ⟨short, hsteady, rfl⟩
      | unknownTag tag place => cases hsteady
      | invalidUtf8 place => cases hsteady

theorem isPrefix_append_cases {front first second : List UInt8} (h : front <+: first ++ second) :
    (∃ more, more ≠ [] ∧ first = front ++ more) ∨
      ∃ rest, front = first ++ rest ∧ rest <+: second := by
  rcases h with ⟨others, h⟩
  rcases List.append_eq_append_iff.mp h with ⟨more, hfirst, hothers⟩ | ⟨rest, hfront, hsecond⟩
  · by_cases hmore : more = []
    · refine Or.inr ⟨[], ?_, List.nil_prefix⟩
      rw [hfirst, hmore, List.append_nil, List.append_nil]
    · exact Or.inl ⟨more, hmore, hfirst⟩
  · exact Or.inr ⟨rest, hfront, others, hsecond.symm⟩

/-- Bytes from the front of written chunks end between two of them, or they are
short of bytes. -/
theorem chunksUpTo_of_cut {chunks : List Chunk} {parts : List (List UInt8)}
    (hforms : List.Forall₂ (fun k bytes => k.name = none ∧ k.encode = .ok bytes) chunks parts)
    (bound : Nat) (read : List Chunk) (c : ByteCursor) (hfront : c.rest <+: parts.flatten)
    (hbound : c.rest.length ≤ bound) :
    (∃ count, c.rest = (parts.take count).flatten) ∨
      ∃ short, short ≤ c.stop ∧ chunksUpTo bound read c = .error (.unexpectedEnd short) := by
  induction hforms generalizing bound read c with
  | nil => exact Or.inl ⟨0, List.prefix_nil.mp hfront⟩
  | @cons k bytes chunks parts hform hforms ih =>
      by_cases hempty : c.rest = []
      · exact Or.inl ⟨0, hempty⟩
      have hpositive := List.length_pos_iff.mpr hempty
      cases bound with
      | zero => omega
      | succ bound =>
          rw [chunksUpTo_succ hempty]
          show _ ∨ ∃ short, short ≤ c.stop ∧
            (chunk c >>= fun next => chunksUpTo bound (next.1 :: read) next.2) = _
          rcases isPrefix_append_cases hfront with ⟨more, hmore, hcut⟩ | ⟨rest, hrest, hfront⟩
          · rcases chunk_of_cut hform.1 (hcut ▸ hform.2) hmore c.position with
              ⟨short, hshort, hchunk⟩
            refine Or.inr ⟨short, hshort, ?_⟩
            rw [hchunk]
            rfl
          · have hpasses : c.Passes bytes { rest, position := c.position + bytes.length } :=
              ⟨hrest, rfl⟩
            have hleft : rest.length ≤ bound :=
              Nat.le_of_lt_succ (Nat.lt_of_lt_of_le (length_lt_of_passes hform.2 hpasses) hbound)
            have hstop : c.stop = c.position + bytes.length + rest.length := by
              rw [ByteCursor.stop, hrest, List.length_append, Nat.add_assoc]
            rw [(reads_chunk _ _ k).mpr ⟨bytes, hform, hpasses⟩]
            rcases ih bound (k :: read) { rest, position := c.position + bytes.length } hfront hleft
              with ⟨count, hcount⟩ | ⟨short, hshort, hchunks⟩
            · refine Or.inl ⟨count + 1, ?_⟩
              rw [List.take_succ_cons, List.flatten_cons, ← hcount]
              exact hrest
            · exact Or.inr ⟨short, hstop ▸ hshort, hchunks⟩

end Binary

namespace Bytecode

def front (program : Bytecode) (count : Nat) : Bytecode where
  chunks := program.chunks.take count

/-- What is left of a program that was cut off between two chunks is the program
of the chunks in front of the cut, and a program that was cut off anywhere else is
found to be short of bytes. -/
theorem decode_truncated {program : Bytecode} {bytes cut : List UInt8}
    (h : program.encode = .ok bytes) (hcut : cut <+: bytes) :
    (∀ count, (program.front count).encode = .ok cut ->
      decode cut = .ok (program.front count).unnamed) ∧
    ((∀ count, (program.front count).encode ≠ .ok cut) ->
      ∃ position, position ≤ cut.length ∧ decode cut = .error (.unexpectedEnd position)) := by
  refine ⟨fun _ => decode_of_encode, fun hinside => ?_⟩
  rcases encode_eq_ok_iff.mp h with ⟨parts, hparts, rfl⟩
  have hforms : List.Forall₂ (fun k bytes => k.name = none ∧ k.encode = .ok bytes)
      program.unnamed.chunks parts := by
    rw [unnamed, List.forall₂_map_left_iff]
    exact hparts.imp fun k bytes hk => ⟨rfl, Chunk.encode_unnamed_eq_ok_iff.mpr hk⟩
  rcases Binary.chunksUpTo_of_cut hforms cut.length [] { rest := cut } hcut (Nat.le_refl _)
    with ⟨count, hcount⟩ | ⟨position, hposition, hchunks⟩
  · have hfront : (program.front count).encode = .ok cut :=
      encode_eq_ok_iff.mpr ⟨parts.take count, List.forall₂_take count hparts, hcount⟩
    exact absurd hfront (hinside count)
  · refine ⟨position, ?_, ?_⟩
    · rw [ByteCursor.stop, Nat.zero_add] at hposition
      exact hposition
    · rw [decode, hchunks]
      rfl

/-- One cut falls inside a letter of two bytes, and another one between the two
chunks. -/
theorem decode_truncated_sample :
    (∃ position, position ≤ 12 ∧
      decode [2, 0, 254, 255, 255, 255, 1, 6, 0, 103, 114, 195] =
        .error (.unexpectedEnd position)) ∧
      decode [2, 0, 254, 255, 255, 255, 1, 6, 0, 103, 114, 195, 188, 195, 159, 2, 0, 255, 0] =
        .ok (sample.front 1).unnamed := by
  have hbytes : sample.encode = .ok
      [2, 0, 254, 255, 255, 255, 1, 6, 0, 103, 114, 195, 188, 195, 159, 2, 0, 255, 0,
        3, 1, 1, 0, 102, 0, 1, 0, 0, 0, 2, 1, 0, 0] := by
    decide +kernel
  have hletter : [2, 0, 254, 255, 255, 255, 1, 6, 0, 103, 114, 195] <+:
      [2, 0, 254, 255, 255, 255, 1, 6, 0, 103, 114, 195, 188, 195, 159, 2, 0, 255, 0,
        3, 1, 1, 0, 102, 0, 1, 0, 0, 0, 2, 1, 0, (0 : UInt8)] := by
    decide +kernel
  constructor
  · apply (decode_truncated hbytes hletter).2
    intro count
    match count with
    | 0 => decide +kernel
    | 1 => decide +kernel
    | count + 2 =>
        have hall : sample.front (count + 2) = sample :=
          congrArg Bytecode.mk (List.take_of_length_le (Nat.le_add_left 2 count))
        rw [hall, hbytes]
        decide +kernel
  · exact (decode_truncated hbytes (by decide +kernel)).1 1 (by decide +kernel)

end Bytecode
end StackScript
