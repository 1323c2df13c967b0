import Mathlib.Data.List.Induction
import StackScript.Proofs.Emission

/-!
# Runs of stored constants

Constants are stored in a pool one after the other, new ones, known ones, and ones
for which there is no room.  The pool then holds the first of the different
constants, each at the index that was given out for it, whatever came in between.
-/

namespace StackScript

/-!
## Calls
-/

structure StoreCall where
  constant : PoolConstant
  chunk : String

/-- The different constants of calls, each where it comes first, as many as there
are indices for. -/
def firstConstants (calls : List StoreCall) : List PoolConstant :=
  (calls.map (·.constant)).eraseDups.take 255

/-- A constant that is in the list already, or finds it full, changes nothing. -/
theorem firstConstants_append (calls : List StoreCall) (call : StoreCall) :
    firstConstants (calls ++ [call]) =
      if call.constant ∈ firstConstants calls ∨ 255 ≤ (firstConstants calls).length then
        firstConstants calls
      else
        firstConstants calls ++ [call.constant] := by
  have hsplit : ((calls ++ [call]).map (·.constant)).eraseDups =
      (calls.map (·.constant)).eraseDups ++
        ([call.constant].removeAll (calls.map (·.constant))).eraseDups := by
    rw [List.map_append, List.eraseDups_append]
    rfl
  unfold firstConstants
  rw [hsplit]
  by_cases hmem : call.constant ∈ calls.map (·.constant)
  · have hnone : [call.constant].removeAll (calls.map (·.constant)) = [] := by
      simpa [List.removeAll] using hmem
    have hold : call.constant ∈ (calls.map (·.constant)).eraseDups := List.mem_eraseDups.mpr hmem
    rw [hnone, List.eraseDups_nil, List.append_nil, if_pos]
    -- a constant that was cut off was cut off for want of room
    by_cases hfull : 255 ≤ (calls.map (·.constant)).eraseDups.length
    · right
      rw [List.length_take]
      exact Nat.le_min.mpr ⟨Nat.le_refl _, hfull⟩
    · left
      rw [List.take_of_length_le (Nat.le_of_not_le hfull)]
      exact hold
  · have hone : [call.constant].removeAll (calls.map (·.constant)) = [call.constant] := by
      simpa [List.removeAll] using hmem
    have hnew : call.constant ∉ (calls.map (·.constant)).eraseDups.take 255 := by
      intro htake
      exact hmem (List.mem_eraseDups.mp (List.mem_of_mem_take htake))
    rw [hone, List.take_append, List.length_take]
    by_cases hfull : 255 ≤ (calls.map (·.constant)).eraseDups.length
    · rw [if_pos (Or.inr (Nat.le_min.mpr ⟨Nat.le_refl _, hfull⟩)), Nat.sub_eq_zero_of_le hfull,
        List.take_zero, List.append_nil]
    · rw [if_neg, List.take_of_length_le (l := [call.constant].eraseDups)]
      · rfl
      · show 1 ≤ 255 - _
        omega
      · intro h
        cases h with
        | inl h => exact hnew h
        | inr h => exact hfull (Nat.le_min.mp h).2

namespace Pool

def call (pool : Pool) (c : StoreCall) : Except AssembleError UInt8 × Pool :=
  match pool.store c.constant c.chunk with
  | .ok index pool' => (.ok index, pool')
  | .error e pool' => (.error e, pool')

def after (calls : List StoreCall) : Pool :=
  calls.foldl (fun pool c => (pool.call c).2) {}

theorem after_append (calls : List StoreCall) (c : StoreCall) :
    after (calls ++ [c]) = ((after calls).call c).2 := by
  rw [after, List.foldl_append]
  rfl

/-!
## One call
-/

variable {pool : Pool} {c : StoreCall}

theorem call_of_mem (h : pool.Fits) (hmem : c.constant ∈ pool.constants) :
    ∃ index, pool.call c = (.ok index, pool) ∧ pool.constants[index.toNat]? = some c.constant := by
  cases hlookup : pool.indices.lookup c.constant with
  | none => exact absurd hmem (h.lookup_eq_none_iff.mp hlookup)
  | some index =>
      exists index
      constructor
      · simp only [call, store, hlookup]
      · exact (h.indexed _ _).mp hlookup

theorem call_of_room (h : pool.Fits) (hnew : c.constant ∉ pool.constants)
    (hroom : pool.constants.length < 255) :
    ∃ index pool', pool.call c = (.ok index, pool') ∧ pool'.Fits ∧
      pool'.constants = pool.constants ++ [c.constant] ∧
      pool'.constants[index.toNat]? = some c.constant := by
  let index := UInt8.ofNat pool.constants.length
  have hstore : pool.store c.constant c.chunk =
      .ok index { constants := pool.constants ++ [c.constant]
                  indices := (c.constant, index) :: pool.indices } := by
    simp only [store, h.lookup_eq_none_iff.mpr hnew]
    exact if_pos hroom
  rcases store_eq_ok h hstore with ⟨hfits, hget, _⟩
  refine ⟨_, _, ?_, hfits, rfl, hget⟩
  rw [call, hstore]

theorem call_of_full (h : pool.Fits) (hnew : c.constant ∉ pool.constants)
    (hfull : ¬ pool.constants.length < 255) :
    pool.call c = (.error (.constantPoolFull c.chunk 255), pool) := by
  have hstore : pool.store c.constant c.chunk = .error (.constantPoolFull c.chunk 255) pool := by
    simp only [store, h.lookup_eq_none_iff.mpr hnew]
    exact if_neg hfull
  rw [call, hstore]

/-- A call keeps the pool in order, and every constant at its index. -/
theorem call_step (h : pool.Fits) (c : StoreCall) :
    (pool.call c).2.Fits ∧ pool.constants <+: (pool.call c).2.constants ∧
      (pool.call c).2.constants =
        if c.constant ∈ pool.constants ∨ 255 ≤ pool.constants.length then pool.constants
        else pool.constants ++ [c.constant] := by
  by_cases hmem : c.constant ∈ pool.constants
  · rcases call_of_mem h hmem with ⟨index, hcall, _⟩
    rw [hcall, if_pos (Or.inl hmem)]
    exact ⟨h, List.prefix_rfl, rfl⟩
  · by_cases hroom : pool.constants.length < 255
    · rcases call_of_room h hmem hroom with ⟨index, pool', hcall, hfits, hconstants, _⟩
      have hnot : ¬ (c.constant ∈ pool.constants ∨ 255 ≤ pool.constants.length) :=
        not_or.mpr ⟨hmem, Nat.not_le.mpr hroom⟩
      rw [hcall, if_neg hnot, hconstants]
      exact ⟨hfits, List.prefix_append _ _, rfl⟩
    · rw [call_of_full h hmem hroom, if_pos (Or.inr (Nat.le_of_not_lt hroom))]
      exact ⟨h, List.prefix_rfl, rfl⟩

theorem call_eq_ok_iff (h : pool.Fits) :
    (∃ index, (pool.call c).1 = .ok index) ↔
      c.constant ∈ pool.constants ∨ pool.constants.length < 255 := by
  by_cases hmem : c.constant ∈ pool.constants
  · rcases call_of_mem h hmem with ⟨index, hcall, _⟩
    rw [hcall]
    exact iff_of_true ⟨index, rfl⟩ (Or.inl hmem)
  · by_cases hroom : pool.constants.length < 255
    · rcases call_of_room h hmem hroom with ⟨index, pool', hcall, _⟩
      rw [hcall]
      exact iff_of_true ⟨index, rfl⟩ (Or.inr hroom)
    · rw [call_of_full h hmem hroom]
      apply iff_of_false
      · intro hok
        cases hok with
        | intro index hok => cases hok
      · exact not_or.mpr ⟨hmem, hroom⟩

theorem get?_of_call (h : pool.Fits) {index : UInt8} (hcall : (pool.call c).1 = .ok index) :
    (pool.call c).2.constants[index.toNat]? = some c.constant := by
  unfold call at hcall ⊢
  cases hstore : pool.store c.constant c.chunk with
  | ok i pool' =>
      rw [hstore] at hcall
      cases hcall
      exact (store_eq_ok h hstore).2.1
  | error e pool' =>
      rw [hstore] at hcall
      cases hcall

/-- A call fails for want of room only, and then changes nothing. -/
theorem call_eq_error (h : pool.Fits) {e : AssembleError} (hcall : (pool.call c).1 = .error e) :
    pool.call c = (.error (.constantPoolFull c.chunk 255), pool) := by
  have hnone : ¬ ∃ index, (pool.call c).1 = .ok index := by
    intro hok
    rcases hok with ⟨index, hok⟩
    cases hok.symm.trans hcall
  rw [call_eq_ok_iff h, not_or] at hnone
  exact call_of_full h hnone.1 hnone.2

/-!
## All calls
-/

theorem fits_after (calls : List StoreCall) : (after calls).Fits := by
  induction calls using List.reverseRecOn with
  | nil => exact .empty
  | append_singleton calls c ih =>
      rw [after_append]
      exact (call_step ih c).1

theorem constants_after (calls : List StoreCall) :
    (after calls).constants = firstConstants calls := by
  induction calls using List.reverseRecOn with
  | nil => rfl
  | append_singleton calls c ih =>
      rw [after_append, (call_step (fits_after calls) c).2.2, firstConstants_append, ih]

theorem constants_after_append (calls more : List StoreCall) :
    (after calls).constants <+: (after (calls ++ more)).constants := by
  induction more using List.reverseRecOn with
  | nil => simp
  | append_singleton more c ih =>
      rw [← List.append_assoc, after_append]
      exact ih.trans (call_step (fits_after _) c).2.1

/-- The index that one of the calls was answered with is still the index of its
constant when all calls are made. -/
theorem get?_after {calls : List StoreCall} {k : Nat} (hc : calls[k]? = some c) {index : UInt8}
    (hcall : ((after (calls.take k)).call c).1 = .ok index) :
    (after calls).get? index.toNat = some c.constant := by
  have hget := get?_of_call (fits_after _) hcall
  have htake : calls.take k ++ [c] = calls.take (k + 1) := by
    rw [List.take_add_one, hc]
    rfl
  have hkept := constants_after_append (calls.take (k + 1)) (calls.drop (k + 1))
  rw [List.take_append_drop] at hkept
  rw [← after_append, htake] at hget
  rcases hkept with ⟨later, hlater⟩
  rw [get?, ← hlater, List.getElem?_append_left (List.getElem?_eq_some_iff.mp hget).1]
  exact hget

/-- However constants are stored in an empty pool, it holds the first 255 different
ones in the order in which they came.  A call is answered with an index exactly for
a constant that is there or still finds room; any other call fails and changes
nothing.  An index that was given out leads to its constant ever after, the same
constant has the same index and different ones have different indices, and the
indices that the pool keeps are those of its constants. -/
theorem constants_of_calls (calls : List StoreCall) :
    let pool := after calls
    pool.constants = firstConstants calls ∧
    (∀ k c, calls[k]? = some c ->
      let before := after (calls.take k)
      ((∃ index, (before.call c).1 = .ok index) ↔
        c.constant ∈ firstConstants (calls.take k) ∨ before.constants.length < 255) ∧
      (∀ index, (before.call c).1 = .ok index ->
        (firstConstants calls)[index.toNat]? = some c.constant ∧
          pool.get? index.toNat = some c.constant) ∧
      ∀ e, (before.call c).1 = .error e ->
        e = .constantPoolFull c.chunk 255 ∧ (before.call c).2 = before) ∧
    (∀ k k' c c' index index', calls[k]? = some c -> calls[k']? = some c' ->
      ((after (calls.take k)).call c).1 = .ok index ->
      ((after (calls.take k')).call c').1 = .ok index' ->
      (index = index' ↔ c.constant = c'.constant)) ∧
    ∀ constant index, pool.indices.lookup constant = some index ↔
      pool.get? index.toNat = some constant := by
  intro pool
  have hfits : pool.Fits := fits_after calls
  refine ⟨constants_after calls, ?_, ?_, hfits.indexed⟩
  · intro k c hc before
    refine ⟨?_, ?_, ?_⟩
    · rw [← constants_after]
      exact call_eq_ok_iff (fits_after _)
    · intro index hcall
      rw [← constants_after]
      exact ⟨get?_after hc hcall, get?_after hc hcall⟩
    · intro e hcall
      have herror := call_eq_error (fits_after _) hcall
      rw [herror] at hcall ⊢
      cases hcall
      exact ⟨rfl, rfl⟩
  · intro k k' c c' index index' hc hc' hcall hcall'
    have hget := get?_after hc hcall
    have hget' := get?_after hc' hcall'
    constructor
    · intro heq
      rw [heq, hget'] at hget
      exact (Option.some.inj hget).symm
    · intro heq
      rw [← heq] at hget'
      have hlookup := (hfits.indexed c.constant index).mpr hget
      have hlookup' := (hfits.indexed c.constant index').mpr hget'
      exact Option.some.inj (hlookup.symm.trans hlookup')

end Pool
end StackScript
