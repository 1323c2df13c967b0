import StackScript.Proofs.ListedCode

/-!
# Listings show what was encoded

A listing is not made from the finished bytes: it goes over the drafts again and
resolves each directive once more.  Still it fails exactly as finishing does, and
otherwise it has a page for each chunk, in the order of the finished program.
-/

namespace StackScript

/-!
## Pages
-/

namespace Bytecode

def constantText (b : Bytecode) : Constant -> String
  | .int n => integerText n
  | .string s => Text.quoted s
  | .function id =>
      "<fn '" ++ b.chunks[id.toNat]?.elim "?" Chunk.displayName ++ "' #" ++ toString id.toNat ++ ">"

end Bytecode

namespace Assembler

variable {a : Assembler} {d : Draft} {b : Bytecode} {id : UInt8}

theorem chunkId_of_ordered {drafts : List Draft} (h : a.ordered = .ok drafts) {place : Nat}
    (hd : drafts[place]? = some d) :
    ∃ ref id, a.draft? ref = some d ∧ a.chunkId ref = .ok id ∧ id.toNat = place := by
  rcases exists_main_of_ordered h with ⟨main, hmain, hsize⟩
  rcases getElem?_ordered main hmain hsize h with ⟨hlength, hdrafts⟩
  have hplace : place < a.entries.size := hlength ▸ (List.getElem?_eq_some_iff.mp hd).1
  let ref := main.cycleRange.symm ⟨place, hplace⟩
  have href : (main.cycleRange ref).val = place := by
    rw [Equiv.apply_symm_apply]
  rcases chunkId_eq main hmain hsize ref with ⟨id, hid, hvalue⟩
  rcases hdrafts ref with ⟨d', hd', hdraft⟩
  rw [href, hd] at hd'
  cases hd'
  exact ⟨ref, id, hdraft, hid, hvalue.trans href⟩

theorem fault?_constantText (c : PoolConstant) :
    fault? (Draft.finishConstant a.chunkId c) = fault? (Listing.constantText a c) := by
  cases c with
  | int n => rfl
  | string s => rfl
  | function ref =>
      rw [Draft.finishConstant, Listing.constantText, fault?_map]
      exact fault?_bind_pure.symm

theorem chunkText_eq (hid : a.chunkId d.self = .ok id) :
    Listing.chunkText a d =
      d.pool.constants.mapM (Listing.constantText a) >>= fun constants =>
        (d.directives.toList.mapM d.resolve).map fun instructions =>
          "Chunk '" ++ d.displayName ++ "' #" ++ toString id.toNat ++ "\n----- Constants -----\n"
            ++ String.join (constants.zipIdx.map fun (text, index) =>
              "@" ++ toString index ++ ": " ++ text ++ "\n")
            ++ "----- Code -----\n"
            ++ String.join
              ((d.linesFrom 0 d.directives.toList instructions).map (CodeLine.text d)) := by
  rw [Listing.chunkText, hid]
  show (d.pool.constants.mapM (Listing.constantText a) >>= fun constants =>
    Listing.writeCode d d.labelsAt _ 0 d.directives.toList) = _
  simp only [Draft.writeCode_eq]

theorem fault?_chunkText (hid : a.chunkId d.self = .ok id) (hfits : d.position ≤ maxCodeLength) :
    fault? (d.finish a.chunkId) = fault? (Listing.chunkText a d) := by
  rw [chunkText_eq hid, Draft.finish]
  apply fault?_bind_congr
  · exact fault?_mapM_congr fun c _ => fault?_constantText c
  · intro _ _ _ _
    rw [fault?_bind_pure, fault?_map, Draft.code, if_pos hfits, fault?_bind_pure]

/-- Finishing and listing fail alike. -/
theorem fault?_listing {calls : List BuildCall}
    (hfits : ∀ ref d, (built {} calls).draft? ref = some d -> d.position ≤ maxCodeLength) :
    fault? (built {} calls).finalize = fault? (built {} calls).listing := by
  rw [finalize, listing]
  apply fault?_bind_congr rfl
  intro drafts _ hordered hordered'
  cases hordered.symm.trans hordered'
  rw [fault?_bind_pure, fault?_bind_pure]
  apply fault?_mapM_congr
  intro d hd
  rcases List.getElem?_of_mem hd with ⟨place, hplace⟩
  rcases chunkId_of_ordered hordered hplace with ⟨ref, id, hdraft, hid, _⟩
  rw [← (self_of_draft? calls hdraft).1] at hid
  exact fault?_chunkText hid (hfits ref d hdraft)

/-- A program that can be finished can be listed, since its drafts were measured
then. -/
theorem exists_listing {calls : List BuildCall} {b : Bytecode}
    (h : (built {} calls).finalize = .ok b) : ∃ text, (built {} calls).listing = .ok text := by
  rcases exists_finished h with ⟨_, _, _, hfinished⟩
  have hfits : ∀ ref d, (built {} calls).draft? ref = some d -> d.position ≤ maxCodeLength := by
    intro ref d hd
    rcases Option.bind_eq_some_iff.mp hd with ⟨entry, hentry, _⟩
    have hlt := (Array.getElem?_eq_some_iff.mp hentry).1
    rcases hfinished ⟨ref, hlt⟩ with ⟨d', chunk, hd', hfinish, _⟩
    cases hd.symm.trans hd'
    exact (Draft.code_eq_ok_iff.mp (Draft.finish_eq_ok_iff.mp hfinish).2.2).1
  have hfault := fault?_listing hfits
  rw [h] at hfault
  exact fault?_eq_none_iff.mp hfault.symm

end Assembler
end StackScript
