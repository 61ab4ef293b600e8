-- SUMMARY: A row's candidates: sorted by destination, bounded in number, the nearest kept.
import ForgeANN.Common.Basic
import ForgeANN.Common.Float
import ForgeANN.Lib.Best
import ForgeANN.Lib.BinarySearch
import Mathlib.Data.List.Sort

/-!
# Candidates

A row of candidates is sorted by destination. A destination that comes again
keeps the smaller distance; in a full row a nearer candidate takes the place of
the farthest one.
-/
namespace ForgeANN

open Lib

structure ViewLuneCandidate where
  dst : UInt32
  dist2 : F32
deriving DecidableEq, Repr

namespace ViewLuneCandidate

/-- What `candidate_distance_cmp` compares. -/
def distanceKey (candidate : ViewLuneCandidate) : F32 ×ₗ UInt32 :=
  toLex (candidate.dist2, candidate.dst)

/-- The destination, and what is offered for it. -/
def entry (candidate : ViewLuneCandidate) : UInt32 × F32 := (candidate.dst, candidate.dist2)

end ViewLuneCandidate

def sortByDistance (candidates : List ViewLuneCandidate) : List ViewLuneCandidate :=
  candidates.insertionSort fun a b => a.distanceKey ≤ b.distanceKey

/-- `existing.dist2 = existing.dist2.min(dist2)`. -/
def improveAt (candidates : List ViewLuneCandidate) (idx : Nat) (dist2 : F32) :
    List ViewLuneCandidate :=
  candidates.modify idx fun existing => { existing with dist2 := existing.dist2.min dist2 }

/-- The farthest candidate goes, and the new one is inserted. -/
def replaceAt (candidates : List ViewLuneCandidate) (worstIdx insertIdx : Nat)
    (candidate : ViewLuneCandidate) : List ViewLuneCandidate :=
  insertAt (candidates.eraseIdx worstIdx) (if worstIdx < insertIdx then insertIdx - 1 else insertIdx)
    candidate

/-- What inserting a candidate does to a row's candidates. -/
def keepCandidate (width : Nat) (candidates : List ViewLuneCandidate)
    (candidate : ViewLuneCandidate) : List ViewLuneCandidate :=
  match binarySearchByKey ViewLuneCandidate.dst candidates candidate.dst with
  | .ok idx => improveAt candidates idx candidate.dist2
  | .error idx =>
      if candidates.length < width then insertAt candidates idx candidate
      else
        match maxByKey ViewLuneCandidate.distanceKey candidates with
        | none => candidates
        | some (worstIdx, worst) =>
            if candidate.distanceKey < worst.distanceKey then
              replaceAt candidates worstIdx idx candidate
            else candidates

/-- The candidates are the best that were offered, in order of destination. -/
structure BestCandidates (width : Nat) (offered : UInt32 → WithTop F32)
    (candidates : List ViewLuneCandidate) : Prop where
  sorted : SortedBy ViewLuneCandidate.dst candidates
  best : BestEntries width offered (candidates.map ViewLuneCandidate.entry)
  number : ∀ candidate ∈ candidates, candidate.dist2.isNaN = false

section

variable {width idx : Nat} {offered : UInt32 → WithTop F32} {candidates : List ViewLuneCandidate}
  {candidate : ViewLuneCandidate}

theorem entryKey_candidate (candidate : ViewLuneCandidate) :
    entryKey candidate.entry = candidate.distanceKey := rfl

theorem map_entry_fst (candidates : List ViewLuneCandidate) :
    (candidates.map ViewLuneCandidate.entry).map Prod.fst =
      candidates.map ViewLuneCandidate.dst :=
  List.map_map

theorem sortByDistance_perm (candidates : List ViewLuneCandidate) :
    (sortByDistance candidates).Perm candidates :=
  List.perm_insertionSort _ candidates

theorem sortByDistance_pairwise (candidates : List ViewLuneCandidate) :
    (sortByDistance candidates).Pairwise fun a b => a.distanceKey ≤ b.distanceKey := by
  have : Std.Total fun a b : ViewLuneCandidate => a.distanceKey ≤ b.distanceKey :=
    ⟨fun a b => le_total a.distanceKey b.distanceKey⟩
  have : IsTrans ViewLuneCandidate fun a b => a.distanceKey ≤ b.distanceKey :=
    ⟨fun _ _ _ => le_trans⟩
  exact List.pairwise_insertionSort _ candidates

/-- Sorting forgets the order. -/
theorem sortByDistance_congr {other : List ViewLuneCandidate} (h : candidates.Perm other) :
    sortByDistance candidates = sortByDistance other := by
  apply List.Perm.eq_of_pairwise _ (sortByDistance_pairwise _) (sortByDistance_pairwise _)
    ((sortByDistance_perm _).trans (h.trans (sortByDistance_perm _).symm))
  intro a b _ _ hab hba
  have hkey : a.entry = b.entry := entryKey_inj (le_antisymm hab hba)
  obtain ⟨hdst, hdist⟩ := Prod.mk.inj hkey
  cases a
  cases b
  exact congrArg₂ ViewLuneCandidate.mk hdst hdist

theorem BestCandidates.nil (width : Nat) : BestCandidates width ⊤ [] where
  sorted := .nil
  best := .nil width
  number _ h := by cases h

theorem improveAt_eq_set {existing : ViewLuneCandidate} (h : candidates[idx]? = some existing)
    (dist2 : F32) : improveAt candidates idx dist2 =
      candidates.set idx { existing with dist2 := existing.dist2.min dist2 } := by
  obtain ⟨hlt, rfl⟩ := List.getElem?_eq_some_iff.mp h
  rw [improveAt, List.modify_eq_take_cons_drop hlt, List.set_eq_take_append_cons_drop, if_pos hlt]

/-- With one more candidate, the best are kept again. -/
theorem BestCandidates.keep (h : BestCandidates width offered candidates)
    (hnumber : candidate.dist2.isNaN = false) :
    BestCandidates width (offered ⊓ lowest [candidate.entry])
      (keepCandidate width candidates candidate) := by
  rw [keepCandidate]
  cases hsearch : binarySearchByKey ViewLuneCandidate.dst candidates candidate.dst with
  | ok idx =>
      obtain ⟨existing, hidx, hdst⟩ := key_of_binarySearch_ok hsearch
      obtain ⟨rest, hperm, -, hset⟩ := set_perm hidx
      have hold := h.number existing (List.mem_of_getElem? hidx)
      have hkept : (candidates.map ViewLuneCandidate.entry).Perm
          ((candidate.dst, existing.dist2) :: rest.map ViewLuneCandidate.entry) := by
        rw [← hdst]
        exact hperm.map _
      have hbest := h.best.improve (v := candidate.dist2) hkept
      dsimp only
      rw [improveAt_eq_set hidx, F32.min_of_numbers hold hnumber]
      constructor
      · exact h.sorted.set hidx rfl
      · refine hbest.perm ?_
        have hmap := ((hset { existing with dist2 := existing.dist2 ⊓ candidate.dist2 }).map
          ViewLuneCandidate.entry).symm
        rw [← hdst]
        exact hmap
      · intro c hc
        rcases List.mem_cons.mp ((hset _).mem_iff.mp hc) with rfl | hc
        · exact F32.isNaN_inf hold hnumber
        · exact h.number c (hperm.mem_iff.mpr (List.mem_cons_of_mem _ hc))
  | error idx =>
      obtain ⟨hidx, hbefore, hbehind⟩ := split_of_binarySearch_error h.sorted hsearch
      have hkey : candidate.dst ∉ (candidates.map ViewLuneCandidate.entry).map Prod.fst := by
        rw [map_entry_fst]
        exact not_mem_of_binarySearch_error h.sorted hsearch
      dsimp only
      split_ifs with hroom
      · have hinsert := insertAt_perm candidates idx candidate
        refine ⟨h.sorted.insertAt hbefore hbehind, ?_, fun c hc => ?_⟩
        · exact (h.best.insert hkey (by rwa [List.length_map])).perm (hinsert.map ViewLuneCandidate.entry).symm
        · rcases List.mem_cons.mp (hinsert.mem_iff.mp hc) with rfl | hc
          · exact hnumber
          · exact h.number c hc
      · have hle := h.best.length_le
        rw [List.length_map] at hle
        have hfull : (candidates.map ViewLuneCandidate.entry).length = width := by
          rw [List.length_map]
          omega
        cases hmax : maxByKey ViewLuneCandidate.distanceKey candidates with
        | none =>
            refine ⟨h.sorted, h.best.reject hkey (fun e he => ?_) hfull, h.number⟩
            rw [maxByKey_eq_none hmax] at he
            cases he
        | some found =>
            obtain ⟨worstIdx, worst⟩ := found
            obtain ⟨hworst, hgreatest⟩ := maxByKey_spec hmax
            have hlast : ∀ e ∈ candidates.map ViewLuneCandidate.entry,
                entryKey e ≤ entryKey worst.entry := by
              intro e he
              obtain ⟨c, hc, rfl⟩ := List.mem_map.mp he
              exact hgreatest c hc
            dsimp only
            split_ifs with hlt
            · obtain ⟨rest, hperm, herase, -⟩ := set_perm hworst
              have hreplace : (replaceAt candidates worstIdx idx candidate).Perm
                  (candidate :: rest) := by
                rw [replaceAt, herase]
                exact insertAt_perm ..
              refine ⟨?_, ?_, fun c hc => ?_⟩
              · apply (h.sorted.eraseIdx worstIdx).insertAt
                · exact fun b hb => hbefore b ((split_eraseIdx hidx).1 hb)
                · exact fun b hb => hbehind b ((split_eraseIdx hidx).2 hb)
              · exact (h.best.replace hkey (hperm.map _) hlast hfull hlt).perm
                  (hreplace.map ViewLuneCandidate.entry).symm
              · rcases List.mem_cons.mp (hreplace.mem_iff.mp hc) with rfl | hc
                · exact hnumber
                · exact h.number c (hperm.mem_iff.mpr (List.mem_cons_of_mem _ hc))
            · refine ⟨h.sorted, h.best.reject hkey (fun e he => ?_) hfull, h.number⟩
              exact (hlast e he).trans (not_lt.mp hlt)

end

end ForgeANN
