-- SUMMARY: What the operations on a row do to its candidates, and the rows on which a write is well placed.
import ForgeANN.ViewLune.RowWitnesses

/-!
# The candidates of a row

While a row's candidates are in order of destination, what an insertion does
depends on the candidates only: the remembered index of the farthest candidate
is the one that a new search would find.
-/
namespace ForgeANN

open Lib

/-- The index of the farthest candidate, where a `u16` can hold it. -/
def farthestIdx (candidates : List ViewLuneCandidate) : Option Nat :=
  rememberedIdx (worstIdxOf candidates) candidates.length

/-- What inserting a candidate does: to the candidates, whether one had to go, and whose
witnesses go with it. -/
def placeCandidate (capacity : Nat) (candidates : List ViewLuneCandidate)
    (candidate : ViewLuneCandidate) : List ViewLuneCandidate × Bool × Option UInt32 :=
  if capacity = 0 then (candidates, false, some candidate.dst)
  else
    match binarySearchByKey ViewLuneCandidate.dst candidates candidate.dst with
    | .ok idx => (improveAt candidates idx candidate.dist2, false, none)
    | .error idx =>
        if candidates.length < capacity then (insertAt candidates idx candidate, false, none)
        else
          match (farthestIdx candidates).bind fun i => candidates[i]?.map fun c => (i, c) with
          | none => (candidates, false, none)
          | some (worstIdx, worst) =>
              if candidate.distanceKey < worst.distanceKey then
                (replaceAt candidates worstIdx idx candidate, true, some worst.dst)
              else (candidates, true, some candidate.dst)

section

variable {candidates : List ViewLuneCandidate} {candidate existing : ViewLuneCandidate}
  {capacity idx worstIdx : Nat} {dist2 : F32}

theorem maxByKey_of_farthestIdx (h : farthestIdx candidates = some worstIdx) :
    ∃ worst, maxByKey ViewLuneCandidate.distanceKey candidates = some (worstIdx, worst) := by
  rw [farthestIdx, worstIdxOf] at h
  cases hmax : maxByKey ViewLuneCandidate.distanceKey candidates with
  | none =>
      rw [hmax, rememberedIdx, if_neg fun hne => hne.1 rfl] at h
      cases h
  | some found =>
      rw [hmax, rememberedIdx] at h
      dsimp only at h
      split_ifs at h with hvalid
      obtain ⟨hne, -⟩ := hvalid
      rw [candidateIdx] at h hne
      split_ifs at h hne with hsmall
      · exact ⟨found.2, by rw [← Option.some.inj h]⟩
      · exact absurd rfl hne

/-- Of candidates in order of destination one is farthest. -/
theorem distanceKey_lt_farthest (hsorted : SortedBy ViewLuneCandidate.dst candidates)
    {worst : ViewLuneCandidate}
    (hmax : maxByKey ViewLuneCandidate.distanceKey candidates = some (worstIdx, worst)) {j : Nat}
    (hj : candidates[j]? = some candidate) (hne : j ≠ worstIdx) :
    candidate.distanceKey < worst.distanceKey := by
  obtain ⟨hworst, hgreatest⟩ := maxByKey_spec hmax
  apply lt_of_le_of_ne (hgreatest candidate (List.mem_of_getElem? hj))
  intro heq
  have hdst : candidate.dst = worst.dst := congrArg (fun key => (ofLex key).2) heq
  rcases lt_or_gt_of_ne hne with hlt | hlt
  · exact absurd hdst (hsorted.getElem_lt hj hworst hlt).ne
  · exact absurd hdst.symm (hsorted.getElem_lt hworst hj hlt).ne

/-- A candidate that is not the farthest does not become it by coming nearer. -/
theorem farthestIdx_improveAt (hsorted : SortedBy ViewLuneCandidate.dst candidates)
    (hidx : candidates[idx]? = some existing) (hold : existing.dist2.isNaN = false)
    (hnew : dist2.isNaN = false) (hfar : farthestIdx candidates = some worstIdx)
    (hne : worstIdx ≠ idx) : farthestIdx (improveAt candidates idx dist2) = some worstIdx := by
  obtain ⟨worst, hmax⟩ := maxByKey_of_farthestIdx hfar
  have hset := improveAt_eq_set hidx dist2
  have hlen : (improveAt candidates idx dist2).length = candidates.length := by
    rw [hset, List.length_set]
  have hmax' : maxByKey ViewLuneCandidate.distanceKey (improveAt candidates idx dist2) =
      some (worstIdx, worst) := by
    rw [hset, F32.min_of_numbers hold hnew]
    apply maxByKey_eq_of_lt
    · rw [List.getElem?_set_ne hne.symm]
      exact (maxByKey_spec hmax).1
    · intro j other hj hjne
      rcases eq_or_ne idx j with rfl | hij
      · rw [List.getElem?_set_self (List.getElem?_eq_some_iff.mp hidx).1] at hj
        have hle : other.distanceKey ≤ existing.distanceKey := by
          rw [← Option.some.inj hj]
          exact entryKey_le_of_value_le inf_le_left
        exact lt_of_le_of_lt hle (distanceKey_lt_farthest hsorted hmax hidx hjne)
      · rw [List.getElem?_set_ne hij] at hj
        exact distanceKey_lt_farthest hsorted hmax hj hjne
  rw [← hfar, farthestIdx, farthestIdx, worstIdxOf, worstIdxOf, hmax, hmax', hlen]

/-- An insertion keeps the candidates in order. -/
theorem placeCandidate_sorted (hsorted : SortedBy ViewLuneCandidate.dst candidates)
    (candidate : ViewLuneCandidate) (capacity : Nat) :
    SortedBy ViewLuneCandidate.dst (placeCandidate capacity candidates candidate).1 := by
  rw [placeCandidate]
  by_cases hzero : capacity = 0
  · rw [if_pos hzero]
    exact hsorted
  · rw [if_neg hzero]
    cases hsearch : binarySearchByKey ViewLuneCandidate.dst candidates candidate.dst with
    | ok idx =>
        obtain ⟨existing, hidx, -⟩ := key_of_binarySearch_ok hsearch
        dsimp only
        rw [improveAt_eq_set hidx]
        exact hsorted.set hidx rfl
    | error idx =>
        obtain ⟨hidx, hbefore, hbehind⟩ := split_of_binarySearch_error hsorted hsearch
        dsimp only
        split_ifs with hroom
        · exact hsorted.insertAt hbefore hbehind
        · split
          · exact hsorted
          · split_ifs
            · apply (hsorted.eraseIdx _).insertAt
              · exact fun b hb => hbefore b ((split_eraseIdx hidx).1 hb)
              · exact fun b hb => hbehind b ((split_eraseIdx hidx).2 hb)
            · exact hsorted

/-- An insertion keeps the distances numbers. -/
theorem placeCandidate_number (h : ∀ c ∈ candidates, c.dist2.isNaN = false)
    (hnew : candidate.dist2.isNaN = false) (capacity : Nat) :
    ∀ c ∈ (placeCandidate capacity candidates candidate).1, c.dist2.isNaN = false := by
  rw [placeCandidate]
  by_cases hzero : capacity = 0
  · rw [if_pos hzero]
    exact h
  · rw [if_neg hzero]
    have hinsert : ∀ (l : List ViewLuneCandidate) (i : Nat), (∀ c ∈ l, c ∈ candidates) →
        ∀ c ∈ insertAt l i candidate, c.dist2.isNaN = false := by
      intro l i hl c hc
      rcases List.mem_cons.mp ((insertAt_perm ..).mem_iff.mp hc) with rfl | hc
      · exact hnew
      · exact h c (hl c hc)
    cases hsearch : binarySearchByKey ViewLuneCandidate.dst candidates candidate.dst with
    | ok idx =>
        obtain ⟨existing, hidx, -⟩ := key_of_binarySearch_ok hsearch
        have hold := h existing (List.mem_of_getElem? hidx)
        dsimp only
        rw [improveAt_eq_set hidx, F32.min_of_numbers hold hnew]
        intro c hc
        rcases List.mem_or_eq_of_mem_set hc with hc | rfl
        · exact h c hc
        · exact F32.isNaN_inf hold hnew
    | error idx =>
        dsimp only
        split_ifs with hroom
        · exact hinsert candidates idx fun _ hc => hc
        · split
          · exact h
          · split_ifs
            · exact hinsert _ _ fun _ hc => List.mem_of_mem_eraseIdx hc
            · exact h

end

namespace RuntimeViewLuneRow

/-- The row without the witnesses of a victim. -/
def dropWitnesses (row : RuntimeViewLuneRow) : Option UInt32 → RuntimeViewLuneRow
  | none => row
  | some victim => (row.removeWitnessRow victim).1

/-- What is remembered of the farthest candidate is right. -/
structure Remembers (row : RuntimeViewLuneRow) : Prop where
  worst : row.candidateWorstIndex = none ∨ row.candidateWorstIndex = farthestIdx row.candidates
  number : ∀ candidate ∈ row.candidates, candidate.dist2.isNaN = false

section

variable {row : RuntimeViewLuneRow} {candidate existing : ViewLuneCandidate} {capacity idx : Nat}
  {victim : UInt32}

theorem removeWitnessRow_candidates (row : RuntimeViewLuneRow) (victim : UInt32) :
    (row.removeWitnessRow victim).1.candidates = row.candidates ∧
      (row.removeWitnessRow victim).1.candidateWorstIdx = row.candidateWorstIdx ∧
      (row.removeWitnessRow victim).1.witnessOverflow = row.witnessOverflow := by
  rw [removeWitnessRow]
  cases binarySearchByKey ViewLuneVictimWitnesses.victim row.witnessRows victim with
  | ok idx => exact ⟨rfl, rfl, rfl⟩
  | error idx => exact ⟨rfl, rfl, rfl⟩

/-- What is removed depends on the victims' records only. -/
theorem removeWitnessRow_congr {other : RuntimeViewLuneRow}
    (h : row.witnessRows = other.witnessRows) (victim : UInt32) :
    (row.removeWitnessRow victim).1.witnessRows = (other.removeWitnessRow victim).1.witnessRows ∧
      (row.removeWitnessRow victim).2 = (other.removeWitnessRow victim).2 := by
  rw [removeWitnessRow, removeWitnessRow, h]
  cases binarySearchByKey ViewLuneVictimWitnesses.victim other.witnessRows victim with
  | ok idx => exact ⟨rfl, rfl⟩
  | error idx => exact ⟨h, rfl⟩

theorem recompute_worst (row : RuntimeViewLuneRow) :
    row.recomputeCandidateWorst.candidateWorstIndex = farthestIdx row.candidates := rfl

theorem Remembers.current (h : row.Remembers) :
    (row.currentCandidateWorstIndex).2 = farthestIdx row.candidates := by
  rw [currentCandidateWorstIndex]
  dsimp only
  split_ifs with hnone
  · exact recompute_worst row
  · exact h.worst.resolve_left hnone

theorem currentCandidateWorstIndex_row (row : RuntimeViewLuneRow) :
    (row.currentCandidateWorstIndex).1.candidates = row.candidates ∧
      (row.currentCandidateWorstIndex).1.witnessRows = row.witnessRows ∧
      (row.currentCandidateWorstIndex).1.witnessOverflow = row.witnessOverflow := by
  rw [currentCandidateWorstIndex]
  dsimp only
  split_ifs
  · exact ⟨rfl, rfl, rfl⟩
  · exact ⟨rfl, rfl, rfl⟩

/-- What an insertion does, told by the candidates. -/
theorem insertCandidate_spec (h : row.Remembers) (candidate : ViewLuneCandidate)
    (capacity : Nat) :
    let placed := placeCandidate capacity row.candidates candidate
    let outcome := row.insertCandidate candidate capacity
    outcome.1.candidates = placed.1 ∧ outcome.2.1 = placed.2.1 ∧
      outcome.1.witnessRows = (row.dropWitnesses placed.2.2).witnessRows ∧
      outcome.1.witnessOverflow = row.witnessOverflow := by
  dsimp only
  rw [placeCandidate, insertCandidate]
  by_cases hzero : capacity = 0
  · obtain ⟨hcandidates, -, hoverflow⟩ := removeWitnessRow_candidates row candidate.dst
    rw [if_pos hzero, if_pos hzero]
    exact ⟨hcandidates, rfl, rfl, hoverflow⟩
  · rw [if_neg hzero, if_neg hzero]
    cases binarySearchByKey ViewLuneCandidate.dst row.candidates candidate.dst with
    | ok idx =>
        dsimp only
        split_ifs
        · exact ⟨rfl, rfl, rfl, rfl⟩
        · exact ⟨rfl, rfl, rfl, rfl⟩
    | error idx =>
        dsimp only
        by_cases hroom : row.candidates.length < capacity
        · rw [if_pos hroom, if_pos hroom]
          exact ⟨rfl, rfl, rfl, rfl⟩
        · rw [if_neg hroom, if_neg hroom]
          obtain ⟨hcandidates, hrows, hoverflow⟩ := currentCandidateWorstIndex_row row
          rw [h.current, hcandidates]
          cases farthestIdx row.candidates with
          | none => exact ⟨hcandidates, rfl, hrows, hoverflow⟩
          | some worstIdx =>
              rw [Option.bind_some]
              dsimp only
              cases row.candidates[worstIdx]? with
              | none => exact ⟨hcandidates, rfl, hrows, hoverflow⟩
              | some worst =>
                  rw [Option.map_some]
                  dsimp only
                  split_ifs with hlt
                  · obtain ⟨hkept, -, hover⟩ := removeWitnessRow_candidates
                      row.currentCandidateWorstIndex.1 worst.dst
                    exact ⟨rfl, rfl, (removeWitnessRow_congr hrows worst.dst).1,
                      hover.trans hoverflow⟩
                  · obtain ⟨hkept, -, hover⟩ := removeWitnessRow_candidates
                      row.currentCandidateWorstIndex.1 candidate.dst
                    exact ⟨hkept.trans hcandidates, rfl,
                      (removeWitnessRow_congr hrows candidate.dst).1, hover.trans hoverflow⟩

theorem Remembers.recompute (h : ∀ candidate ∈ row.candidates, candidate.dist2.isNaN = false) :
    row.recomputeCandidateWorst.Remembers := ⟨.inr rfl, h⟩

theorem Remembers.congr {next : RuntimeViewLuneRow} (h : row.Remembers)
    (hcandidates : next.candidates = row.candidates)
    (hworst : next.candidateWorstIdx = row.candidateWorstIdx) : next.Remembers := by
  have hindex : next.candidateWorstIndex = row.candidateWorstIndex := by
    rw [candidateWorstIndex, candidateWorstIndex, hcandidates, hworst]
  constructor
  · rw [hindex, hcandidates]
    exact h.worst
  · rw [hcandidates]
    exact h.number

theorem Remembers.current_row (h : row.Remembers) : (row.currentCandidateWorstIndex).1.Remembers := by
  rw [currentCandidateWorstIndex]
  dsimp only
  split_ifs
  · exact .recompute h.number
  · exact h

/-- What is remembered stays right. -/
theorem Remembers.insert (h : row.Remembers)
    (hsorted : SortedBy ViewLuneCandidate.dst row.candidates)
    (hnew : candidate.dist2.isNaN = false) (capacity : Nat) :
    (row.insertCandidate candidate capacity).1.Remembers := by
  have hnumber := placeCandidate_number h.number hnew capacity
  rw [← (insertCandidate_spec h candidate capacity).1] at hnumber
  refine ⟨?_, hnumber⟩
  clear hnumber
  rw [insertCandidate]
  by_cases hzero : capacity = 0
  · rw [if_pos hzero]
    obtain ⟨hcandidates, hworst, -⟩ := removeWitnessRow_candidates row candidate.dst
    exact (h.congr hcandidates hworst).worst
  · rw [if_neg hzero]
    cases hsearch : binarySearchByKey ViewLuneCandidate.dst row.candidates candidate.dst with
    | ok idx =>
        obtain ⟨existing, hidx, -⟩ := key_of_binarySearch_ok hsearch
        have hset := improveAt_eq_set hidx candidate.dist2
        dsimp only
        split_ifs with hworst
        · exact .inr rfl
        · rw [candidateWorstIndex] at hworst ⊢
          dsimp only at hworst ⊢
          have hlen : (improveAt row.candidates idx candidate.dist2).length =
              row.candidates.length := by rw [hset, List.length_set]
          rw [hlen] at hworst ⊢
          rcases h.worst with hnone | hfar
          · exact .inl hnone
          · rw [candidateWorstIndex] at hfar
            rw [hfar] at hworst ⊢
            cases hf : farthestIdx row.candidates with
            | none => exact .inl rfl
            | some worstIdx =>
                rw [hf] at hworst
                right
                exact (farthestIdx_improveAt hsorted hidx
                  (h.number existing (List.mem_of_getElem? hidx)) hnew hf
                  fun heq => hworst (congrArg some heq)).symm
    | error idx =>
        dsimp only
        split_ifs with hroom
        · exact .inr rfl
        · split
          · exact h.current_row.worst
          · split
            · exact h.current_row.worst
            · split_ifs
              · exact .inr rfl
              · obtain ⟨hcandidates, hworst, -⟩ := removeWitnessRow_candidates
                  row.currentCandidateWorstIndex.1 candidate.dst
                exact (h.current_row.congr hcandidates hworst).worst

end
end RuntimeViewLuneRow
end ForgeANN
