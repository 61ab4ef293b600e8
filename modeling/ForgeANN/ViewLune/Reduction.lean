-- SUMMARY: Why a reduced row is what it is: kept candidates, and for each one skipped a witness already kept.
import ForgeANN.ViewLune.Maintenance

/-!
# Reduced rows

Reduction goes through the candidates twice, nearest first. The first pass keeps
the core and every candidate without a witness among those kept before it; the
second one fills the row up with what the first skipped.
-/
namespace ForgeANN

open Lib

namespace RuntimeViewLuneRow

/-- The ids the first pass keeps; a row that is not too long is kept as it is. -/
def firstPass (options : ViewLunePruneOptions) (row : RuntimeViewLuneRow) : List UInt32 :=
  if row.candidates.length ≤ options.maxDegree then
    (sortByDistance row.candidates).map ViewLuneCandidate.dst
  else
    (selectCandidates options row.hasSelectedWitness (sortByDistance row.candidates) [] 0).1

/-- The row retains this witness for the victim. -/
def Retains (row : RuntimeViewLuneRow) (victim : UInt32) (witness : RuntimeLuneWitness) : Prop :=
  ∃ victimRow ∈ row.witnessRows, victimRow.victim = victim ∧
    witness ∈ victimRow.asSlice row.witnessOverflow

theorem exists_retained {row : RuntimeViewLuneRow} {victim : UInt32} {selected : List UInt32}
    (h : row.hasSelectedWitness victim selected = true) :
    ∃ witness, row.Retains victim witness ∧ witness.pivot ∈ selected := by
  unfold hasSelectedWitness at h
  cases hsearch : binarySearchByKey ViewLuneVictimWitnesses.victim row.witnessRows victim with
  | error idx => simp [hsearch] at h
  | ok idx =>
      obtain ⟨victimRow, hrow, hvictim⟩ := key_of_binarySearch_ok hsearch
      simp only [hsearch, hrow] at h
      obtain ⟨witness, hwitness, hpivot⟩ := List.any_eq_true.mp h
      exact ⟨witness, ⟨victimRow, List.mem_of_getElem? hrow, hvictim, hwitness⟩,
        of_decide_eq_true hpivot⟩

/-! ## The first pass -/

section

variable {options : ViewLunePruneOptions} {witnessed : UInt32 → List UInt32 → Bool}
  {candidates passed left kept : List ViewLuneCandidate} {candidate : ViewLuneCandidate}
  {selected : List UInt32} {skipped : Nat}

/-- The first pass got through `passed`, with `left` not looked at, and kept `kept`. -/
structure Kept (options : ViewLunePruneOptions) (witnessed : UInt32 → List UInt32 → Bool)
    (selected : List UInt32) (passed left kept : List ViewLuneCandidate) : Prop where
  sublist : kept.Sublist passed
  distinct : selected.Nodup → (selected ++ kept.map ViewLuneCandidate.dst).Nodup
  core : ∀ c ∈ (passed ++ left).take (options.nearestCore - selected.length),
    c.dst ∈ selected ++ kept.map ViewLuneCandidate.dst
  length_le : (selected ++ kept.map ViewLuneCandidate.dst).length ≤ options.maxDegree
  ended : left = [] ∨ (selected ++ kept.map ViewLuneCandidate.dst).length = options.maxDegree
  /-- A candidate is skipped for a witness among those kept before it. -/
  skipped : ∀ c ∈ passed, c.dst ∉ selected ++ kept.map ViewLuneCandidate.dst →
    ∃ before after earlier, passed = before ++ c :: after ∧
      earlier.Sublist before ∧ earlier <+: kept ∧
      witnessed c.dst (selected ++ earlier.map ViewLuneCandidate.dst) = true

theorem Kept.keep (hnew : candidate.dst ∉ selected)
    (h : Kept options witnessed (selected ++ [candidate.dst]) passed left kept) :
    Kept options witnessed selected (candidate :: passed) left (candidate :: kept) := by
  have hids : selected ++ (candidate :: kept).map ViewLuneCandidate.dst =
      (selected ++ [candidate.dst]) ++ kept.map ViewLuneCandidate.dst := by
    rw [List.map_cons, List.append_assoc, List.singleton_append]
  constructor
  · exact h.sublist.cons_cons candidate
  · intro hselected
    rw [hids]
    exact h.distinct (List.nodup_append.mpr ⟨hselected, List.nodup_singleton _, fun a ha b hb heq =>
      hnew (List.mem_singleton.mp hb ▸ heq ▸ ha)⟩)
  · intro c hc
    rw [hids]
    cases hcore : options.nearestCore - selected.length with
    | zero =>
        rw [hcore] at hc
        cases hc
    | succ n =>
        have hn : n = options.nearestCore - (selected ++ [candidate.dst]).length := by
          rw [List.length_append, List.length_singleton]
          omega
        rw [hcore, List.cons_append, List.take_succ_cons, hn] at hc
        rcases List.mem_cons.mp hc with rfl | hc
        · exact List.mem_append_left _ (List.mem_append_right _ (List.mem_singleton_self _))
        · exact h.core c hc
  · rw [hids]
    exact h.length_le
  · rw [hids]
    exact h.ended
  · intro c hc hout
    rw [hids] at hout
    have hin : c ∈ passed := by
      refine (List.mem_cons.mp hc).resolve_left fun heq => hout ?_
      rw [heq]
      exact List.mem_append_left _ (List.mem_append_right _ (List.mem_singleton_self _))
    obtain ⟨before, after, earlier, rfl, hsub, hpre, hwitness⟩ := h.skipped c hin hout
    refine ⟨candidate :: before, after, candidate :: earlier, rfl, hsub.cons_cons _, ?_, ?_⟩
    · exact List.cons_prefix_cons.mpr ⟨rfl, hpre⟩
    · rwa [List.append_assoc, List.singleton_append] at hwitness

theorem Kept.skip (hcore : options.nearestCore ≤ selected.length)
    (hwitness : witnessed candidate.dst selected = true)
    (h : Kept options witnessed selected passed left kept) :
    Kept options witnessed selected (candidate :: passed) left kept where
  sublist := h.sublist.cons candidate
  distinct := h.distinct
  core c hc := by
    rw [Nat.sub_eq_zero_of_le hcore] at hc
    cases hc
  length_le := h.length_le
  ended := h.ended
  skipped c hc hout := by
    rcases List.mem_cons.mp hc with rfl | hin
    · refine ⟨[], passed, [], rfl, .slnil, List.nil_prefix, ?_⟩
      rwa [List.map_nil, List.append_nil]
    · obtain ⟨before, after, earlier, rfl, hsub, hpre, hwitness⟩ := h.skipped c hin hout
      exact ⟨candidate :: before, after, earlier, rfl, hsub.cons candidate, hpre, hwitness⟩

/-- A candidate whose id was selected already is passed over. -/
theorem Kept.again (hin : candidate.dst ∈ selected)
    (h : Kept options witnessed selected passed left kept) :
    Kept options witnessed selected (candidate :: passed) left kept where
  sublist := h.sublist.cons candidate
  distinct := h.distinct
  core c hc := by
    cases hn : options.nearestCore - selected.length with
    | zero =>
        rw [hn] at hc
        cases hc
    | succ n =>
        rw [hn, List.cons_append, List.take_succ_cons] at hc
        rcases List.mem_cons.mp hc with rfl | hc
        · exact List.mem_append_left _ hin
        · apply h.core c
          rw [hn]
          exact (List.take_sublist_take_left (Nat.le_succ n)).subset hc
  length_le := h.length_le
  ended := h.ended
  skipped c hc hout := by
    have hne : c ≠ candidate := fun heq => hout (List.mem_append_left _ (heq ▸ hin))
    obtain ⟨before, after, earlier, rfl, hsub, hpre, hwitness⟩ :=
      h.skipped c ((List.mem_cons.mp hc).resolve_left hne) hout
    exact ⟨candidate :: before, after, earlier, rfl, hsub.cons candidate, hpre, hwitness⟩

/-- There is nothing left to look at. -/
theorem kept_nil (hle : selected.length ≤ options.maxDegree) (left : List ViewLuneCandidate)
    (hended : left = [] ∨ selected.length = options.maxDegree) :
    Kept options witnessed selected [] left [] := by
  have hids : selected ++ ([] : List ViewLuneCandidate).map ViewLuneCandidate.dst = selected :=
    List.append_nil selected
  refine ⟨.slnil, fun hselected => by rwa [hids], fun c hc => ?_, by rwa [hids], by rwa [hids],
    fun c hc => absurd hc List.not_mem_nil⟩
  rcases hended with rfl | hfull
  · rw [List.append_nil, List.take_nil] at hc
    cases hc
  · rw [Nat.sub_eq_zero_of_le (hfull ▸ options.nearestCore_le)] at hc
    cases hc

theorem selectCandidates_spec (hroom : selected.length < options.maxDegree) :
    ∃ passed left kept, candidates = passed ++ left ∧
      Kept options witnessed selected passed left kept ∧
      (selectCandidates options witnessed candidates selected skipped).1 =
        selected ++ kept.map ViewLuneCandidate.dst := by
  induction candidates generalizing selected skipped with
  | nil =>
      refine ⟨[], [], [], rfl, kept_nil hroom.le [] (.inl rfl), ?_⟩
      rw [selectCandidates, List.map_nil, List.append_nil]
  | cons candidate candidates ih =>
      -- the candidate is kept, as the last one or not
      have hkeep : candidate.dst ∉ selected → ∀ skipped,
          ∃ passed left kept, candidate :: candidates = passed ++ left ∧
          Kept options witnessed selected passed left kept ∧
          (if (selected ++ [candidate.dst]).length = options.maxDegree then
            (selected ++ [candidate.dst], skipped)
          else selectCandidates options witnessed candidates (selected ++ [candidate.dst]) skipped).1 =
            selected ++ kept.map ViewLuneCandidate.dst := by
        intro hnew skipped
        split_ifs with hfull
        · exact ⟨[candidate], candidates, [candidate], rfl,
            (kept_nil hfull.le candidates (.inr hfull)).keep hnew, rfl⟩
        · have hroom' : (selected ++ [candidate.dst]).length < options.maxDegree := by
            rw [List.length_append, List.length_singleton] at hfull ⊢
            omega
          obtain ⟨passed, left, kept, rfl, hkept, heq⟩ := @ih _ skipped hroom'
          refine ⟨candidate :: passed, left, candidate :: kept, rfl, hkept.keep hnew, ?_⟩
          rw [heq, List.append_assoc, List.singleton_append, List.map_cons]
      rw [selectCandidates]
      by_cases hin : candidate.dst ∈ selected
      · obtain ⟨passed, left, kept, rfl, hkept, heq⟩ := @ih _ skipped hroom
        rw [if_pos hin]
        exact ⟨candidate :: passed, left, kept, rfl, hkept.again hin, heq⟩
      rw [if_neg hin]
      by_cases hcore : selected.length < options.nearestCore
      · simp only [if_pos hcore]
        exact hkeep hin skipped
      simp only [if_neg hcore]
      by_cases hwitness : witnessed candidate.dst selected = true
      · simp only [if_pos hwitness, if_neg hroom.ne]
        obtain ⟨passed, left, kept, rfl, hkept, heq⟩ := @ih _ (skipped + 1) hroom
        exact ⟨candidate :: passed, left, kept, rfl, hkept.skip (not_lt.mp hcore) hwitness, heq⟩
      · simp only [if_neg hwitness]
        exact hkeep hin skipped

/-! ## The refill -/

/-- What the second pass adds: further ids, as long as there is room. -/
structure Filled (maxDegree : Nat) (candidates : List ViewLuneCandidate) (selected : List UInt32)
    (refill : List ViewLuneCandidate) : Prop where
  sublist : refill.Sublist candidates
  distinct : selected.Nodup → (selected ++ refill.map ViewLuneCandidate.dst).Nodup
  length_le : (selected ++ refill.map ViewLuneCandidate.dst).length ≤ maxDegree
  /-- Whoever is still left out finds the row full. -/
  full : ∀ c ∈ candidates, c.dst ∉ selected ++ refill.map ViewLuneCandidate.dst →
    (selected ++ refill.map ViewLuneCandidate.dst).length = maxDegree

/-- Nothing is added, as there is no candidate or no room. -/
theorem filled_nil {maxDegree : Nat} (hle : selected.length ≤ maxDegree)
    (hfull : candidates = [] ∨ selected.length = maxDegree) :
    Filled maxDegree candidates selected [] := by
  have hids : selected ++ ([] : List ViewLuneCandidate).map ViewLuneCandidate.dst = selected :=
    List.append_nil selected
  refine ⟨List.nil_sublist _, fun hselected => by rwa [hids], by rwa [hids], fun c hc _ => ?_⟩
  rw [hids]
  rcases hfull with rfl | hfull
  · cases hc
  · exact hfull

theorem fillSelected_spec {maxDegree filled : Nat} (hroom : selected.length ≤ maxDegree) :
    ∃ refill, Filled maxDegree candidates selected refill ∧
      (fillSelected maxDegree candidates selected filled).1 =
        selected ++ refill.map ViewLuneCandidate.dst := by
  induction candidates generalizing selected filled with
  | nil =>
      refine ⟨[], filled_nil hroom (.inl rfl), ?_⟩
      rw [fillSelected, List.map_nil, List.append_nil]
  | cons candidate candidates ih =>
      rw [fillSelected]
      split_ifs with hfull hmem
      · exact ⟨[], filled_nil hroom (.inr hfull), (List.append_nil _).symm⟩
      · obtain ⟨refill, h, heq⟩ := @ih _ filled hroom
        refine ⟨refill, ⟨h.sublist.cons candidate, h.distinct, h.length_le, fun c hc hout => ?_⟩, heq⟩
        have hne : c ≠ candidate := fun heq => hout (List.mem_append_left _ (heq ▸ hmem))
        exact h.full c ((List.mem_cons.mp hc).resolve_left hne) hout
      · have hlt : (selected ++ [candidate.dst]).length ≤ maxDegree := by
          rw [List.length_append, List.length_singleton]
          omega
        obtain ⟨refill, h, heq⟩ := @ih _ (filled + 1) hlt
        have hids : selected ++ (candidate :: refill).map ViewLuneCandidate.dst =
            (selected ++ [candidate.dst]) ++ refill.map ViewLuneCandidate.dst := by
          rw [List.map_cons, List.append_assoc, List.singleton_append]
        refine ⟨candidate :: refill, ⟨h.sublist.cons_cons candidate, fun hselected => ?_, ?_,
          fun c hc hout => ?_⟩, heq.trans hids.symm⟩
        · rw [hids]
          exact h.distinct (List.nodup_append.mpr ⟨hselected, List.nodup_singleton _,
            fun a ha b hb heq => hmem (List.mem_singleton.mp hb ▸ heq ▸ ha)⟩)
        · rw [hids]
          exact h.length_le
        · rw [hids] at hout ⊢
          refine h.full c ((List.mem_cons.mp hc).resolve_left fun heq => hout ?_) hout
          rw [heq]
          exact List.mem_append_left _ (List.mem_append_right _ (List.mem_singleton_self _))

end

/-! ## The reduced row -/

/-- Why a row is reduced to these neighbors. -/
structure Reduced (options : ViewLunePruneOptions) (row : RuntimeViewLuneRow)
    (kept refill : List ViewLuneCandidate) (neighbors : List UInt32) : Prop where
  first : row.firstPass options = kept.map ViewLuneCandidate.dst
  layout : neighbors = (kept ++ refill).map ViewLuneCandidate.dst
  candidates : ∀ c ∈ kept ++ refill, c ∈ row.candidates
  kept_sorted : kept.Pairwise fun a b => a.distanceKey < b.distanceKey
  refill_sorted : refill.Pairwise fun a b => a.distanceKey < b.distanceKey
  distinct : neighbors.Nodup
  length_eq : neighbors.length = min options.maxDegree row.candidates.length
  /-- The nearest candidates are kept. -/
  core : ∀ c ∈ (sortByDistance row.candidates).take options.nearestCore,
    c.dst ∈ kept.map ViewLuneCandidate.dst
  /-- Whoever was passed over for a farther one has a witness that was already kept. -/
  justified : ∀ c ∈ row.candidates, c.dst ∉ kept.map ViewLuneCandidate.dst →
    (∃ k ∈ kept, c.distanceKey < k.distanceKey) →
    ∃ witness, row.Retains c.dst witness ∧
      ∃ pivot ∈ kept, pivot.dst = witness.pivot ∧ pivot.distanceKey < c.distanceKey

/-- How many different ids the candidates have. -/
def distinctIds (row : RuntimeViewLuneRow) : Nat :=
  (row.candidates.map ViewLuneCandidate.dst).dedup.length

section

variable {options : ViewLunePruneOptions} {row : RuntimeViewLuneRow}

theorem length_le_distinctIds {ids : List UInt32} (hdistinct : ids.Nodup)
    (hsub : ids ⊆ row.candidates.map ViewLuneCandidate.dst) : ids.length ≤ row.distinctIds :=
  (List.subperm_of_subset hdistinct fun _ h => List.mem_dedup.mpr (hsub h)).length_le

/-- Candidates in order of their distances, and of different ids, are strictly in order. -/
theorem strict_of_sublist {candidates : List ViewLuneCandidate}
    (hsub : candidates.Sublist (sortByDistance row.candidates))
    (hdistinct : (candidates.map ViewLuneCandidate.dst).Nodup) :
    candidates.Pairwise fun a b => a.distanceKey < b.distanceKey := by
  have hsorted := (sortByDistance_pairwise row.candidates).sublist hsub
  rw [List.Nodup, List.pairwise_map] at hdistinct
  refine (hsorted.and hdistinct).imp fun {a b} hab => ?_
  exact lt_of_le_of_ne hab.1 fun heq => hab.2 (Prod.mk.inj (toLex.injective heq)).2

/-- The witness of a candidate that was skipped, though a farther one was kept. -/
theorem Kept.justified {passed left kept : List ViewLuneCandidate} {c k : ViewLuneCandidate}
    (h : Kept options row.hasSelectedWitness [] passed left kept)
    (hsorted : (passed ++ left).Pairwise fun a b => a.distanceKey ≤ b.distanceKey)
    (hc : c ∈ passed ++ left) (hout : c.dst ∉ kept.map ViewLuneCandidate.dst) (hk : k ∈ kept)
    (hlt : c.distanceKey < k.distanceKey) :
    ∃ witness, row.Retains c.dst witness ∧
      ∃ pivot ∈ kept, pivot.dst = witness.pivot ∧ pivot.distanceKey < c.distanceKey := by
  obtain ⟨hpassed, -, hacross⟩ := List.pairwise_append.mp hsorted
  rcases List.mem_append.mp hc with hin | hin
  · obtain ⟨before, after, earlier, rfl, hsub, hpre, hwitness⟩ := h.skipped c hin hout
    obtain ⟨witness, hretains, hpivot⟩ := exists_retained hwitness
    rw [List.nil_append] at hpivot
    obtain ⟨pivot, hearlier, heq⟩ := List.mem_map.mp hpivot
    have hkept := hpre.subset hearlier
    refine ⟨witness, hretains, pivot, hkept, heq, ?_⟩
    have hle := (List.pairwise_append.mp hpassed).2.2 pivot (hsub.subset hearlier) c
      List.mem_cons_self
    refine lt_of_le_of_ne hle fun hkey => hout ?_
    rw [← (Prod.mk.inj (toLex.injective hkey)).2]
    exact List.mem_map_of_mem hkept
  · -- what was not looked at is not nearer than any that was kept
    exact absurd hlt (not_lt.mpr (hacross k (h.sublist.subset hk) c hin))

theorem reduceRow_neighbors (options : ViewLunePruneOptions) (row : RuntimeViewLuneRow)
    (baseRow : Option (List UInt32)) : (row.reduceRow options baseRow).2.neighbors =
      (rowOutput options row.hasSelectedWitness (sortByDistance row.candidates) baseRow).neighbors :=
  rfl

/-- A row that is not too long is its own reduction. -/
theorem reduced_of_short (hdistinct : (row.candidates.map ViewLuneCandidate.dst).Nodup)
    (hshort : row.candidates.length ≤ options.maxDegree) :
    Reduced options row (sortByDistance row.candidates) []
      ((sortByDistance row.candidates).map ViewLuneCandidate.dst) := by
  have hperm := sortByDistance_perm row.candidates
  have hids : ((sortByDistance row.candidates).map ViewLuneCandidate.dst).Nodup :=
    (hperm.map _).nodup_iff.mpr hdistinct
  exact {
    first := if_pos hshort
    layout := by rw [List.append_nil]
    candidates := fun c hc => hperm.mem_iff.mp (by rwa [List.append_nil] at hc)
    kept_sorted := strict_of_sublist (.refl _) hids
    refill_sorted := .nil
    distinct := hids
    length_eq := by rw [List.length_map, hperm.length_eq, Nat.min_eq_right hshort]
    core := fun c hc => List.mem_map_of_mem (List.mem_of_mem_take hc)
    justified := fun c hc hout => absurd (List.mem_map_of_mem (hperm.mem_iff.mpr hc)) hout }

/-- A longer one is what the first pass keeps, filled up with the nearest of the others. -/
theorem reduced_of_long {passed left kept refill : List ViewLuneCandidate}
    (hlong : ¬ row.candidates.length ≤ options.maxDegree)
    (henough : options.maxDegree ≤ row.distinctIds)
    (hsplit : sortByDistance row.candidates = passed ++ left)
    (hkept : Kept options row.hasSelectedWitness [] passed left kept)
    (hfirst : row.firstPass options = kept.map ViewLuneCandidate.dst)
    (hfilled : Filled options.maxDegree (sortByDistance row.candidates)
      (kept.map ViewLuneCandidate.dst) refill) :
    Reduced options row kept refill ((kept ++ refill).map ViewLuneCandidate.dst) := by
  have hperm := sortByDistance_perm row.candidates
  have hsub : kept.Sublist (sortByDistance row.candidates) := by
    rw [hsplit]
    exact hkept.sublist.trans (List.sublist_append_left _ _)
  have hkeptIds : (kept.map ViewLuneCandidate.dst).Nodup := hkept.distinct List.nodup_nil
  have hids := hfilled.distinct hkeptIds
  have hle := hfilled.length_le
  rw [← List.map_append] at hids hle
  have hrefillIds : (refill.map ViewLuneCandidate.dst).Nodup :=
    ((List.sublist_append_right kept refill).map _).nodup hids
  -- if no id is left out, all of them are there
  have hfull : ((kept ++ refill).map ViewLuneCandidate.dst).length = options.maxDegree := by
    refine Nat.le_antisymm hle ?_
    by_cases hall : ∃ c ∈ sortByDistance row.candidates,
        c.dst ∉ kept.map ViewLuneCandidate.dst ++ refill.map ViewLuneCandidate.dst
    · obtain ⟨c, hc, hout⟩ := hall
      rw [List.map_append]
      exact (hfilled.full c hc hout).ge
    · push Not at hall
      refine henough.trans (List.subperm_of_subset (List.nodup_dedup _) fun dst hdst => ?_).length_le
      obtain ⟨c, hc, rfl⟩ := List.mem_map.mp (List.mem_dedup.mp hdst)
      rw [List.map_append]
      exact hall c (hperm.mem_iff.mpr hc)
  exact {
    first := hfirst
    layout := rfl
    candidates := fun c hc => by
      rcases List.mem_append.mp hc with hc | hc
      · exact hperm.mem_iff.mp (hsub.subset hc)
      · exact hperm.mem_iff.mp (hfilled.sublist.subset hc)
    kept_sorted := strict_of_sublist hsub hkeptIds
    refill_sorted := strict_of_sublist hfilled.sublist hrefillIds
    distinct := hids
    length_eq := by rw [hfull, Nat.min_eq_left (Nat.le_of_not_le hlong)]
    core := by
      rw [hsplit]
      exact hkept.core
    justified := fun c hc hout hk => by
      obtain ⟨k, hk, hlt⟩ := hk
      have hsorted := sortByDistance_pairwise row.candidates
      rw [hsplit] at hsorted
      refine hkept.justified hsorted ?_ hout hk hlt
      rw [← hsplit]
      exact hperm.mem_iff.mpr hc }

/-- With enough ids in it, a row is reduced to as many as it can be. -/
theorem exists_reduced (baseRow : Option (List UInt32))
    (henough : min options.maxDegree row.candidates.length ≤ row.distinctIds) :
    ∃ kept refill, Reduced options row kept refill (row.reduceRow options baseRow).2.neighbors := by
  have hperm := sortByDistance_perm row.candidates
  rw [reduceRow_neighbors, rowOutput]
  by_cases hshort : row.candidates.length ≤ options.maxDegree
  · have hdistinct : (row.candidates.map ViewLuneCandidate.dst).Nodup := by
      rw [Nat.min_eq_right hshort] at henough
      have hsub := List.dedup_sublist (row.candidates.map ViewLuneCandidate.dst)
      have hsame := hsub.eq_of_length_le (by rwa [List.length_map])
      rw [← hsame]
      exact List.nodup_dedup _
    rw [if_pos (by rwa [hperm.length_eq])]
    exact ⟨_, _, reduced_of_short hdistinct hshort⟩
  rw [if_neg (by rwa [hperm.length_eq])]
  simp only
  rw [Nat.min_eq_left (Nat.le_of_not_le hshort)] at henough
  obtain ⟨passed, left, kept, hsplit, hkept, heq⟩ := @selectCandidates_spec options
    row.hasSelectedWitness (sortByDistance row.candidates) [] 0 options.maxDegree_pos
  rw [List.nil_append] at heq
  have hle := hkept.length_le
  rw [List.nil_append] at hle
  have hfirst : row.firstPass options = kept.map ViewLuneCandidate.dst := by
    rw [firstPass, if_neg hshort, heq]
  obtain ⟨refill, hfilled, hfill⟩ : ∃ refill, Filled options.maxDegree
      (sortByDistance row.candidates) (kept.map ViewLuneCandidate.dst) refill ∧
      (if (kept.map ViewLuneCandidate.dst).length < options.maxDegree then
        fillSelected options.maxDegree (sortByDistance row.candidates)
          (kept.map ViewLuneCandidate.dst) 0
      else (kept.map ViewLuneCandidate.dst, 0)).1 =
        kept.map ViewLuneCandidate.dst ++ refill.map ViewLuneCandidate.dst := by
    split_ifs with hroom
    · exact fillSelected_spec hle
    · exact ⟨[], filled_nil hle (.inr (Nat.le_antisymm hle (Nat.le_of_not_lt hroom))),
        (List.append_nil _).symm⟩
  rw [heq, hfill, List.take_of_length_le hfilled.length_le, ← List.map_append]
  exact ⟨_, _, reduced_of_long hshort henough hsplit hkept hfirst hfilled⟩

end

/-- A row is reduced to as many distinct neighbors as it has room for, its core among them and
nothing passed over without a witness for it, exactly if there are so many different ids in it. -/
theorem reduceRow_reduced_iff (options : ViewLunePruneOptions) (row : RuntimeViewLuneRow)
    (baseRow : Option (List UInt32)) :
    (∃ kept refill,
        Reduced options row kept refill (row.reduceRow options baseRow).2.neighbors) ↔
      min options.maxDegree row.candidates.length ≤ row.distinctIds := by
  refine ⟨?_, exists_reduced baseRow⟩
  rintro ⟨kept, refill, h⟩
  rw [← h.length_eq]
  refine length_le_distinctIds h.distinct fun dst hdst => ?_
  rw [h.layout] at hdst
  obtain ⟨c, hc, rfl⟩ := List.mem_map.mp hdst
  exact List.mem_map_of_mem (h.candidates c hc)

/-- The row of two neighbors that a reduction before the last write leads to. -/
def repeatedRow : RuntimeViewLuneRow :=
  [.candidate ⟨5, ⟨0x3f800000⟩⟩, .candidate ⟨3, ⟨0x40000000⟩⟩, .reduce,
    .candidate ⟨5, ⟨0x3f000000⟩⟩].foldl (RuntimeViewLuneRow.step twoNeighbors)
      RuntimeViewLuneRow.default

/-- Its neighbors are the same one twice. -/
theorem repeatedRow_not_reduced :
    (repeatedRow.reduceRow twoNeighbors none).2.neighbors = [5, 5] ∧
      ¬ ∃ kept refill, Reduced twoNeighbors repeatedRow kept refill
        (repeatedRow.reduceRow twoNeighbors none).2.neighbors := by
  have hneighbors : (repeatedRow.reduceRow twoNeighbors none).2.neighbors = [5, 5] := by decide
  refine ⟨hneighbors, fun ⟨kept, refill, h⟩ => ?_⟩
  have hdistinct := h.distinct
  rw [hneighbors] at hdistinct
  exact absurd hdistinct (by decide)

/-- Candidates 1, 2 and 3 at distances 1, 2 and 3, and pivot 1 as a witness against 2. -/
def witnessedRow : RuntimeViewLuneRow where
  candidates := [⟨1, ⟨0x3f800000⟩⟩, ⟨2, ⟨0x40000000⟩⟩, ⟨3, ⟨0x40400000⟩⟩]
  candidateWorstIdx := 2
  witnessRows := [{ ViewLuneVictimWitnesses.new 2 with
    len := 1
    inline := ⟨1, 0⟩ :: List.replicate (INLINE_WITNESS_CAP - 1) .default }]
  witnessOverflow := []

example : witnessedRow.distinctIds = 3 ∧
    (witnessedRow.reduceRow twoNeighbors none).2.neighbors = [1, 3] := by decide +kernel

end RuntimeViewLuneRow

/-- The rows of an accumulator have distinct candidates, as long as no write shows the maintenance
before it. -/
theorem candidates_distinct {numPoints source : Nat} {options : ViewLunePruneOptions}
    {calls : List ViewLuneCall} (h : MaintenanceUnseen numPoints options calls)
    (hsource : source < numPoints) :
    (((calls.flatMap (ViewLuneCall.rowSteps source)).foldl (RuntimeViewLuneRow.step options)
      RuntimeViewLuneRow.default).candidates.map ViewLuneCandidate.dst).Nodup := by
  have hend := (mirrors_default options.maxWitnessesPerVictim).steps (h source hsource)
    fun candidate hin => ViewLuneCall.number_of_mem_rowSteps hin
  exact (hend.candidates.map ViewLuneCandidate.dst).nodup_iff.mpr hend.sorted_plain.nodup

end ForgeANN
