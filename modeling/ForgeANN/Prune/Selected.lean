-- SUMMARY: The result of RobustPrune: distinct ids of the nearest candidates without the location, as many as there is room for.
import ForgeANN.Prune.Rounds
import Mathlib.Data.Finset.Card
import Mathlib.Data.List.Dedup
import Mathlib.Data.List.Perm.Basic

/-!
# The result of RobustPrune

An id is selected where it comes first only: the factor of a later entry of the
same id is never below it, and once an id is selected its factors are above all
bounds. So the result has no duplicates, and saturation makes its length exact.
-/
namespace ForgeANN

open Lib

variable {D F : Type} {A : PruneArith D F} {getDistance : UInt32 → UInt32 → AnnResult D}
  {prune : RobustPrune F} {location : UInt32} {alpha : F} {f g : F}

/-- What the arithmetic has to be like, for bounds up to `alpha`. -/
structure PruneLaws (A : PruneArith D F) (alpha : F) : Prop where
  gt_max : ∀ f q c, A.gt (A.max f q) c = (A.gt f c || A.gt q c)
  gt_of_gt_alpha : ∀ f c, A.gt f alpha = true → A.le c alpha = true → A.gt f c = true
  gt_maxValue : ∀ k, A.le (A.bound k) alpha = true → A.gt A.maxValue (A.bound k) = true
  ends : ∃ m, A.le (A.bound m) alpha = false

/-- `g` is above every bound that `f` is above. -/
def AboveWhere (A : PruneArith D F) (alpha f g : F) : Prop :=
  ∀ k, A.le (A.bound k) alpha = true → A.gt f (A.bound k) = true → A.gt g (A.bound k) = true

/-- `f` is above every bound. -/
def Shut (A : PruneArith D F) (alpha f : F) : Prop :=
  ∀ k, A.le (A.bound k) alpha = true → A.gt f (A.bound k) = true

theorem Shut.of_aboveWhere (h : Shut A alpha f) (hcovers : AboveWhere A alpha f g) : Shut A alpha g :=
  fun k hk => hcovers k hk (h k hk)

theorem Shut.aboveWhere (h : Shut A alpha g) : AboveWhere A alpha f g := fun k hk _ => h k hk

theorem AboveWhere.trans {e : F} (h : AboveWhere A alpha e f) (h' : AboveWhere A alpha f g) :
    AboveWhere A alpha e g := fun k hk he => h' k hk (h k hk he)

theorem PruneLaws.shut_of_gt (h : PruneLaws A alpha) (hf : A.gt f alpha = true) : Shut A alpha f :=
  fun k hk => h.gt_of_gt_alpha f (A.bound k) hf hk

namespace RobustPrune

/-! ## What an occlusion does to the factors -/

variable {neighbor : Neighbor D} {slot slot' other other' : PruneSlot D F}

theorem occlude_aboveWhere (hlaws : PruneLaws A prune.alpha)
    (h : prune.occlude A getDistance neighbor slot = .ok slot') :
    AboveWhere A prune.alpha slot.2 slot'.2 := by
  rcases occlude_cases h with ⟨-, rfl⟩ | ⟨-, djk, -, rfl⟩
  · exact fun k hk hf => hf
  · intro k hk hf
    dsimp only
    split_ifs
    · exact hlaws.gt_maxValue k hk
    · rw [hlaws.gt_max, hf]
      rfl

/-- Entries of one id are occluded alike. -/
theorem occlude_aboveWhere_same (hlaws : PruneLaws A prune.alpha) (hid : slot.1.id = other.1.id)
    (hdistance : slot.1.distance = other.1.distance) (hcovers : AboveWhere A prune.alpha slot.2 other.2)
    (h : prune.occlude A getDistance neighbor slot = .ok slot')
    (h' : prune.occlude A getDistance neighbor other = .ok other') :
    AboveWhere A prune.alpha slot'.2 other'.2 := by
  rcases occlude_cases h' with ⟨hout, rfl⟩ | ⟨-, djk', hdjk', hother⟩
  · exact (hlaws.shut_of_gt hout).aboveWhere
  · rcases occlude_cases h with ⟨hout, rfl⟩ | ⟨-, djk, hdjk, rfl⟩
    · exact (((hlaws.shut_of_gt hout).of_aboveWhere hcovers).of_aboveWhere (occlude_aboveWhere hlaws h')).aboveWhere
    · rw [hid, hdjk'] at hdjk
      cases hdjk
      rw [hother, hdistance]
      intro k hk hf
      dsimp only at hf ⊢
      split_ifs at hf ⊢
      · exact hf
      · rw [hlaws.gt_max, Bool.or_eq_true] at hf ⊢
        exact hf.imp_left (hcovers k hk)

/-- An entry of the selected id itself is shut out. -/
theorem occlude_shut (hlaws : PruneLaws A prune.alpha)
    (hself : ∀ djk, getDistance slot.1.id neighbor.id = .ok djk → A.isZero djk = true)
    (h : prune.occlude A getDistance neighbor slot = .ok slot') : Shut A prune.alpha slot'.2 := by
  rcases occlude_cases h with ⟨hout, rfl⟩ | ⟨-, djk, hdjk, rfl⟩
  · exact hlaws.shut_of_gt hout
  · intro k hk
    rw [if_pos (hself djk hdjk)]
    exact hlaws.gt_maxValue k hk

/-! ## What a selection preserves -/

theorem mem_select {x : UInt32} {result : List UInt32} :
    x ∈ select location neighbor result ↔ x ∈ result ∨ (neighbor.id ≠ location ∧ x = neighbor.id) := by
  rw [select]
  split_ifs with h
  · simp [h]
  · rw [List.mem_append, List.mem_singleton]
    exact or_congr Iff.rfl ⟨fun heq => ⟨h, heq⟩, And.right⟩

theorem length_select_le {result : List UInt32} (h : result.length < prune.maxDegree) :
    (select location neighbor result).length ≤ prune.maxDegree := by
  rw [select]
  split_ifs
  · exact Nat.le_of_lt h
  · rw [List.length_append]
    exact h

theorem nodup_select {result : List UInt32} (h : result.Nodup) (hfresh : neighbor.id ∉ result) :
    (select location neighbor result).Nodup := by
  rw [select]
  split_ifs
  · exact h
  · exact List.nodup_append.mpr ⟨h, List.nodup_singleton _, fun x hx y hy heq =>
      hfresh (List.mem_singleton.mp hy ▸ heq ▸ hx)⟩

end RobustPrune

/-- Entries of one id have one distance, and such an id is at distance zero from itself. -/
def RepeatsAgree (A : PruneArith D F) (getDistance : UInt32 → UInt32 → AnnResult D)
    (pool : List (Neighbor D)) : Prop :=
  pool.Pairwise fun m n => m.id = n.id →
    m.distance = n.distance ∧ ∀ djk, getDistance n.id m.id = .ok djk → A.isZero djk = true

/-- What is selected out of a pool, with the factors there are. -/
structure Selected (A : PruneArith D F) (prune : RobustPrune F) (location : UInt32)
    (pool : List (Neighbor D)) (slots : List (PruneSlot D F)) (result : List UInt32) : Prop where
  candidates : slots.map Prod.fst = pool
  nodup : result.Nodup
  location_notMem : location ∉ result
  drawn : ∀ x ∈ result, x ∈ pool.map Neighbor.id
  length_le : result.length ≤ prune.maxDegree
  /-- No entry of a selected id comes up again. -/
  shut : ∀ slot ∈ slots, slot.1.id ∈ result → Shut A prune.alpha slot.2
  /-- A later entry of an id comes up only if the earlier one does. -/
  covered : slots.Pairwise fun s t => s.1.id = t.1.id → AboveWhere A prune.alpha s.2 t.2

theorem selectPreserves_selected {pool : List (Neighbor D)} (hlaws : PruneLaws A prune.alpha)
    (hrepeats : RepeatsAgree A getDistance pool) {k : Nat}
    (hk : A.le (A.bound k) prune.alpha = true) :
    prune.SelectPreserves A getDistance location (A.bound k)
      (Selected A prune location pool) := by
  intro done neighbor factor rest occluded result h hdone hbelow hroom hoccluded
  have hpool := h.candidates
  rw [RepeatsAgree, ← hpool, List.pairwise_map] at hrepeats
  obtain ⟨-, hrepeats, -⟩ := List.pairwise_append.mp hrepeats
  obtain ⟨hself, hrepeats⟩ := List.pairwise_cons.mp hrepeats
  obtain ⟨hcoveredDone, hcovered, hcross⟩ := List.pairwise_append.mp h.covered
  obtain ⟨hhead, hcovered⟩ := List.pairwise_cons.mp hcovered
  have hall := forall₂_of_mapM hoccluded
  have hfresh : neighbor.id ∉ result := fun hmem => by
    have hgt := h.shut (neighbor, factor) (by simp) hmem k hk
    rw [hbelow] at hgt
    cases hgt
  -- an earlier entry of the id would have kept this one out
  have hfirst : ∀ slot ∈ done, slot.1.id ≠ neighbor.id := fun slot hslot hid => by
    have hgt := hcross slot hslot (neighbor, factor) List.mem_cons_self hid k hk (hdone slot hslot)
    rw [hbelow] at hgt
    cases hgt
  have hmax : Shut A prune.alpha A.maxValue := hlaws.gt_maxValue
  have hsame : ∀ slot' ∈ occluded, neighbor.id = slot'.1.id → Shut A prune.alpha slot'.2 := by
    intro slot' hslot' hid
    obtain ⟨slot, hslot, hocclude⟩ := exists_of_mem_forall₂ hall hslot'
    rw [RobustPrune.fst_of_occlude hocclude] at hid
    exact RobustPrune.occlude_shut hlaws (hself slot hslot hid).2 hocclude
  refine ⟨?_, RobustPrune.nodup_select h.nodup hfresh, fun hmem => ?_, fun x hx => ?_,
    RobustPrune.length_select_le hroom, fun slot' hslot' hmem => ?_, ?_⟩
  · rw [RobustPrune.map_fst_selected hoccluded done factor, hpool]
  · rcases RobustPrune.mem_select.mp hmem with hmem | ⟨hne, heq⟩
    · exact h.location_notMem hmem
    · exact hne heq.symm
  · rcases RobustPrune.mem_select.mp hx with hx | ⟨-, rfl⟩
    · exact h.drawn x hx
    · refine List.mem_map_of_mem (hpool ▸ ?_)
      simp
  · rcases List.mem_append.mp hslot' with hdone' | hslot'
    · rcases RobustPrune.mem_select.mp hmem with hmem | ⟨-, heq⟩
      · exact h.shut slot' (List.mem_append_left _ hdone') hmem
      · exact absurd heq (hfirst slot' hdone')
    · rcases List.mem_cons.mp hslot' with rfl | hslot'
      · exact hmax
      · rcases RobustPrune.mem_select.mp hmem with hmem | ⟨-, heq⟩
        · obtain ⟨slot, hslot, hocclude⟩ := exists_of_mem_forall₂ hall hslot'
          rw [RobustPrune.fst_of_occlude hocclude] at hmem
          exact (h.shut slot (by simp [hslot]) hmem).of_aboveWhere
            (RobustPrune.occlude_aboveWhere hlaws hocclude)
        · exact hsame slot' hslot' heq.symm
  · refine List.pairwise_append.mpr ⟨hcoveredDone, List.pairwise_cons.mpr
      ⟨fun slot' hslot' hid => (hsame slot' hslot' hid).aboveWhere, ?_⟩, fun slot hslot other' hother hid => ?_⟩
    · refine pairwise_of_forall₂ hall (hcovered.and hrepeats) fun s t s' t' hst hs ht hid => ?_
      rw [RobustPrune.fst_of_occlude hs, RobustPrune.fst_of_occlude ht] at hid
      exact RobustPrune.occlude_aboveWhere_same hlaws hid (hst.2 hid).1 (hst.1 hid) hs ht
    · rcases List.mem_cons.mp hother with rfl | hother
      · exact hmax.aboveWhere
      · obtain ⟨other, hmem, hocclude⟩ := exists_of_mem_forall₂ hall hother
        rw [RobustPrune.fst_of_occlude hocclude] at hid
        exact (hcross slot hslot other (List.mem_cons_of_mem _ hmem) hid).trans
          (RobustPrune.occlude_aboveWhere hlaws hocclude)

/-! ## Saturation -/

/-- The ids of a pool without the location. -/
def otherIds (location : UInt32) (pool : List (Neighbor D)) : List UInt32 :=
  (pool.map Neighbor.id).filter fun id => id ≠ location

theorem mem_otherIds {x : UInt32} {pool : List (Neighbor D)} :
    x ∈ otherIds location pool ↔ x ∈ pool.map Neighbor.id ∧ x ≠ location := by
  rw [otherIds, List.mem_filter, decide_eq_true_iff]

/-- Distinct ids out of `ids`, no more than there is room for. -/
structure Drawn (prune : RobustPrune F) (ids result : List UInt32) : Prop where
  nodup : result.Nodup
  drawn : ∀ x ∈ result, x ∈ ids
  length_le : result.length ≤ prune.maxDegree

theorem saturate_spec {ids result : List UInt32} {pool : List (Neighbor D)}
    (h : Drawn prune ids result) (hids : ∀ x ∈ otherIds location pool, x ∈ ids) :
    Drawn prune ids (prune.saturate location pool result) ∧
      (∀ x ∈ result, x ∈ prune.saturate location pool result) ∧
      ((prune.saturate location pool result).length = prune.maxDegree ∨
        ∀ x ∈ otherIds location pool, x ∈ prune.saturate location pool result) := by
  induction pool generalizing result with
  | nil => exact ⟨h, fun x hx => hx, .inr fun x hx => absurd hx List.not_mem_nil⟩
  | cons neighbor pool ih =>
      have hotherIds : ∀ x, x ∈ otherIds location (neighbor :: pool) ↔
          (x = neighbor.id ∧ x ≠ location) ∨ x ∈ otherIds location pool := by
        intro x
        rw [mem_otherIds, mem_otherIds, List.map_cons, List.mem_cons, or_and_right]
      have hids' : ∀ x ∈ otherIds location pool, x ∈ ids :=
        fun x hx => hids x ((hotherIds x).mpr (.inr hx))
      rw [RobustPrune.saturate]
      split_ifs with hfull hnew
      · exact ⟨h, fun x hx => hx, .inl (Nat.le_antisymm h.length_le hfull)⟩
      · obtain ⟨hne, hfresh⟩ := hnew
        have hgrown : Drawn prune ids (result ++ [neighbor.id]) := by
          refine ⟨?_, ?_, ?_⟩
          · exact List.nodup_append.mpr ⟨h.nodup, List.nodup_singleton _, fun x hx y hy heq =>
              hfresh (List.mem_singleton.mp hy ▸ heq ▸ hx)⟩
          · refine RobustPrune.forall_mem_concat h.drawn (hids _ ((hotherIds _).mpr (.inl ⟨rfl, hne⟩)))
          · rw [List.length_append]
            exact Nat.lt_of_not_le hfull
        obtain ⟨hdrawn, hkept, hend⟩ := ih hgrown hids'
        refine ⟨hdrawn, fun x hx => hkept x (List.mem_append_left _ hx), hend.imp_right ?_⟩
        intro hall x hx
        rcases (hotherIds x).mp hx with ⟨rfl, -⟩ | hx
        · exact hkept _ (List.mem_append_right _ (List.mem_singleton_self _))
        · exact hall x hx
      · obtain ⟨hdrawn, hkept, hend⟩ := ih h hids'
        refine ⟨hdrawn, hkept, hend.imp_right fun hall x hx => ?_⟩
        rcases (hotherIds x).mp hx with ⟨rfl, hne⟩ | hx
        · exact hkept _ (by simpa [hne] using hnew)
        · exact hall x hx

/-- What takes all ids there are, or as many as there is room for, has the exact length. -/
theorem Drawn.length_eq {ids result : List UInt32} (h : Drawn prune ids result)
    (hend : result.length = prune.maxDegree ∨ ∀ x ∈ ids, x ∈ result) :
    result.length = min prune.maxDegree ids.toFinset.card := by
  have hsub : result.toFinset ⊆ ids.toFinset := fun x hx =>
    List.mem_toFinset.mpr (h.drawn x (List.mem_toFinset.mp hx))
  have hcard := List.toFinset_card_of_nodup h.nodup
  have hle := Finset.card_le_card hsub
  have hlength := h.length_le
  rcases hend with hfull | hall
  · omega
  · have heq : result.toFinset = ids.toFinset :=
      hsub.antisymm fun x hx => List.mem_toFinset.mpr (hall x (List.mem_toFinset.mp hx))
    rw [heq] at hcard
    omega

/-! ## The result -/

/-- The result for a pool: distinct ids of the nearest candidates, without the location, no more than
there is room for, and when saturated as many as there is room for. -/
structure RobustPruned (A : PruneArith D F) (prune : RobustPrune F) (sort : NeighborSort A)
    (location : UInt32) (pool : List (Neighbor D)) (result : List UInt32) : Prop where
  nodup : result.Nodup
  location_notMem : location ∉ result
  drawn : ∀ x ∈ result, x ∈ (prune.candidates A sort pool).map Neighbor.id
  nearest : (∀ n ∈ pool, A.isNaN n.distance = false) →
    ∀ kept ∈ prune.candidates A sort pool, ∀ dropped ∈ (sort.sort pool).drop prune.maxCandidateSize,
      Neighbor.le A kept dropped
  length_le : result.length ≤ prune.maxDegree
  length_eq : prune.saturateGraph = true → A.gt prune.alpha A.one = true → result.length =
    min prune.maxDegree (otherIds location (prune.candidates A sort pool)).toFinset.card
  permutation : prune.saturateGraph = true → A.gt prune.alpha A.one = true →
    pool.length ≤ prune.maxCandidateSize →
    (otherIds location pool).toFinset.card ≤ prune.maxDegree →
    result.Perm (otherIds location pool).dedup

variable {sort : NeighborSort A} {pool : List (Neighbor D)} {slots : List (PruneSlot D F)}
  {result : List UInt32}

theorem nearest_candidates (hnumbers : ∀ n ∈ pool, A.isNaN n.distance = false) :
    ∀ kept ∈ prune.candidates A sort pool, ∀ dropped ∈ (sort.sort pool).drop prune.maxCandidateSize,
      Neighbor.le A kept dropped := by
  have hsorted := sort.sorted pool hnumbers
  rw [← List.take_append_drop prune.maxCandidateSize (sort.sort pool)] at hsorted
  exact (List.pairwise_append.mp hsorted).2.2

theorem mem_of_candidates {n : Neighbor D} (h : n ∈ prune.candidates A sort pool) : n ∈ pool :=
  (sort.perm pool).mem_iff.mp (List.mem_of_mem_take h)

theorem candidates_perm (h : pool.length ≤ prune.maxCandidateSize) :
    (prune.candidates A sort pool).Perm pool := by
  have hperm := sort.perm pool
  rw [RobustPrune.candidates, List.take_of_length_le (by rw [hperm.length_eq]; exact h)]
  exact hperm

theorem otherIds_perm {pool' : List (Neighbor D)} (h : pool'.Perm pool) :
    (otherIds location pool').Perm (otherIds location pool) := (h.map _).filter _

theorem RepeatsAgree.candidates (h : RepeatsAgree A getDistance pool) :
    RepeatsAgree A getDistance (prune.candidates A sort pool) := by
  refine ((List.Perm.pairwise_iff ?_ (sort.perm pool)).mpr h).sublist (List.take_sublist _ _)
  intro m n hmn hid
  obtain ⟨hdistance, hself⟩ := hmn hid.symm
  rw [hid] at hself ⊢
  exact ⟨hdistance.symm, hself⟩

theorem selected_start (A : PruneArith D F) (prune : RobustPrune F) (location : UInt32)
    (pool : List (Neighbor D)) :
    Selected A prune location pool (pool.map fun neighbor => (neighbor, A.zero)) [] where
  candidates := by
    rw [List.map_map]
    exact List.map_id pool
  nodup := List.nodup_nil
  location_notMem := List.not_mem_nil
  drawn _ h := absurd h List.not_mem_nil
  length_le := Nat.zero_le _
  shut _ _ h := absurd h List.not_mem_nil
  covered := List.pairwise_map.mpr (List.pairwise_of_forall fun _ _ _ _ _ h => h)

theorem Selected.drawn_others
    (h : Selected A prune location pool slots result) :
    Drawn prune (otherIds location pool) result where
  nodup := h.nodup
  drawn x hx := mem_otherIds.mpr ⟨h.drawn x hx, fun heq => h.location_notMem (heq ▸ hx)⟩
  length_le := h.length_le

theorem robustPruned_of_drawn
    (h : Drawn prune (otherIds location (prune.candidates A sort pool)) result)
    (hend : prune.saturateGraph = true → A.gt prune.alpha A.one = true →
      result.length = prune.maxDegree ∨
        ∀ x ∈ otherIds location (prune.candidates A sort pool), x ∈ result) :
    RobustPruned A prune sort location pool result where
  nodup := h.nodup
  location_notMem hmem := (mem_otherIds.mp (h.drawn _ hmem)).2 rfl
  drawn x hx := (mem_otherIds.mp (h.drawn x hx)).1
  nearest := nearest_candidates
  length_le := h.length_le
  length_eq hsaturate halpha := h.length_eq (hend hsaturate halpha)
  permutation hsaturate halpha hcap hroom := by
    have hperm : (otherIds location (prune.candidates A sort pool)).Perm (otherIds location pool) :=
      otherIds_perm (candidates_perm hcap)
    have hlength := h.length_eq (hend hsaturate halpha)
    have hsame : (otherIds location (prune.candidates A sort pool)).toFinset =
        (otherIds location pool).toFinset := by
      ext x
      rw [List.mem_toFinset, List.mem_toFinset]
      exact hperm.mem_iff
    rw [hsame, Nat.min_eq_right hroom] at hlength
    refine List.perm_of_nodup_nodup_toFinset_eq h.nodup (List.nodup_dedup _) ?_
    have hdedup : (otherIds location pool).dedup.toFinset = (otherIds location pool).toFinset := by
      ext x
      rw [List.mem_toFinset, List.mem_toFinset, List.mem_dedup]
    rw [hdedup]
    refine Finset.eq_of_subset_of_card_le (fun x hx => ?_) ?_
    · rw [← hsame, List.mem_toFinset]
      exact h.drawn x (List.mem_toFinset.mp hx)
    · rw [List.toFinset_card_of_nodup h.nodup]
      omega

theorem finish_spec
    (h : Selected A prune location (prune.candidates A sort pool) slots result) :
    ∃ final, prune.finish A location (prune.candidates A sort pool) result = .ok final ∧
      RobustPruned A prune sort location pool final := by
  have hdrawn := h.drawn_others
  rw [RobustPrune.finish]
  by_cases hsaturate : prune.saturateGraph = true ∧ A.gt prune.alpha A.one = true
  · simp only [if_pos hsaturate]
    obtain ⟨hfilled, hkept, hend⟩ := saturate_spec hdrawn fun x hx => hx
    rw [if_neg (Nat.not_lt.mpr hfilled.length_le)]
    exact ⟨_, rfl, robustPruned_of_drawn hfilled fun _ _ => hend⟩
  · simp only [if_neg hsaturate]
    rw [if_neg (Nat.not_lt.mpr hdrawn.length_le)]
    exact ⟨_, rfl, robustPruned_of_drawn hdrawn fun hs ha => absurd ⟨hs, ha⟩ hsaturate⟩

/-- Pruning comes to an end. It succeeds with the distances at hand, and a result it comes to is as
wanted. -/
theorem robustPruneCandidates_spec (hlaws : PruneLaws A prune.alpha)
    (hrepeats : RepeatsAgree A getDistance pool) : ∃ fuel outcome,
      (∀ more, fuel ≤ more →
        prune.robustPruneCandidates A getDistance sort more location pool = some outcome) ∧
      (RobustPrune.DistancesKnown getDistance prune pool → ∃ result, outcome = .ok result) ∧
      ∀ result, outcome = .ok result → RobustPruned A prune sort location pool result := by
  unfold RobustPrune.robustPruneCandidates
  by_cases hempty : pool.isEmpty = true
  · simp only [if_pos hempty]
    obtain rfl := List.isEmpty_iff.mp hempty
    refine ⟨0, .ok [], fun _ _ => rfl, fun _ => ⟨[], rfl⟩, ?_⟩
    rintro result ⟨⟩
    have hcandidates : prune.candidates A sort [] = [] :=
      List.Perm.eq_nil (candidates_perm (Nat.zero_le _))
    exact robustPruned_of_drawn ⟨List.nodup_nil, fun x hx => absurd hx List.not_mem_nil, Nat.zero_le _⟩
      fun _ _ => .inr fun x hx => by rwa [hcandidates] at hx
  · simp only [if_neg hempty]
    have hstart := selected_start A prune location (prune.candidates A sort pool)
    obtain ⟨fuel, ended, hsettled⟩ := RobustPrune.exists_settled hlaws.ends getDistance location
      ((prune.candidates A sort pool).map fun neighbor => (neighbor, A.zero)) []
    have hended := hsettled fuel (Nat.le_refl fuel)
    have hone : A.one = A.bound 0 := rfl
    cases ended with
    | error err =>
        refine ⟨fuel, .error err, fun more hmore => ?_, fun hknown => ?_, fun result h => by cases h⟩
        · rw [hone, hsettled more hmore]
          rfl
        · have hknown' : RobustPrune.DistancesKnown getDistance prune (prune.candidates A sort pool) :=
            ⟨hknown.metric, fun m hm n hn =>
              hknown.known m (mem_of_candidates hm) n (mem_of_candidates hn)⟩
          obtain ⟨_, h⟩ := RobustPrune.rounds_ok hknown' hlaws.gt_maxValue hstart.candidates hended
          cases h
    | ok ended =>
        obtain ⟨hselected, -⟩ := RobustPrune.rounds_invariant
          (fun k hk => selectPreserves_selected hlaws hrepeats.candidates hk) hlaws.gt_maxValue
          hended hstart (.inr fun i hi => absurd hi (by omega))
        obtain ⟨final, hfinal, hspec⟩ := finish_spec hselected
        refine ⟨fuel, .ok final, fun more hmore => ?_, fun _ => ⟨final, rfl⟩, fun result h => ?_⟩
        · rw [hone, hsettled more hmore, Option.map_some]
          exact congrArg some hfinal
        · cases h
          exact hspec

end ForgeANN
