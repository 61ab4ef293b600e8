-- SUMMARY: What RobustPrune leaves out, in exact arithmetic: a selected candidate before it is much nearer to it than the location.
import ForgeANN.Lib.SortDedup
import ForgeANN.Prune.Selected
import Mathlib.Algebra.Order.Archimedean.Basic
import Mathlib.Algebra.Order.Monoid.Unbundled.WithTop
import Mathlib.Order.WithBot
import Mathlib.Algebra.Order.Field.Rat
import Mathlib.Data.Prod.Lex
import Mathlib.Tactic.Linarith
import Mathlib.Tactic.Positivity

/-!
# Coverage

A factor is above a bound only if a candidate selected before it is at distance
zero, or by that much nearer. So at the last bound each candidate left out has
its reason. The bounds are the powers of 1.2 up to `alpha`, and the location
counts among the selected where it is in the pool.
-/
namespace ForgeANN

open Lib

section

variable {D F : Type} {A : PruneArith D F} {getDistance : UInt32 → UInt32 → AnnResult D}
  {prune : RobustPrune F} {location : UInt32} {pool : List (Neighbor D)} {result : List UInt32}

/-- The `j`th candidate is selected, or one before it occludes it beyond the `k`th bound. -/
def Justified (A : PruneArith D F) (getDistance : UInt32 → UInt32 → AnnResult D) (location : UInt32)
    (pool : List (Neighbor D)) (result : List UInt32) (k j : Nat) (candidate : Neighbor D) : Prop :=
  candidate.id ∈ result ∨ candidate.id = location ∨
    ∃ i neighbor, i < j ∧ pool[i]? = some neighbor ∧
      (neighbor.id ∈ result ∨ neighbor.id = location) ∧
      ∃ djk, getDistance candidate.id neighbor.id = .ok djk ∧
        (A.isZero djk = true ∨ A.gt (A.div candidate.distance djk) (A.bound k) = true)

theorem mem_or_eq_select {x : UInt32} {neighbor : Neighbor D} (h : x ∈ result ∨ x = location) :
    x ∈ RobustPrune.select location neighbor result ∨ x = location :=
  h.imp_left fun hx => RobustPrune.mem_select.mpr (.inl hx)

theorem Justified.select {k j : Nat} {candidate : Neighbor D}
    (h : Justified A getDistance location pool result k j candidate) (neighbor : Neighbor D) :
    Justified A getDistance location pool (RobustPrune.select location neighbor result) k j
      candidate := by
  rcases h with h | h | ⟨i, before, hi, hbefore, hselected, hdistance⟩
  · exact .inl (RobustPrune.mem_select.mpr (.inl h))
  · exact .inr (.inl h)
  · exact .inr (.inr ⟨i, before, hi, hbefore, mem_or_eq_select hselected, hdistance⟩)

/-- Factors above a bound are justified. -/
structure FactorsJustified (A : PruneArith D F) (getDistance : UInt32 → UInt32 → AnnResult D)
    (maxDegree : Nat) (location : UInt32) (pool : List (Neighbor D)) (slots : List (PruneSlot D F))
    (result : List UInt32) : Prop where
  candidates : slots.map Prod.fst = pool
  length_le : result.length ≤ maxDegree
  justified : ∀ (j : Nat) (slot : PruneSlot D F), slots[j]? = some slot → ∀ k,
    A.gt slot.2 (A.bound k) = true → Justified A getDistance location pool result k j slot.1

theorem exists_getElem?_of_forall₂ {α β : Type} {R : α → β → Prop} {l : List α} {m : List β}
    (h : List.Forall₂ R l m) {j : Nat} {b : β} (hb : m[j]? = some b) :
    ∃ a, l[j]? = some a ∧ R a b := by
  induction h generalizing j with
  | nil => cases hb
  | @cons a c l m hac _ ih =>
      cases j with
      | zero => exact ⟨a, rfl, by cases hb; exact hac⟩
      | succ j => exact ih hb

theorem selectPreserves_justified
    (hmax : ∀ f q c, A.gt (A.max f q) c = (A.gt f c || A.gt q c)) (curAlpha : F) :
    prune.SelectPreserves A getDistance location curAlpha
      (FactorsJustified A getDistance prune.maxDegree location pool) := by
  intro done neighbor factor rest occluded result h hdone hbelow hroom hoccluded
  have hcandidates := (RobustPrune.map_fst_selected hoccluded done factor A.maxValue).trans h.candidates
  have hneighbor : pool[done.length]? = some neighbor := by
    rw [← h.candidates, List.map_append, List.getElem?_append_right (by simp)]
    simp
  have hselected : neighbor.id ∈ RobustPrune.select location neighbor result ∨
      neighbor.id = location := by
    by_cases heq : neighbor.id = location
    · exact .inr heq
    · exact .inl (RobustPrune.mem_select.mpr (.inr ⟨heq, rfl⟩))
  refine ⟨hcandidates, RobustPrune.length_select_le hroom, fun j slot' hslot' k habove => ?_⟩
  rcases Nat.lt_trichotomy j done.length with hlt | rfl | hgt
  · rw [List.getElem?_append_left hlt] at hslot'
    have hold : (done ++ (neighbor, factor) :: rest)[j]? = some slot' := by
      rw [List.getElem?_append_left hlt, hslot']
    exact (h.justified j slot' hold k habove).select neighbor
  · rw [List.getElem?_append_right (Nat.le_refl _), Nat.sub_self] at hslot'
    cases hslot'
    exact hselected.imp_right .inl
  · -- a candidate behind: it was above the bound before, or the selection has lifted it
    obtain ⟨i, rfl⟩ : ∃ i, j = done.length + (i + 1) := ⟨j - done.length - 1, by omega⟩
    rw [List.getElem?_append_right (by omega), Nat.add_sub_cancel_left, List.getElem?_cons_succ]
      at hslot'
    obtain ⟨slot, hslot, hocclude⟩ :=
      exists_getElem?_of_forall₂ (forall₂_of_mapM hoccluded) hslot'
    have hold : (done ++ (neighbor, factor) :: rest)[done.length + (i + 1)]? = some slot := by
      rw [List.getElem?_append_right (by omega), Nat.add_sub_cancel_left, List.getElem?_cons_succ,
        hslot]
    have hbefore : A.gt slot.2 (A.bound k) = true → Justified A getDistance location pool
        (RobustPrune.select location neighbor result) k (done.length + (i + 1)) slot.1 :=
      fun hgt => (h.justified _ slot hold k hgt).select neighbor
    rcases RobustPrune.occlude_cases hocclude with ⟨-, rfl⟩ | ⟨-, djk, hdjk, rfl⟩
    · exact hbefore habove
    · have hlifted : A.isZero djk = true ∨ A.gt (A.div slot.1.distance djk) (A.bound k) = true →
          Justified A getDistance location pool (RobustPrune.select location neighbor result) k
            (done.length + (i + 1)) slot.1 := fun hreason =>
        .inr (.inr ⟨done.length, neighbor, by omega, hneighbor, hselected, djk, hdjk, hreason⟩)
      dsimp only at habove ⊢
      split_ifs at habove with hzero
      · exact hlifted (.inl hzero)
      · rw [hmax, Bool.or_eq_true] at habove
        exact habove.elim hbefore fun hgt => hlifted (.inr hgt)

end

/-! ## Exact arithmetic -/

section

variable (K : Type) [Field K] [LinearOrder K]

/-- Distances are exact, and `f32::MAX` is above all numbers. -/
def PruneArith.exact : PruneArith K (WithTop K) where
  lt a b := decide (a < b)
  isNaN _ := false
  isZero d := decide (d = 0)
  div a b := ((a / b : K) : WithTop K)
  zero := ((0 : K) : WithTop K)
  one := ((1 : K) : WithTop K)
  maxValue := ⊤
  grow f := f.map fun v => v * (6 / 5)
  max f g := f ⊔ g
  le a b := decide (a ≤ b)
  gt a b := decide (b < a)

end

section

variable {K : Type} [Field K] [LinearOrder K]

theorem exact_bound (k : Nat) :
    (PruneArith.exact K).bound k = (((6 / 5 : K) ^ k : K) : WithTop K) := by
  induction k with
  | zero => rw [pow_zero]; rfl
  | succ k ih =>
      rw [PruneArith.bound, ih, pow_succ]
      rfl

theorem exact_le_bound {k : Nat} {alpha : K} :
    (PruneArith.exact K).le ((PruneArith.exact K).bound k) alpha = true ↔
      (6 / 5 : K) ^ k ≤ alpha := by
  rw [exact_bound]
  exact (decide_eq_true_iff).trans WithTop.coe_le_coe

theorem exact_gt_max (f q c : WithTop K) : (PruneArith.exact K).gt ((PruneArith.exact K).max f q) c =
    ((PruneArith.exact K).gt f c || (PruneArith.exact K).gt q c) := by
  rw [Bool.eq_iff_iff, Bool.or_eq_true]
  exact decide_eq_true_iff.trans (lt_sup_iff.trans
    (or_congr decide_eq_true_iff.symm decide_eq_true_iff.symm))

theorem exact_gt_maxValue (k : Nat) :
    (PruneArith.exact K).gt (PruneArith.exact K).maxValue ((PruneArith.exact K).bound k) = true := by
  rw [exact_bound]
  exact decide_eq_true (WithTop.coe_lt_top ((6 / 5 : K) ^ k))

variable {prune : RobustPrune (WithTop K)} {location : UInt32} {pool : List (Neighbor K)}
  {sort : NeighborSort (PruneArith.exact K)} {dist : UInt32 → UInt32 → K} {result : List UInt32}

theorem distance_le_of_lt {i j : Nat} {s c : Neighbor K} (hij : i < j)
    (hs : (prune.candidates (.exact K) sort pool)[i]? = some s)
    (hc : (prune.candidates (.exact K) sort pool)[j]? = some c) : s.distance ≤ c.distance := by
  have hsorted := (sort.sorted pool fun _ _ => rfl).sublist (List.take_sublist prune.maxCandidateSize _)
  obtain ⟨hi, rfl⟩ := List.getElem?_eq_some_iff.mp hs
  obtain ⟨hj, rfl⟩ := List.getElem?_eq_some_iff.mp hc
  rcases List.pairwise_iff_getElem.mp hsorted i j hi hj hij with hlt | ⟨hnot, -⟩
  · exact le_of_lt (of_decide_eq_true hlt)
  · exact not_lt.mp (of_decide_eq_false hnot)

/-- What stands before a candidate that is left out: a selected one that it is at no distance from, or
by the factor nearer to than to the location; or the location itself, where it is too. -/
def Covered (dist : UInt32 → UInt32 → K) (location : UInt32) (candidates : List (Neighbor K))
    (result : List UInt32) (factor : K) (j : Nat) (c : Neighbor K) : Prop :=
  ∃ i s, i < j ∧ candidates[i]? = some s ∧ s.distance ≤ c.distance ∧
    ((s.id ∈ result ∧ (dist c.id s.id = 0 ∨ factor * dist c.id s.id < dist location c.id)) ∨
      (s.id = location ∧ dist c.id location = 0))

variable [IsStrictOrderedRing K]

theorem justified_start (maxDegree : Nat) (location : UInt32) (pool : List (Neighbor K)) :
    FactorsJustified (.exact K) (fun x y => .ok (dist x y)) maxDegree location pool
      (pool.map fun neighbor => (neighbor, (PruneArith.exact K).zero)) [] where
  candidates := by
    rw [List.map_map]
    exact List.map_id pool
  length_le := Nat.zero_le _
  justified j slot hslot k habove := by
    -- no factor is above a bound yet
    rw [List.getElem?_map] at hslot
    obtain ⟨neighbor, -, rfl⟩ := Option.map_eq_some_iff.mp hslot
    rw [exact_bound] at habove
    have hlt : (6 / 5 : K) ^ k < 0 := WithTop.coe_lt_coe.mp (of_decide_eq_true habove)
    exact absurd hlt (not_lt.mpr (by positivity))

theorem covered_of_justified (hsymm : ∀ x y, dist x y = dist y x) (hnonneg : ∀ x y, 0 ≤ dist x y)
    {k j : Nat} {c : Neighbor K} (hc : (prune.candidates (.exact K) sort pool)[j]? = some c)
    (hdistance : c.distance = dist location c.id) (hother : c.id ≠ location) (hout : c.id ∉ result)
    (h : Justified (.exact K) (fun x y => .ok (dist x y)) location
      (prune.candidates (.exact K) sort pool) result k j c) :
    Covered dist location (prune.candidates (.exact K) sort pool) result ((6 / 5 : K) ^ k) j c := by
  rcases h with h | h | ⟨i, s, hi, hs, hselected, djk, hdjk, hreason⟩
  · exact absurd h hout
  · exact absurd h hother
  cases hdjk
  refine ⟨i, s, hi, hs, distance_le_of_lt hi hs hc, ?_⟩
  by_cases hzero : dist c.id s.id = 0
  · rcases hselected with hselected | hselected
    · exact .inl ⟨hselected, .inl hzero⟩
    · exact .inr ⟨hselected, hselected ▸ hzero⟩
  · have hpos : 0 < dist c.id s.id := lt_of_le_of_ne (hnonneg _ _) (Ne.symm hzero)
    have habove : (PruneArith.exact K).gt ((PruneArith.exact K).div c.distance (dist c.id s.id))
        ((PruneArith.exact K).bound k) = true :=
      hreason.resolve_left fun h => hzero (of_decide_eq_true h)
    rw [exact_bound] at habove
    have hlt : (6 / 5 : K) ^ k < c.distance / dist c.id s.id :=
      WithTop.coe_lt_coe.mp (of_decide_eq_true habove)
    rw [lt_div_iff₀ hpos, hdistance] at hlt
    rcases hselected with hselected | hselected
    · exact .inl ⟨hselected, .inr hlt⟩
    · -- the location is as far from the candidate as the candidate from it
      rw [hselected, hsymm c.id location] at hlt hpos
      have hle : dist location c.id ≤ (6 / 5 : K) ^ k * dist location c.id :=
        le_mul_of_one_le_left hpos.le (one_le_pow₀ (by norm_num))
      exact absurd hlt (not_lt.mpr hle)

theorem exact_ends [Archimedean K] (alpha : K) :
    ∃ m, (PruneArith.exact K).le ((PruneArith.exact K).bound m) alpha = false := by
  obtain ⟨m, hm⟩ := pow_unbounded_of_one_lt alpha (by norm_num : (1 : K) < 6 / 5)
  exact ⟨m, Bool.eq_false_iff.mpr fun h => absurd (exact_le_bound.mp h) (not_le.mpr hm)⟩

/-- Without saturation, a result that is not full leaves out only what is covered, with the largest
power of 1.2 up to `alpha` as the factor. -/
theorem robustPruneCandidates_covers [Archimedean K] (dist : UInt32 → UInt32 → K)
    (hsymm : ∀ x y, dist x y = dist y x) (hnonneg : ∀ x y, 0 ≤ dist x y)
    (sort : NeighborSort (PruneArith.exact K)) (location : UInt32) (pool : List (Neighbor K))
    (hpool : ∀ n ∈ pool, n.distance = dist location n.id) (prune : RobustPrune (WithTop K))
    (hsaturate : prune.saturateGraph = false) (hmetric : prune.metric ≠ .ip)
    (alpha : K) (halpha : prune.alpha = alpha) (hone : 1 ≤ alpha) : ∃ fuel result,
      (∀ more, fuel ≤ more → prune.robustPruneCandidates (.exact K) (fun x y => .ok (dist x y)) sort
        more location pool = some (.ok result)) ∧
      (result.length < prune.maxDegree → ∃ k : Nat, (6 / 5 : K) ^ k ≤ alpha ∧
        alpha < (6 / 5 : K) ^ (k + 1) ∧
        ∀ j c, (prune.candidates (.exact K) sort pool)[j]? = some c → c.id ≠ location →
          c.id ∉ result →
          Covered dist location (prune.candidates (.exact K) sort pool) result ((6 / 5 : K) ^ k) j c) := by
  unfold RobustPrune.robustPruneCandidates
  by_cases hempty : pool.isEmpty = true
  · simp only [if_pos hempty]
    obtain rfl := List.isEmpty_iff.mp hempty
    have hcandidates : prune.candidates (.exact K) sort [] = [] :=
      List.Perm.eq_nil (candidates_perm (Nat.zero_le _))
    obtain ⟨k, hk, hk'⟩ := exists_nat_pow_near hone (by norm_num : (1 : K) < 6 / 5)
    refine ⟨0, [], fun _ _ => rfl, fun _ => ⟨k, hk, hk', fun j c hc => ?_⟩⟩
    rw [hcandidates] at hc
    cases hc
  · simp only [if_neg hempty]
    have hends : ∃ m, (PruneArith.exact K).le ((PruneArith.exact K).bound m) prune.alpha = false :=
      halpha ▸ exact_ends alpha
    obtain ⟨fuel, ended, hsettled⟩ := RobustPrune.exists_settled hends
      (fun x y => .ok (dist x y)) location
      ((prune.candidates (.exact K) sort pool).map fun neighbor =>
        (neighbor, (PruneArith.exact K).zero)) []
    have hended := hsettled fuel (Nat.le_refl fuel)
    have hstart : FactorsJustified (.exact K) (fun x y => .ok (dist x y)) prune.maxDegree location _ _ [] :=
      justified_start prune.maxDegree location (prune.candidates (.exact K) sort pool)
    obtain ⟨ended, rfl⟩ := RobustPrune.rounds_ok ⟨hmetric, fun _ _ _ _ => ⟨_, rfl⟩⟩
      (fun k _ => exact_gt_maxValue k) hstart.candidates hended
    obtain ⟨hkept, hend⟩ := RobustPrune.rounds_invariant
      (fun k _ => selectPreserves_justified exact_gt_max _) (fun k _ => exact_gt_maxValue k) hended
      hstart (.inr fun i hi => absurd hi (by omega))
    have hfinish : prune.finish (.exact K) location (prune.candidates (.exact K) sort pool) ended.2 =
        .ok ended.2 := by
      rw [RobustPrune.finish]
      simp only [hsaturate, Bool.false_eq_true, false_and, if_false]
      exact if_neg (Nat.not_lt.mpr hkept.length_le)
    refine ⟨fuel, ended.2, fun more hmore => ?_, fun hroom => ?_⟩
    · have hbound : (PruneArith.exact K).one = (PruneArith.exact K).bound 0 := rfl
      rw [hbound, hsettled more hmore, Option.map_some]
      exact congrArg some hfinish
    · obtain ⟨m, -, hm, hbelow, hswept⟩ := hend.resolve_left (by omega)
      rw [halpha] at hm hbelow
      have hm' : alpha < (6 / 5 : K) ^ m := by
        rw [Bool.eq_false_iff, Ne, exact_le_bound] at hm
        exact not_le.mp hm
      cases m with
      | zero =>
          rw [pow_zero] at hm'
          exact absurd hm' (not_lt.mpr hone)
      | succ k =>
          refine ⟨k, exact_le_bound.mp (hbelow k (Nat.zero_le k) (by omega)), hm', ?_⟩
          intro j c hc hother hout
          have hall := hswept.resolve_left (by omega) k rfl
          have hslot := hc
          rw [← hkept.candidates, List.getElem?_map] at hslot
          obtain ⟨slot, hget, rfl⟩ := Option.map_eq_some_iff.mp hslot
          exact covered_of_justified hsymm hnonneg hc
            (hpool _ (mem_of_candidates (List.mem_of_getElem? hc))) hother hout
            (hkept.justified j slot hget k (hall slot (List.mem_of_getElem? hget)))

end

/-! ## In the plane -/

/-- Sorting by distance and id. -/
def exactSort (K : Type) [Field K] [LinearOrder K] : NeighborSort (PruneArith.exact K) where
  sort := (UnstableSort.byKey fun n : Neighbor K => toLex (n.distance, n.id)).sort
  perm := (UnstableSort.byKey _).perm
  sorted l _ := by
    refine ((UnstableSort.byKey fun n : Neighbor K => toLex (n.distance, n.id)).sorted l).imp ?_
    intro a b hle
    rcases Prod.Lex.le_iff.mp hle with hlt | ⟨heq, hid⟩
    · exact .inl (decide_eq_true hlt)
    · have heq' : a.distance = b.distance := heq
      exact .inr ⟨decide_eq_false (by rw [heq']; exact lt_irrefl _), hid⟩

/-- Ids 1 and 2 are the points (1, 0) and (1, 2), and all others the origin. -/
def planePoint (x : UInt32) : ℚ × ℚ := if x = 1 then (1, 0) else if x = 2 then (1, 2) else (0, 0)

def planeDistance (x y : UInt32) : ℚ :=
  ((planePoint x).1 - (planePoint y).1) ^ 2 + ((planePoint x).2 - (planePoint y).2) ^ 2

theorem planeDistance_comm (x y : UInt32) : planeDistance x y = planeDistance y x := by
  unfold planeDistance
  ring

theorem planeDistance_nonneg (x y : UInt32) : 0 ≤ planeDistance x y := by
  unfold planeDistance
  positivity

/-- The points as candidates for the origin. -/
def planePool (ids : List UInt32) : List (Neighbor ℚ) := ids.map fun id => ⟨id, planeDistance 0 id⟩

def planePrune (alpha : ℚ) : RobustPrune (WithTop ℚ) := ⟨3, 750, alpha, false, .l2⟩

theorem robustPruneCandidates_covers_plane : ∃ fuel result,
    (∀ more, fuel ≤ more → (planePrune (6 / 5)).robustPruneCandidates (.exact ℚ)
      (fun x y => .ok (planeDistance x y)) (exactSort ℚ) more 0 (planePool [1, 2]) =
        some (.ok result)) ∧
    (result.length < 3 → ∃ k : Nat, (6 / 5 : ℚ) ^ k ≤ 6 / 5 ∧ (6 / 5 : ℚ) < (6 / 5) ^ (k + 1) ∧
      ∀ j c, ((planePrune (6 / 5)).candidates (.exact ℚ) (exactSort ℚ) (planePool [1, 2]))[j]? = some c →
        c.id ≠ 0 → c.id ∉ result → Covered planeDistance 0
          ((planePrune (6 / 5)).candidates (.exact ℚ) (exactSort ℚ) (planePool [1, 2])) result
          ((6 / 5 : ℚ) ^ k) j c) :=
  robustPruneCandidates_covers planeDistance planeDistance_comm planeDistance_nonneg (exactSort ℚ) 0
    (planePool [1, 2])
    (fun n hn => by
      obtain ⟨id, -, rfl⟩ := List.mem_map.mp hn
      rfl)
    (planePrune (6 / 5)) rfl (by decide) (6 / 5) rfl (by norm_num)

/-- A candidate is left out for no selected one that would account for it at `alpha`. -/
def LeavesUncovered (alpha : ℚ) (ids : List UInt32) : Prop :=
  ∃ result, (planePrune alpha).robustPruneCandidates (.exact ℚ)
      (fun x y => .ok (planeDistance x y)) (exactSort ℚ) 3 0 (planePool ids) = some (.ok result) ∧
    result.length < 3 ∧ ∃ c ∈ ids, c ≠ 0 ∧ c ∉ result ∧
      ∀ s ∈ result, ¬ (planeDistance c s = 0 ∨ alpha * planeDistance c s < planeDistance 0 c)

/-- With an `alpha` between two powers of 1.2, with one below all of them, and with the location in the
pool. -/
theorem robustPruneCandidates_uncovered :
    LeavesUncovered (13 / 10) [1, 2] ∧ LeavesUncovered (1 / 2) [1] ∧ LeavesUncovered (6 / 5) [0, 3] := by
  refine ⟨⟨[1], by decide +kernel, by decide, 2, by decide, by decide, by decide, ?_⟩,
    ⟨[], by decide +kernel, by decide, 1, by decide, by decide, by decide, List.forall_mem_nil _⟩,
    ⟨[], by decide +kernel, by decide, 3, by decide, by decide, by decide, List.forall_mem_nil _⟩⟩
  exact List.forall_mem_singleton.mpr (by decide +kernel)

end ForgeANN
