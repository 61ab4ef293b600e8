-- SUMMARY: RobustPrune in single precision: the growing bound overflows before it meets f32::MAX, and rows are pruned as wanted.
import ForgeANN.Lib.SortDedup
import ForgeANN.Prune.Selected
import Mathlib.Data.Prod.Lex

/-!
# Single precision

The bound grows by 1.2 up to infinity and never is `f32::MAX` on its way, so the
factor `f32::MAX` is above every bound up to an `alpha` that is not infinite.
-/
namespace ForgeANN

open Lib

/-! ## The bounds -/

/-- The next `n` bounds are below `f32::MAX`, and the one after them is infinite. -/
def overflowsAfter : Nat → F32 → Bool
  | 0, v => decide (v = .infinity)
  | n + 1, v => v.lt .maxValue && overflowsAfter n (PruneArith.f32.grow v)

theorem bound_of_overflowsAfter {n k : Nat} (h : overflowsAfter n (PruneArith.f32.bound k) = true) :
    (∀ i, i < n → (PruneArith.f32.bound (k + i)).lt .maxValue = true) ∧
      PruneArith.f32.bound (k + n) = .infinity := by
  induction n generalizing k with
  | zero => exact ⟨fun i hi => absurd hi (by omega), of_decide_eq_true h⟩
  | succ n ih =>
      rw [overflowsAfter, Bool.and_eq_true] at h
      obtain ⟨hbelow, hend⟩ := ih (k := k + 1) h.2
      refine ⟨fun i hi => ?_, ?_⟩
      · cases i with
        | zero => exact h.1
        | succ i =>
            have hi' := hbelow i (by omega)
            rwa [Nat.add_right_comm] at hi'
      · rwa [Nat.add_right_comm] at hend

theorem overflowsAfter_one : overflowsAfter 487 (PruneArith.f32.bound 0) = true := by
  decide +kernel

theorem bound_lt_maxValue {k : Nat} (h : k < 487) :
    (PruneArith.f32.bound k).lt .maxValue = true := by
  have hbelow := (bound_of_overflowsAfter overflowsAfter_one).1 k h
  rwa [Nat.zero_add] at hbelow

theorem bound_eq_infinity {k : Nat} (h : 487 ≤ k) : PruneArith.f32.bound k = .infinity := by
  induction k, h using Nat.le_induction with
  | base => exact (bound_of_overflowsAfter overflowsAfter_one).2
  | succ k _ ih =>
      rw [PruneArith.bound, ih]
      decide +kernel

theorem eq_infinity_of_ge {v : F32} (h : v.ge .infinity = true) : v = .infinity := by
  obtain ⟨hv, -, hkey⟩ := F32.ge_iff.mp h
  have hmag : v.mag ≤ 0x7f800000 := by
    rw [F32.isNaN, decide_eq_false_iff_not] at hv
    exact Nat.le_of_not_lt hv
  have hinf : F32.infinity.key = 0x7f800000 := by decide
  rw [hinf, F32.key] at hkey
  split_ifs at hkey with hsign
  · have hbits : v.bits.toNat = 0x7f800000 := by
      rw [F32.mag] at hmag hkey
      omega
    have heq : v.bits = 0x7f800000 := UInt32.toNat_inj.mp hbits
    obtain ⟨bits⟩ := v
    cases heq
    rfl
  · omega

theorem pruneLaws_f32 {alpha : F32} (h : alpha ≠ .infinity) : PruneLaws .f32 alpha where
  gt_max f q c := F32.lt_max f q c
  gt_of_gt_alpha f c hf hc := by
    have hf' := F32.lt_iff.mp hf
    have hc' := F32.ge_iff.mp hc
    exact F32.lt_iff.mpr ⟨hc'.2.1, hf'.2.1, lt_of_le_of_lt hc'.2.2 hf'.2.2⟩
  gt_maxValue k hk := by
    by_cases hlt : k < 487
    · exact bound_lt_maxValue hlt
    · rw [bound_eq_infinity (by omega)] at hk
      exact absurd (eq_infinity_of_ge hk) h
  ends := by
    refine ⟨487, Bool.eq_false_iff.mpr fun hk => ?_⟩
    rw [bound_eq_infinity (Nat.le_refl _)] at hk
    exact h (eq_infinity_of_ge hk)

variable {getDistance : UInt32 → UInt32 → AnnResult F32} {prune : RobustPrune F32}
  {pool : List (Neighbor F32)}

/-- The pruning of the code, for any `alpha` but infinity. -/
theorem robustPruneCandidates_f32 (sort : NeighborSort .f32) (location : UInt32) (halpha : prune.alpha ≠ .infinity)
    (hrepeats : RepeatsAgree .f32 getDistance pool) : ∃ fuel outcome,
      (∀ more, fuel ≤ more →
        prune.robustPruneCandidates .f32 getDistance sort more location pool = some outcome) ∧
      (RobustPrune.DistancesKnown getDistance prune pool → ∃ result, outcome = .ok result) ∧
      ∀ result, outcome = .ok result → RobustPruned .f32 prune sort location pool result :=
  robustPruneCandidates_spec (pruneLaws_f32 halpha) hrepeats

/-- Sorting by distance and id. -/
def neighborSort : NeighborSort .f32 where
  sort := (UnstableSort.byKey fun n : Neighbor F32 => toLex (n.distance.key, n.id)).sort
  perm := (UnstableSort.byKey _).perm
  sorted l hnumbers := by
    have hsorted := (UnstableSort.byKey fun n : Neighbor F32 => toLex (n.distance.key, n.id)).sorted l
    have hperm := (UnstableSort.byKey fun n : Neighbor F32 => toLex (n.distance.key, n.id)).perm l
    refine hsorted.imp_of_mem fun {a b} ha hb hle => ?_
    have ha' : a.distance.isNaN = false := hnumbers a (hperm.mem_iff.mp ha)
    have hb' : b.distance.isNaN = false := hnumbers b (hperm.mem_iff.mp hb)
    rcases Prod.Lex.le_iff.mp hle with hlt | ⟨heq, hid⟩
    · exact .inl (F32.lt_iff.mpr ⟨ha', hb', hlt⟩)
    · refine .inr ⟨Bool.eq_false_iff.mpr fun hlt => ?_, hid⟩
      have hkey : a.distance.key = b.distance.key := heq
      have hlt' := (F32.lt_iff.mp hlt).2.2
      omega

/-- Distinct ids are at distance one. -/
def unitDistance (x y : UInt32) : AnnResult F32 :=
  .ok (if x = y then .zero else ⟨0x3f800000⟩)

/-- Three neighbours at distance one, two of them the same, and the location itself. -/
def unitPool : List (Neighbor F32) :=
  [⟨2, ⟨0x3f800000⟩⟩, ⟨1, ⟨0x3f800000⟩⟩, ⟨0, .zero⟩, ⟨1, ⟨0x3f800000⟩⟩]

theorem robustPruneCandidates_f32_unitPool : ∃ fuel result,
    (∀ more, fuel ≤ more →
      (⟨3, 750, ⟨0x3f99999a⟩, true, .l2⟩ : RobustPrune F32).robustPruneCandidates .f32 unitDistance
        neighborSort more 0 unitPool = some (.ok result)) ∧
    RobustPruned .f32 ⟨3, 750, ⟨0x3f99999a⟩, true, .l2⟩ neighborSort 0 unitPool result := by
  have halpha : (⟨3, 750, ⟨0x3f99999a⟩, true, .l2⟩ : RobustPrune F32).alpha ≠ .infinity := by decide
  have hrepeats : RepeatsAgree .f32 unitDistance unitPool := by
    refine (by decide : unitPool.Pairwise fun m n => m.id = n.id → m.distance = n.distance).imp ?_
    intro m n hsame hid
    refine ⟨hsame hid, fun djk hdjk => ?_⟩
    rw [unitDistance, if_pos hid.symm] at hdjk
    cases hdjk
    decide
  obtain ⟨fuel, outcome, hends, hok, hspec⟩ :=
    robustPruneCandidates_f32 neighborSort 0 halpha hrepeats
  obtain ⟨result, rfl⟩ := hok ⟨by decide, fun m _ n _ => ⟨_, rfl⟩⟩
  exact ⟨fuel, result, hends, hspec result rfl⟩

/-- The vector of id 1 has an infinite component, so that it is not even at a distance from itself. -/
def infiniteVector (x y : UInt32) : AnnResult F32 :=
  if x = 1 ∧ y = 1 then .ok ⟨0x7fc00000⟩ else .ok .infinity

/-- With a cap that cuts off ids behind repeated ones, with a repeated id that is at no distance from
itself, and with an infinite `alpha`. -/
theorem robustPruneCandidates_f32_fails :
    (∃ (pool : List (Neighbor F32)) (result : List UInt32),
      (⟨2, 2, ⟨0x3f99999a⟩, true, .l2⟩ : RobustPrune F32).robustPruneCandidates .f32 unitDistance
        neighborSort 3 0 pool = some (.ok result) ∧
      (otherIds 0 pool).toFinset.card ≤ 2 ∧ ¬ result.Perm (otherIds 0 pool).dedup) ∧
    (∃ (pool : List (Neighbor F32)) (result : List UInt32),
      (⟨2, 750, ⟨0x3f99999a⟩, true, .l2⟩ : RobustPrune F32).robustPruneCandidates .f32
        infiniteVector neighborSort 3 0 pool = some (.ok result) ∧ ¬ result.Nodup) ∧
    (∃ (pool : List (Neighbor F32)) (result : List UInt32),
      (⟨2, 750, .infinity, true, .l2⟩ : RobustPrune F32).robustPruneCandidates .f32 unitDistance
        neighborSort 500 0 pool = some (.ok result) ∧ ¬ result.Nodup) := by
  refine ⟨?_, ?_, ?_⟩
  · exact ⟨[⟨1, ⟨0x3f800000⟩⟩, ⟨1, ⟨0x3f800000⟩⟩, ⟨2, ⟨0x40000000⟩⟩], [1], by decide +kernel,
      by decide +kernel, by decide +kernel⟩
  · exact ⟨[⟨1, .infinity⟩, ⟨1, .infinity⟩], [1, 1], by decide +kernel, by decide⟩
  · exact ⟨[⟨1, ⟨0x3f800000⟩⟩], [1, 1], by decide +kernel, by decide⟩

/-! ## Rows -/

/-- The pruning of the final rows. -/
def finalPrune (maxDegree : Nat) (metric : Metric) : RobustPrune F32 where
  maxDegree := maxDegree
  maxCandidateSize := 750
  alpha := ⟨0x3f99999a⟩
  saturateGraph := true
  metric := metric

/-- One row of `final_robust_prune_rows`. -/
def pruneRow (getDistance : UInt32 → UInt32 → AnnResult F32) (sort : NeighborSort .f32)
    (maxDegree : Nat) (metric : Metric) (fuel : Nat) (vid : UInt32) (row : List UInt32) :
    Option (Except PruneError (List UInt32)) :=
  if row.isEmpty then some (.ok row)
  else
    match row.mapM fun nid => (getDistance vid nid).map fun distance => Neighbor.mk nid distance with
    | .error err => some (.error (.ann err))
    | .ok pool => (finalPrune maxDegree metric).robustPruneCandidates .f32 getDistance sort fuel vid pool

theorem pool_of_row {vid : UInt32} {row : List UInt32}
    (h : (row.mapM fun nid => (getDistance vid nid).map fun distance => Neighbor.mk nid distance) =
      .ok pool) :
    pool.map Neighbor.id = row ∧ ∀ n ∈ pool, getDistance vid n.id = .ok n.distance := by
  have hall := forall₂_of_mapM h
  clear h
  induction hall with
  | nil => exact ⟨rfl, fun n hn => absurd hn List.not_mem_nil⟩
  | @cons nid n row pool hhead _ ih =>
      cases hd : getDistance vid nid with
      | error err =>
          rw [hd] at hhead
          cases hhead
      | ok distance =>
          rw [hd] at hhead
          cases hhead
          exact ⟨congrArg _ ih.1, List.forall_mem_cons.mpr ⟨hd, ih.2⟩⟩

/-- A pruned row has distinct ids of the row other than its own, no more than the degree. One with no
more than that of them, and no more entries than the cap, comes back in another order. -/
theorem pruneRow_spec (sort : NeighborSort .f32) (maxDegree : Nat) (metric : Metric) (vid : UInt32)
    (row : List UInt32)
    (hself : ∀ nid ∈ row, ∀ djk, getDistance nid nid = .ok djk → djk.eq .zero = true) :
    ∃ fuel outcome, (∀ more, fuel ≤ more →
      pruneRow getDistance sort maxDegree metric more vid row = some outcome) ∧
      ∀ result, outcome = .ok result →
        result.Nodup ∧ vid ∉ result ∧ (∀ x ∈ result, x ∈ row) ∧ result.length ≤ maxDegree ∧
        (row.length ≤ 750 → (row.filter fun id => id ≠ vid).toFinset.card ≤ maxDegree →
          result.Perm (row.filter fun id => id ≠ vid).dedup) := by
  unfold pruneRow
  by_cases hempty : row.isEmpty = true
  · obtain rfl := List.isEmpty_iff.mp hempty
    refine ⟨0, .ok [], fun _ _ => rfl, ?_⟩
    rintro result ⟨⟩
    exact ⟨List.nodup_nil, List.not_mem_nil, fun x hx => hx, Nat.zero_le _, fun _ _ => .refl _⟩
  · simp only [if_neg hempty]
    cases hpool : row.mapM fun nid =>
        (getDistance vid nid).map fun distance => Neighbor.mk nid distance with
    | error err => exact ⟨0, .error (.ann err), fun _ _ => rfl, fun result h => by cases h⟩
    | ok pool =>
        obtain ⟨hids, hdistance⟩ := pool_of_row hpool
        have hrepeats : RepeatsAgree .f32 getDistance pool := by
          refine List.pairwise_of_forall_mem_list fun m hm n hn hid => ⟨?_, fun djk hdjk => ?_⟩
          · have hsame := hdistance m hm
            rw [hid, hdistance n hn] at hsame
            exact (Except.ok.inj hsame).symm
          · rw [hid] at hdjk
            exact hself n.id (hids ▸ List.mem_map_of_mem hn) djk hdjk
        have halpha : (⟨0x3f99999a⟩ : F32) ≠ .infinity := by decide
        obtain ⟨fuel, outcome, hends, -, hspec⟩ : ∃ fuel outcome, (∀ more, fuel ≤ more →
            (finalPrune maxDegree metric).robustPruneCandidates .f32 getDistance sort more vid pool =
              some outcome) ∧ _ ∧ ∀ result, outcome = .ok result →
            RobustPruned .f32 (finalPrune maxDegree metric) sort vid pool result :=
          robustPruneCandidates_spec (pruneLaws_f32 halpha) hrepeats
        refine ⟨fuel, outcome, hends, fun result h => ?_⟩
        have hresult := hspec result h
        have hother : otherIds vid pool = row.filter fun id => id ≠ vid := by rw [otherIds, hids]
        refine ⟨hresult.nodup, hresult.location_notMem, fun x hx => ?_, hresult.length_le,
          fun hcap hroom => ?_⟩
        · have hmem := hresult.drawn x hx
          obtain ⟨n, hn, rfl⟩ := List.mem_map.mp hmem
          exact hids ▸ List.mem_map_of_mem (mem_of_candidates hn)
        · rw [← hother] at hroom ⊢
          have habove : PruneArith.f32.gt ⟨0x3f99999a⟩ PruneArith.f32.one = true := by decide
          refine hresult.permutation rfl habove ?_ hroom
          rw [← hids, List.length_map] at hcap
          exact hcap

end ForgeANN
