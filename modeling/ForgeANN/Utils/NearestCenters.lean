-- SUMMARY: When the closest centres are the closest: one centre asked for, and a distance below `f32::MAX`.
import ForgeANN.Utils.CenterRuns
import Mathlib.Analysis.Real.Sqrt
import Mathlib.Tactic.IntervalCases
import Mathlib.Tactic.NormNum

/-!
# Nearest centres

Of several centres none is found. For one centre the scan finds the nearest where
some distance is below the constant it starts from, and says centre 0 otherwise.
-/
namespace ForgeANN

open Lib Finset

variable {R : Type} [LinearOrder R] [Field R] {blas : Blas R} {call : ClosestCentersCall R}
  {fuel : Nat} {order : List Nat}

namespace ClosestCentersCall

/-- The squared distance of a point and a centre. -/
def sqDist (call : ClosestCentersCall R) (i c : Nat) : R :=
  ∑ l ∈ range call.dim,
    (call.data.getD (i * call.dim + l) 0 - call.pivotData.getD (c * call.dim + l) 0) ^ 2

structure IsNearest (call : ClosestCentersCall R) (i c : Nat) : Prop where
  lt : c < call.numCenters
  le : ∀ c' < call.numCenters, call.sqDist i c ≤ call.sqDist i c'

/-- The `k` nearest centres of a point, each once, and the nearest first. -/
structure KNearest (call : ClosestCentersCall R) (i : Nat) (chunk : List Nat) : Prop where
  length : chunk.length = call.k
  distinct : chunk.Nodup
  centers : ∀ c ∈ chunk, c < call.numCenters
  nearest : ∀ c ∈ chunk, ∀ c' < call.numCenters, c' ∉ chunk → call.sqDist i c < call.sqDist i c'
  first : ∃ c, chunk.head? = some c ∧ call.IsNearest i c

/-- Each point once, under its nearest centre. -/
structure Indexes (call : ClosestCentersCall R) (index : List (List Nat)) : Prop where
  length : index.length = call.numCenters
  once : ∀ c < call.numCenters, (index.getD c []).Nodup
  mem_iff : ∀ c < call.numCenters, ∀ j,
    j ∈ index.getD c [] ↔ j < call.numPoints ∧ call.IsNearest j c

def DistinctDistances (call : ClosestCentersCall R) : Prop :=
  ∀ i < call.numPoints, ∀ c < call.numCenters, ∀ c' < call.numCenters, c ≠ c' →
    call.sqDist i c ≠ call.sqDist i c'

/-- In whatever order the points get to the index: the computation comes to an end, and what it
leaves are the nearest centres and the points under theirs. -/
def FindsNearest (blas : Blas R) (call : ClosestCentersCall R) : Prop :=
  ∀ order : List Nat, order.Perm (List.range call.numPoints) →
    ∃ fuel centers index, computeClosestCenters fuel blas order call = .ok (centers, index) ∧
      centers.length = call.numPoints * call.k ∧
      (∀ i < call.numPoints, call.KNearest i (slot call.k centers i)) ∧
      (index.isSome = call.invertedIndex.isSome) ∧ ∀ lists ∈ index, call.Indexes lists

variable [IsStrictOrderedRing R] {i c c' : Nat}

omit [LinearOrder R] [IsStrictOrderedRing R] in
/-- What the computed distance leaves out is the same for all centres. -/
theorem computed_eq (call : ClosestCentersCall R) (i c : Nat) : call.computed i c =
    call.sqDist i c + (call.pointNorms.getD i 0 - rowNormSq call.data call.dim i) := by
  have hsquare : call.sqDist i c = rowNormSq call.data call.dim i +
      rowNormSq call.pivotData call.dim c - 2 * ∑ l ∈ range call.dim,
        call.data.getD (i * call.dim + l) 0 * call.pivotData.getD (c * call.dim + l) 0 := by
    rw [sqDist, rowNormSq, rowNormSq, mul_sum, ← sum_add_distrib, ← sum_sub_distrib]
    apply sum_congr rfl
    intro l _
    ring
  rw [computed, hsquare]
  ring

theorem computed_le_iff : call.computed i c ≤ call.computed i c' ↔
    call.sqDist i c ≤ call.sqDist i c' := by
  rw [computed_eq, computed_eq, add_le_add_iff_right]

/-- The scan finds the nearest centre below `f32::MAX`, or names centre 0. -/
theorem nearest_scanned_iff (hcenters : 1 ≤ call.numCenters) (i : Nat) :
    call.IsNearest i (call.scanned i) ↔
      (∃ c < call.numCenters, call.computed i c < f32Max) ∨ call.IsNearest i 0 := by
  have hmem : ∀ {c}, c < call.numCenters →
      call.computed i c ∈ (List.range call.numCenters).map (call.computed i) := fun hc =>
    List.mem_map_of_mem (List.mem_range.mpr hc)
  have hlt := call.scanned_lt hcenters i
  rcases scanMin_cases ((List.range call.numCenters).map (call.computed i)) with
    ⟨hstart, hnone⟩ | ⟨hfound, hbelow, hleast⟩
  · have hzero : call.scanned i = 0 := by rw [scanned, hstart]
    rw [hzero]
    refine ⟨.inr, fun h => h.resolve_left ?_⟩
    rintro ⟨c, hc, hmax⟩
    exact absurd hmax (not_lt.mpr (hnone _ (hmem hc)))
  · rw [← scanned, List.getElem?_map, List.getElem?_range hlt] at hfound
    have hvalue := Option.some.inj hfound
    rw [← hvalue] at hbelow hleast
    exact ⟨fun _ => .inl ⟨_, hlt, hbelow⟩,
      fun _ => ⟨hlt, fun c' hc' => computed_le_iff.mp (hleast _ (hmem hc'))⟩⟩

omit [IsStrictOrderedRing R] in
theorem IsNearest.eq (hdistinct : call.DistinctDistances) (hi : i < call.numPoints)
    (h : call.IsNearest i c) (h' : call.IsNearest i c') : c = c' := by
  by_contra hne
  exact hdistinct i hi c h.lt c' h'.lt hne (le_antisymm (h.le c' h'.lt) (h'.le c h.lt))

omit [IsStrictOrderedRing R] in
theorem IsNearest.kNearest (hdistinct : call.DistinctDistances) (hk : call.k = 1)
    (hi : i < call.numPoints) (h : call.IsNearest i c) : call.KNearest i [c] where
  length := hk.symm
  distinct := List.nodup_singleton c
  centers a ha := by
    rw [List.mem_singleton.mp ha]
    exact h.lt
  nearest a ha b hb hout := by
    rw [List.mem_singleton.mp ha]
    have hne : c ≠ b := fun heq => hout (List.mem_singleton.mpr heq.symm)
    exact lt_of_le_of_ne (h.le b hb) (hdistinct i hi c h.lt b hb hne)
  first := ⟨c, rfl, h⟩

omit [IsStrictOrderedRing R] in
/-- With the nearest centre found for every point, the index is right. -/
theorem indexes_scanned (hdistinct : call.DistinctDistances)
    (horder : order.Perm (List.range call.numPoints))
    (hnearest : ∀ i < call.numPoints, call.IsNearest i (call.scanned i)) :
    call.Indexes ((List.range call.numCenters).map fun c =>
      order.filter fun j => call.scanned j = c) := by
  have hlist : ∀ c < call.numCenters, ((List.range call.numCenters).map fun c =>
      order.filter fun j => call.scanned j = c).getD c [] =
        order.filter fun j => call.scanned j = c := by
    intro c hc
    rw [List.getD_eq_getElem?_getD, List.getElem?_map, List.getElem?_range hc]
    rfl
  constructor
  · rw [List.length_map, List.length_range]
  · intro c hc
    rw [hlist c hc]
    exact (horder.nodup_iff.mpr List.nodup_range).filter _
  · intro c hc j
    rw [hlist c hc, List.mem_filter, horder.mem_iff, List.mem_range, decide_eq_true_eq]
    constructor
    · rintro ⟨hj, rfl⟩
      exact ⟨hj, hnearest j hj⟩
    · rintro ⟨hj, hc⟩
      exact ⟨hj, (hnearest j hj).eq hdistinct hj hc⟩

theorem findsNearest_iff (blas : Blas R) (call : ClosestCentersCall R) (hk : 1 ≤ call.k)
    (hle : call.k ≤ call.numCenters) (hdistinct : call.DistinctDistances)
    (hfit : call.k = 1 → call.FitsBlas) :
    call.FindsNearest blas ↔ call.k = 1 ∧ 0 < call.numPoints ∧
      4 * (call.numPoints * call.numCenters) < 2 ^ 63 ∧
      ∀ i < call.numPoints,
        (∃ c < call.numCenters, call.computed i c < f32Max) ∨ call.IsNearest i 0 := by
  have hcenters : 1 ≤ call.numCenters := hk.trans hle
  constructor
  · intro h
    obtain ⟨fuel, centers, index, hrun, -, hchunks, -⟩ := h (List.range call.numPoints) (.refl _)
    obtain ⟨hpos, hroom, hone⟩ := computeClosestCenters_ok hk hrun
    have hfits := hfit hone
    have hn := hfits.numPoints_lt
    have hc := hfits.numCenters_lt
    have hproduct := mul_lt_of_lt (by omega : call.numCenters < 2 ^ 32) hn
    rw [wrap_of_lt (by omega), Nat.mul_comm call.numCenters] at hroom
    have hfour : 4 * (call.numPoints * call.numCenters) < 2 ^ 63 := by omega
    refine ⟨hone, hpos, hfour, fun i hi => (nearest_scanned_iff hcenters i).mp ?_⟩
    rw [computeClosestCenters_one hone hcenters hpos hfits hfour fun j hj => List.mem_range.mp hj]
      at hrun
    cases hrun
    obtain ⟨c, hhead, hnearest⟩ := (hchunks i hi).first
    rw [hone, List.head?_eq_getElem?, slot_getElem?, if_pos Nat.one_pos, Nat.mul_one, Nat.add_zero,
      List.getElem?_map, List.getElem?_range hi] at hhead
    cases hhead
    exact hnearest
  · rintro ⟨hone, hpos, hroom, hfound⟩ order horder
    have hnearest := fun i hi => (nearest_scanned_iff hcenters i).mpr (hfound i hi)
    refine ⟨0, _, _, computeClosestCenters_one hone hcenters hpos (hfit hone) hroom fun j hj =>
      List.mem_range.mp (horder.mem_iff.mp hj), ?_, fun i hi => ?_, ?_, ?_⟩
    · rw [List.length_map, List.length_range, hone, Nat.mul_one]
    · have hchunk : slot call.k ((List.range call.numPoints).map call.scanned) i =
          [call.scanned i] := by
        rw [hone, slot, Nat.mul_one, ← List.map_drop, ← List.map_take, List.range_eq_range',
          List.drop_range', List.take_range'_of_length_ge (by omega), Nat.zero_add, Nat.mul_one]
        rfl
      rw [hchunk]
      exact (hnearest i hi).kNearest hdistinct hone hi
    · rw [Option.isSome_map]
    · intro lists hlists
      obtain ⟨-, -, rfl⟩ := Option.map_eq_some_iff.mp hlists
      exact indexes_scanned hdistinct horder hnearest

end ClosestCentersCall

/-! ## Over the reals -/

/-- An entry of the product, and the old entries outside of it. -/
noncomputable def realSgemm (m n k : Nat) (alpha : ℝ) (a : List ℝ) (lda : Nat) (b : List ℝ)
    (ldb : Nat) (beta : ℝ) (c : List ℝ) (ldc : Nat) : List ℝ :=
  (List.range c.length).map fun t =>
    if t / ldc < m ∧ t % ldc < n then
      alpha * ∑ l ∈ range k, a.getD (t / ldc * lda + l) 0 * b.getD (t % ldc * ldb + l) 0 +
        beta * c.getD t 0
    else c.getD t 0

theorem realSgemm_apply {m n k lda ldb ldc : Nat} {alpha beta : ℝ} {a b c : List ℝ}
    (hn : n ≤ ldc) (hc : m * ldc ≤ c.length) {i j : Nat} (hi : i < m) (hj : j < n) :
    (realSgemm m n k alpha a lda b ldb beta c ldc).getD (i * ldc + j) 0 =
      alpha * ∑ l ∈ range k, a.getD (i * lda + l) 0 * b.getD (j * ldb + l) 0 +
        beta * c.getD (i * ldc + j) 0 := by
  have hbound := slot_bound ldc hi
  have hrow : (i * ldc + j) / ldc = i := by
    rw [Nat.mul_comm, Nat.mul_add_div (by omega), Nat.div_eq_of_lt (by omega), Nat.add_zero]
  have hcol : (i * ldc + j) % ldc = j := by
    rw [Nat.mul_comm, Nat.mul_add_mod, Nat.mod_eq_of_lt (by omega)]
  rw [realSgemm, List.getD_eq_getElem?_getD, List.getElem?_map,
    List.getElem?_range (by omega : i * ldc + j < c.length)]
  simp only [Option.map_some, Option.getD_some, hrow, hcol]
  rw [if_pos ⟨hi, hj⟩]

/-- BLAS in exact arithmetic. -/
noncomputable def realBlas : Blas ℝ where
  sgemm layout transa transb m n k alpha a lda b ldb beta c ldc :=
    if layout = .rowMajor ∧ transa = .none ∧ transb = .ordinary then
      realSgemm m.toNat n.toNat k.toNat alpha a lda.toNat b ldb.toNat beta c ldc.toNat
    else c
  snrm2 n x _ := √(∑ l ∈ range n.toNat, x.getD l 0 * x.getD l 0)
  sgemm_length layout transa transb m n k alpha a lda b ldb beta c ldc := by
    split_ifs
    · rw [realSgemm, List.length_map, List.length_range]
    · rfl
  sgemm_apply m n k lda ldb ldc alpha beta a b c _ _ _ _ _ _ _ _ hldc _ _ hc i hi j hj := by
    rw [if_pos ⟨rfl, rfl, rfl⟩]
    exact realSgemm_apply (by omega) hc hi hj
  snrm2_nonneg n x _ _ := Real.sqrt_nonneg _
  snrm2_sq n x _ _ := by
    rw [Int.toNat_natCast]
    exact Real.mul_self_sqrt (sum_nonneg fun l _ => mul_self_nonneg _)

namespace ClosestCentersCall

/-- Points at 0 and 3, centres at 0 and 4, and an index. -/
noncomputable def twoPoints : ClosestCentersCall ℝ where
  data := [0, 3]
  numPoints := 2
  dim := 1
  pivotData := [0, 4]
  numCenters := 2
  k := 1
  closestCentersIvf := [0, 0]
  invertedIndex := some [[], []]
  ptsNormsSquared := none
  data_length := rfl
  pivot_length := rfl
  ivf_length := rfl
  ivf_inMemory := by decide
  index_empty index hindex := (Option.some.inj hindex).symm
  norms_length norms hnorms := nomatch hnorms

theorem findsNearest_twoPoints : twoPoints.FindsNearest realBlas := by
  have hdistinct : twoPoints.DistinctDistances := by
    intro i hi c hc c' hc' hne
    have hi : i < 2 := hi
    have hc : c < 2 := hc
    have hc' : c' < 2 := hc'
    interval_cases i <;> interval_cases c <;> interval_cases c' <;>
      first
      | exact absurd rfl hne
      | norm_num [sqDist, twoPoints]
  refine (findsNearest_iff realBlas twoPoints le_rfl (by decide : 1 ≤ 2) hdistinct fun _ =>
    ⟨by decide, by decide, by decide, by decide⟩).mpr ⟨rfl, by decide, by decide, fun i hi => .inl ?_⟩
  have hi : i < 2 := hi
  interval_cases i
  · exact ⟨0, Nat.two_pos, by norm_num [computed, pointNorms, rowNormSq, twoPoints, f32Max]⟩
  · exact ⟨1, Nat.one_lt_two, by
      norm_num [computed, pointNorms, rowNormSq, twoPoints, f32Max, List.range_succ]⟩

/-- A point at 0 and centres at 0 and 4, both of which are asked for. -/
noncomputable def bothCenters : ClosestCentersCall ℝ where
  data := [0]
  numPoints := 1
  dim := 1
  pivotData := [0, 4]
  numCenters := 2
  k := 2
  closestCentersIvf := [0, 0]
  invertedIndex := none
  ptsNormsSquared := none
  data_length := rfl
  pivot_length := rfl
  ivf_length := rfl
  ivf_inMemory := by decide
  index_empty index hindex := nomatch hindex
  norms_length norms hnorms := nomatch hnorms

theorem bothCenters_never_returns : bothCenters.DistinctDistances ∧
    (∀ fuel, computeClosestCenters fuel realBlas [0] bothCenters = .error none) ∧
    ¬ bothCenters.FindsNearest realBlas := by
  have hrun : ∀ fuel, computeClosestCenters fuel realBlas [0] bothCenters = .error none := fun fuel =>
    computeClosestCenters_never_returns le_rfl le_rfl Nat.one_pos
      ⟨by decide, by decide, by decide, by decide⟩ (by decide)
  refine ⟨?_, hrun, fun h => ?_⟩
  · intro i hi c hc c' hc' hne
    have hi : i < 1 := hi
    have hc : c < 2 := hc
    have hc' : c' < 2 := hc'
    interval_cases i
    interval_cases c <;> interval_cases c' <;>
      first
      | exact absurd rfl hne
      | norm_num [sqDist, bothCenters]
  · obtain ⟨fuel, centers, index, hok, -⟩ := h [0] (.refl _)
    rw [hrun fuel] at hok
    cases hok

end ClosestCentersCall

end ForgeANN
