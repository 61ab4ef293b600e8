-- SUMMARY: Runs of the computation of closest centres: with one centre for each point it ends, with several it does not.
import ForgeANN.Utils.CenterRows

/-!
# Runs

All points are one block. Without a point there is no block size to divide by; with
one, the run is that of the block.
-/
namespace ForgeANN

open Lib Finset

variable {R : Type} [LinearOrder R] [Field R] {blas : Blas R} {call : ClosestCentersCall R}
  {fuel : Nat} {order : List Nat}

/-- A computation that comes to an end has a point, room for the matrix, and one centre to find. -/
theorem computeClosestCenters_ok (hk : 1 ≤ call.k) {out : List Nat × Option (List (List Nat))}
    (h : computeClosestCenters fuel blas order call = .ok out) :
    0 < call.numPoints ∧ wrap (call.numCenters * call.numPoints) * 4 < 2 ^ 63 ∧ call.k = 1 := by
  rw [computeClosestCenters] at h
  split_ifs at h with hle
  · cases h
  obtain ⟨-, -, h⟩ := bind_eq_ok.mp h
  obtain ⟨ptsNorms, -, h⟩ := bind_eq_ok.mp h
  obtain ⟨pivsNorms, -, h⟩ := bind_eq_ok.mp h
  obtain ⟨blocks, hblocks, h⟩ := bind_eq_ok.mp h
  obtain ⟨closest, hclosest, h⟩ := bind_eq_ok.mp h
  obtain ⟨matrix, hmatrix, h⟩ := bind_eq_ok.mp h
  obtain ⟨s, hrun, -⟩ := bind_eq_ok.mp h
  have hroom := (filled_eq_ok (bounded_eq_ok.mp hmatrix)).1
  have hpos : 0 < call.numPoints := by
    by_contra hnone
    have hzero : call.numPoints = 0 := by omega
    rw [hzero] at hblocks
    cases hblocks
  refine ⟨hpos, hroom, ?_⟩
  by_contra hseveral
  rw [bounded_eq_ok, nBlocks_self hpos] at hblocks
  cases hblocks
  rw [List.range_one, List.foldlM_cons] at hrun
  obtain ⟨after, hblock, -⟩ := bind_eq_ok.mp hrun
  rw [runBlock] at hblock
  obtain ⟨dataBlk, -, hblock⟩ := bind_eq_ok.mp hblock
  obtain ⟨normsBlk, -, hblock⟩ := bind_eq_ok.mp hblock
  obtain ⟨result, hresult, -⟩ := bind_eq_ok.mp hblock
  refine computeClosestCentersInBlock_several (by omega) (not_lt.mp hle) ?_ result hresult
  have hsize := call.ivf_inMemory
  have hplaces : 0 < call.numPoints * call.k := Nat.mul_pos hpos hk
  rw [call.ivf_length] at hsize
  rw [(filled_eq_ok (bounded_eq_ok.mp hclosest)).2, wrap_of_lt (by omega)]
  exact List.ne_nil_of_length_pos (by rw [List.length_replicate]; exact hplaces)

namespace ClosestCentersCall

/-- The norms the distances are computed with: those given, or those of the points. -/
def pointNorms (call : ClosestCentersCall R) : List R :=
  call.ptsNormsSquared.getD ((List.range call.numPoints).map (rowNormSq call.data call.dim))

/-- `‖x‖² + ‖c‖² - 2 x · c`, with the norm of the point that is given. -/
def computed (call : ClosestCentersCall R) (i c : Nat) : R :=
  call.pointNorms.getD i 0 + rowNormSq call.pivotData call.dim c -
    2 • ∑ l ∈ range call.dim,
      call.data.getD (i * call.dim + l) 0 * call.pivotData.getD (c * call.dim + l) 0

/-- The centre found for a point. -/
def scanned (call : ClosestCentersCall R) (i : Nat) : Nat :=
  (scanMin ((List.range call.numCenters).map (call.computed i))).2

/-- Sizes that the `i32`s of BLAS hold. -/
structure FitsBlas (call : ClosestCentersCall R) : Prop where
  numPoints_lt : call.numPoints < 2 ^ 31
  numCenters_lt : call.numCenters < 2 ^ 31
  dim_pos : 0 < call.dim
  dim_lt : call.dim < 2 ^ 31

omit [LinearOrder R] in
theorem pointNorms_length (call : ClosestCentersCall R) : call.pointNorms.length = call.numPoints := by
  have hgiven := call.norms_length
  rw [pointNorms]
  cases hnorms : call.ptsNormsSquared with
  | none => rw [Option.getD_none, List.length_map, List.length_range]
  | some norms => exact hgiven norms hnorms

theorem scanned_lt (call : ClosestCentersCall R) (hcenters : 1 ≤ call.numCenters) (i : Nat) :
    call.scanned i < call.numCenters := by
  rw [scanned]
  rcases scanMin_cases ((List.range call.numCenters).map (call.computed i)) with
    ⟨hstart, -⟩ | ⟨hfound, -, -⟩
  · rw [hstart]
    exact hcenters
  · have hlt := (List.getElem?_eq_some_iff.mp hfound).1
    rwa [List.length_map, List.length_range] at hlt

end ClosestCentersCall

theorem bounded_filled {α : Type} (value : α) {len : Nat} (h : len * 4 < 2 ^ 63) :
    bounded (filled value len) = .ok (List.replicate len value) := by
  rw [filled, if_pos h]
  rfl

theorem indexRange_whole {α : Type} (l : List α) : indexRange l 0 l.length = .ok l := by
  rw [indexRange, if_neg (Nat.not_lt_zero _), if_neg (Nat.lt_irrefl _), List.take_length,
    List.drop_zero]

/-- The block of all points, with one centre for each. -/
theorem computeClosestCentersInBlock_one (fuel : Nat) (blas : Blas R)
    (hcenters : 1 ≤ call.numCenters) (hfit : call.FitsBlas)
    (hroom : 4 * (call.numPoints * call.numCenters) < 2 ^ 63) :
    ∃ matrix, computeClosestCentersInBlock fuel blas call.data call.numPoints call.dim
      call.pivotData call.numCenters call.pointNorms
      ((List.range call.numCenters).map (rowNormSq call.pivotData call.dim))
      (List.replicate call.numPoints 0)
      (List.replicate (call.numCenters * call.numPoints) 0) 1 =
        .ok ((List.range call.numPoints).map call.scanned, matrix) := by
  have hn := hfit.numPoints_lt
  have hc := hfit.numCenters_lt
  rw [computeClosestCentersInBlock, if_neg (by omega), bounded_filled _ (by omega), ok_bind,
    bounded_filled _ (by omega), ok_bind]
  simp only
  set matrix := distMatrixOf blas call.data call.numPoints call.dim call.pivotData call.numCenters
    call.pointNorms ((List.range call.numCenters).map (rowNormSq call.pivotData call.dim))
    (List.replicate (call.numCenters * call.numPoints) 0) with hmatrix
  have hpivsNorms : ((List.range call.numCenters).map
      (rowNormSq call.pivotData call.dim)).length = call.numCenters := by
    rw [List.length_map, List.length_range]
  have hzeros : (List.replicate (call.numCenters * call.numPoints) (0 : R)).length =
      call.numPoints * call.numCenters := by
    rw [List.length_replicate, Nat.mul_comm]
  have hlen : matrix.length = call.numPoints * call.numCenters :=
    distMatrixOf_length.trans hzeros
  have hrow : ∀ i < call.numPoints, slot call.numCenters matrix i =
      (List.range call.numCenters).map (call.computed i) := by
    intro i hi
    apply List.ext_getElem
    · rw [slot_length hlen hi, List.length_map, List.length_range]
    · intro j hj hj'
      rw [slot_length hlen hi] at hj
      have hentry := distMatrixOf_getD blas hn hc hfit.dim_pos hfit.dim_lt call.data_length
        call.pivot_length call.pointNorms_length hpivsNorms hzeros hi hj
      rw [← hmatrix, ← slot_getD hj, List.getD_eq_getElem?_getD,
        List.getElem?_eq_getElem (by rw [slot_length hlen hi]; exact hj), Option.getD_some,
        List.getD_eq_getElem?_getD (l := (List.range call.numCenters).map _), List.getElem?_map,
        List.getElem?_range hj] at hentry
      rw [hentry, List.getElem_map, List.getElem_range, ClosestCentersCall.computed, nsmul_eq_mul,
        Nat.cast_ofNat]
      rfl
  rw [if_pos True.intro, List.length_replicate]
  refine ⟨matrix, ?_⟩
  rw [mapM_eq_ok_map (g := call.scanned), ok_bind]
  intro i hi
  rw [List.mem_range] at hi
  rw [rowOf, indexRange_slot hlen hi (by omega), hrow i hi]
  have hlt := call.scanned_lt hcenters i
  rw [ClosestCentersCall.scanned] at hlt ⊢
  exact congrArg Except.ok (Nat.mod_eq_of_lt (by omega))

/-- In whatever order the points are entered, a centre's list has those it is found for. -/
theorem enterPoints_eq {closest : List Nat} {found : Nat → Nat} {numCenters : Nat}
    (hfound : ∀ j ∈ order, closest[j]? = some (found j) ∧ found j < numCenters)
    (entered : Nat → List Nat) :
    order.foldlM (enterPoint closest) ((List.range numCenters).map entered) =
      .ok ((List.range numCenters).map fun c => entered c ++ order.filter fun j => found j = c) := by
  induction order generalizing entered with
  | nil =>
      simp only [List.filter_nil, List.append_nil]
      rfl
  | cons j order ih =>
      obtain ⟨hj, hlt⟩ := hfound j List.mem_cons_self
      have henter : enterPoint closest ((List.range numCenters).map entered) j =
          .ok ((List.range numCenters).map fun c =>
            if found j = c then entered c ++ [j] else entered c) := by
        rw [enterPoint, hj]
        simp only
        rw [if_pos (by rw [List.length_map, List.length_range]; exact hlt)]
        congr 1
        apply List.ext_getElem?
        intro c
        rw [List.getElem?_modify, List.getElem?_map, List.getElem?_map]
        by_cases hc : c < numCenters
        · rw [List.getElem?_range hc]
          simp only [Option.map_some]
          split_ifs <;> rfl
        · rw [List.getElem?_eq_none (by rw [List.length_range]; omega)]
          rfl
      rw [List.foldlM_cons, henter, ok_bind, ih fun i hi => hfound i (List.mem_cons_of_mem j hi)]
      congr 1
      apply List.map_congr_left
      intro c _
      by_cases hc : found j = c
      · rw [if_pos hc, List.filter_cons_of_pos (by simpa using hc), List.append_assoc,
          List.singleton_append]
      · rw [if_neg hc, List.filter_cons_of_neg (by simpa using hc)]

/-- With sizes that fit, the computation is that of its one block. -/
theorem computeClosestCenters_eq (hle : call.k ≤ call.numCenters) (hpos : 0 < call.numPoints)
    (hfit : call.FitsBlas) (hroom : 4 * (call.numPoints * call.numCenters) < 2 ^ 63) :
    computeClosestCenters fuel blas order call = (do
      let s ← runBlock fuel blas order call call.pointNorms
        ((List.range call.numCenters).map (rowNormSq call.pivotData call.dim)) call.numPoints
        ⟨List.replicate (call.numPoints * call.k) 0,
          List.replicate (call.numCenters * call.numPoints) 0, call.closestCentersIvf,
          call.invertedIndex⟩ 0
      .ok (s.closestCentersIvf, s.invertedIndex)) := by
  have hn := hfit.numPoints_lt
  have hc := hfit.numCenters_lt
  have hdim := hfit.dim_lt
  have hivf := call.ivf_inMemory
  rw [call.ivf_length] at hivf
  have hdata : call.numPoints * call.dim < 2 ^ 64 :=
    (mul_lt_of_lt (by omega) hdim).trans (by decide)
  have hpivots : call.numCenters * call.dim < 2 ^ 64 :=
    (mul_lt_of_lt (by omega) hdim).trans (by decide)
  have hnorms : ptsNorms blas call = .ok call.pointNorms := by
    rw [ptsNorms, ClosestCentersCall.pointNorms]
    cases call.ptsNormsSquared with
    | some norms => rfl
    | none =>
        rw [bounded_filled _ (by omega), ok_bind,
          computeVecsL2sq_eq blas call.data_length hdata hdim]
        rfl
  rw [computeClosestCenters, if_neg (by omega), bounded_filled _ (by omega), ok_bind, hnorms, ok_bind,
    computeVecsL2sq_eq blas call.pivot_length hpivots hdim, bounded_ok, ok_bind]
  simp only
  rw [nBlocks_self hpos, bounded_ok, ok_bind, wrap_of_lt (by omega), bounded_filled _ (by omega),
    ok_bind, wrap_of_lt (by rw [Nat.mul_comm]; omega),
    bounded_filled _ (by rw [Nat.mul_comm call.numCenters]; omega), ok_bind, List.range_one,
    List.foldlM_cons]
  cases runBlock fuel blas order call call.pointNorms
    ((List.range call.numCenters).map (rowNormSq call.pivotData call.dim)) call.numPoints
    ⟨List.replicate (call.numPoints * call.k) 0,
      List.replicate (call.numCenters * call.numPoints) 0, call.closestCentersIvf,
      call.invertedIndex⟩ 0 with
  | ok s => rfl
  | error e => rfl

/-- The block is that of all points. -/
theorem runBlock_first {pivsNorms : List R} {s : ClosestCentersState R} :
    runBlock fuel blas order call call.pointNorms pivsNorms call.numPoints s 0 =
      (computeClosestCentersInBlock fuel blas call.data call.numPoints call.dim call.pivotData
        call.numCenters call.pointNorms pivsNorms s.closestCenters s.distanceMatrix call.k) >>=
          fun result => storeBlock order s result.1 result.2 := by
  have hwrap : wrap 0 = 0 := rfl
  rw [runBlock, Nat.zero_mul, Nat.zero_mul, hwrap, indexRange_whole, bounded_ok, ok_bind,
    indexRange_whole, bounded_ok, ok_bind, Nat.sub_zero, Nat.min_self]

/-- With one centre for each point, the computation comes to an end. -/
theorem computeClosestCenters_one (hk : call.k = 1) (hcenters : 1 ≤ call.numCenters)
    (hpos : 0 < call.numPoints) (hfit : call.FitsBlas)
    (hroom : 4 * (call.numPoints * call.numCenters) < 2 ^ 63)
    (horder : ∀ j ∈ order, j < call.numPoints) :
    computeClosestCenters fuel blas order call =
      .ok ((List.range call.numPoints).map call.scanned, call.invertedIndex.map fun _ =>
        (List.range call.numCenters).map fun c => order.filter fun j => call.scanned j = c) := by
  obtain ⟨matrix, hblock⟩ := computeClosestCentersInBlock_one fuel blas hcenters hfit hroom
  have hivf := call.ivf_length
  rw [hk, Nat.mul_one] at hivf
  rw [computeClosestCenters_eq (by omega) hpos hfit hroom, runBlock_first, hk, Nat.mul_one, hblock,
    ok_bind, storeBlock,
    if_neg (by rw [hivf, List.length_map, List.length_range]; exact not_not.mpr rfl)]
  cases hindex : call.invertedIndex with
  | none => rfl
  | some index =>
      have hempty : index = (List.range call.numCenters).map fun _ => [] := by
        rw [call.index_empty index hindex, List.map_const', List.length_range]
      simp only
      have hfound : ∀ j ∈ order, ((List.range call.numPoints).map call.scanned)[j]? =
          some (call.scanned j) ∧ call.scanned j < call.numCenters := by
        intro j hj
        rw [List.getElem?_map, List.getElem?_range (horder j hj)]
        exact ⟨rfl, call.scanned_lt hcenters j⟩
      rw [hempty, enterPoints_eq hfound, bounded_ok, ok_bind]
      rfl

/-- With several, it does not, however deep the comparisons may nest. -/
theorem computeClosestCenters_never_returns (hk : 2 ≤ call.k) (hle : call.k ≤ call.numCenters)
    (hpos : 0 < call.numPoints) (hfit : call.FitsBlas)
    (hroom : 4 * (call.numPoints * call.numCenters) < 2 ^ 63) :
    computeClosestCenters fuel blas order call = .error none := by
  have hn := hfit.numPoints_lt
  have hc := hfit.numCenters_lt
  have hplaces : List.replicate (call.numPoints * call.k) 0 ≠ [] :=
    List.ne_nil_of_length_pos (by rw [List.length_replicate]; exact Nat.mul_pos hpos (by omega))
  rw [computeClosestCenters_eq hle hpos hfit hroom, runBlock_first, computeClosestCentersInBlock,
    if_neg (by omega), bounded_filled _ (by omega), ok_bind, bounded_filled _ (by omega), ok_bind]
  simp only
  have hlen : (distMatrixOf blas call.data call.numPoints call.dim call.pivotData call.numCenters
      call.pointNorms ((List.range call.numCenters).map (rowNormSq call.pivotData call.dim))
      (List.replicate (call.numCenters * call.numPoints) 0)).length =
        call.numPoints * call.numCenters := by
    rw [distMatrixOf_length, List.length_replicate, Nat.mul_comm]
  have hrow := indexRange_slot hlen hpos (by omega)
  rw [if_neg (by omega), if_neg (by omega), heaps_error hk hplaces (bounded_eq_ok.mpr hrow)
    (by rw [slot_length hlen hpos]; omega), error_bind, error_bind]
  rfl

end ForgeANN
