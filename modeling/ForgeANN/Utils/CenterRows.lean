-- SUMMARY: The parts of the computation of closest centres: the heap that does not return, the matrix of distances, and the scan.
import ForgeANN.Lib.Slots
import ForgeANN.Utils.ClosestCenters
import Mathlib.Algebra.BigOperators.Ring.Finset
import Mathlib.Data.List.Induction
import Mathlib.Tactic.Ring

/-!
# Rows of distances

The ordering of the heap never returns, so that nothing comes of a second item.
The three products come to the norms and the scalar product of each point and
each centre. A scan of a row ends at the least distance below the constant that
it starts from.
-/
namespace ForgeANN

open Lib Finset

variable {R : Type}

theorem bounded_eq_ok {α : Type} {r : AnnResult α} {a : α} : bounded r = .ok a ↔ r = .ok a := by
  cases r with
  | error e => exact ⟨fun h => (nomatch h), fun h => (nomatch h)⟩
  | ok b => exact ⟨fun h => (by cases h; rfl), fun h => (by cases h; rfl)⟩

theorem bounded_ok {α : Type} (a : α) : bounded (.ok a) = .ok a := rfl

theorem filled_eq_ok {α : Type} {value : α} {len : Nat} {l : List α} (h : filled value len = .ok l) :
    len * 4 < 2 ^ 63 ∧ l = List.replicate len value := by
  rw [filled] at h
  split_ifs at h with hlen
  cases h
  exact ⟨hlen, rfl⟩

theorem nBlocks_self {n : Nat} (hpos : 0 < n) : nBlocks n n = .ok 1 := by
  rw [nBlocks, isMultipleOf, if_neg hpos.ne', divide, if_neg hpos.ne', Nat.mod_self, Nat.div_self hpos]
  rfl

/-! ## Several centres -/

/-- Each of the two comparisons calls the other. -/
theorem PivotContainer.never_returns (fuel : Nat) (a b : PivotContainer R) :
    partialCmp fuel a b = .error none ∧ cmp fuel a b = .error none := by
  induction fuel with
  | zero => exact ⟨rfl, rfl⟩
  | succ fuel ih =>
      constructor
      · rw [partialCmp, ih.2, error_bind]
      · rw [cmp, ih.1, error_bind]

theorem rowOf_length {distMatrix current : List R} {numCenters : Nat} (hcenters : numCenters < 2 ^ 64)
    (h : rowOf distMatrix numCenters 0 = .ok current) : current.length = numCenters := by
  have hzero : wrap (0 * numCenters) = 0 := by rw [Nat.zero_mul]; rfl
  have hone : wrap ((0 + 1) * numCenters) = numCenters := by
    rw [Nat.zero_add, Nat.one_mul, wrap_of_lt hcenters]
  rw [rowOf, bounded_eq_ok, hzero, hone, indexRange, if_neg (Nat.not_lt_zero _)] at h
  split_ifs at h with hend
  cases h
  rw [List.drop_zero, List.length_take, Nat.min_eq_left (not_lt.mp hend)]

variable [LinearOrder R]

/-- The second item does not get into the heap. -/
theorem topKQueue_error (fuel : Nat) {k : Nat} (hk : 2 ≤ k) {current : List R}
    (hlen : 2 ≤ current.length) : topKQueue fuel k current = .error none := by
  match current, hlen with
  | first :: second :: rest, _ =>
      have hfirst : queuePivot fuel k [] (first, 0) = .ok [⟨0, first⟩] := by
        rw [queuePivot, if_pos (by rw [List.length_nil]; omega)]
        exact ArrayHeap.push_nil _
      have hsecond : queuePivot fuel k [⟨0, first⟩] (second, 1) = .error none := by
        rw [queuePivot, if_pos (by rw [List.length_singleton]; omega)]
        exact ArrayHeap.push_error (fun a b => (PivotContainer.never_returns fuel a b).1)
          (List.cons_ne_nil _ _) _
      rw [topKQueue, List.zipIdx_cons, List.zipIdx_cons, List.foldlM_cons, hfirst, ok_bind,
        List.foldlM_cons, hsecond, error_bind]

/-- Where the row of the first point is there, its heap does not return. -/
theorem heaps_error {fuel : Nat} {numCenters k : Nat} {centerIndex : List Nat}
    {distMatrix current : List R} (hk : 2 ≤ k) (hpoints : centerIndex ≠ [])
    (hrow : rowOf distMatrix numCenters 0 = .ok current) (hlen : 2 ≤ current.length) :
    ((chunks k centerIndex).zipIdx.mapM fun (centerChunk, i) => do
      let current ← rowOf distMatrix numCenters i
      let queue ← topKQueue fuel k current
      popCenters fuel centerChunk queue) = .error none := by
  cases hchunks : chunks k centerIndex with
  | nil =>
      have hflat := chunks_flatten (by omega : 0 < k) centerIndex
      rw [hchunks, List.flatten_nil] at hflat
      exact absurd hflat.symm hpoints
  | cons chunk rest =>
      rw [List.zipIdx_cons, List.mapM_cons]
      simp only [hrow, ok_bind, topKQueue_error fuel hk hlen, error_bind]

variable [Field R] {blas : Blas R}

theorem computeClosestCentersInBlock_several {fuel : Nat} {data : List R}
    {numPoints dim : Nat} {centers : List R} {numCenters : Nat} {docsL2sq centersL2sq : List R}
    {centerIndex : List Nat} {distMatrix : List R} {k : Nat} (hk : 2 ≤ k) (hle : k ≤ numCenters)
    (hpoints : centerIndex ≠ []) (out : List Nat × List R) :
    computeClosestCentersInBlock fuel blas data numPoints dim centers numCenters docsL2sq
      centersL2sq centerIndex distMatrix k ≠ .ok out := by
  intro h
  rw [computeClosestCentersInBlock, if_neg (by omega)] at h
  obtain ⟨ones, hones, h⟩ := bind_eq_ok.mp h
  obtain ⟨-, -, h⟩ := bind_eq_ok.mp h
  have hcenters := (filled_eq_ok (bounded_eq_ok.mp hones)).1
  simp only at h
  rw [if_neg (by omega), if_neg (by omega)] at h
  obtain ⟨chunked, hchunked, -⟩ := bind_eq_ok.mp h
  cases hrow : rowOf (distMatrixOf blas data numPoints dim centers numCenters docsL2sq centersL2sq
      distMatrix) numCenters 0 with
  | ok current =>
      have hlen := rowOf_length (by omega) hrow
      rw [heaps_error hk hpoints hrow (by omega)] at hchunked
      cases hchunked
  | error e =>
      -- without that row there is no first chunk either
      cases hchunks : chunks k centerIndex with
      | nil =>
          have hflat := chunks_flatten (by omega : 0 < k) centerIndex
          rw [hchunks, List.flatten_nil] at hflat
          exact hpoints hflat.symm
      | cons chunk rest =>
          rw [hchunks, List.zipIdx_cons, List.mapM_cons] at hchunked
          obtain ⟨first, hfirst, -⟩ := bind_eq_ok.mp hchunked
          obtain ⟨current, hcurrent, -⟩ := bind_eq_ok.mp hfirst
          rw [hrow] at hcurrent
          cases hcurrent

/-! ## Distances -/

theorem asI32_of_lt {n : Nat} (h : n < 2 ^ 31) : asI32 n = n := by
  rw [asI32]
  omega

/-- The squared norm of a row. -/
def rowNormSq (data : List R) (dim i : Nat) : R :=
  ∑ l ∈ range dim, data.getD (i * dim + l) 0 * data.getD (i * dim + l) 0

theorem computeVecsL2sq_eq (blas : Blas R) {data : List R} {n dim : Nat}
    (hlen : data.length = n * dim) (hsize : n * dim < 2 ^ 64) (hdim : dim < 2 ^ 31) :
    computeVecsL2sq blas data n dim = .ok ((List.range n).map (rowNormSq data dim)) := by
  apply mapM_eq_ok_map
  intro i hi
  rw [List.mem_range] at hi
  rw [indexRange_slot hlen hi hsize, ok_bind, asI32_of_lt hdim]
  have hnorm := blas.snrm2_sq dim _ hdim (slot_length hlen hi).ge
  simp only [hnorm]
  congr 1
  apply sum_congr rfl
  intro l hl
  rw [slot_getD (mem_range.mp hl)]

section

variable {data centers docsL2sq centersL2sq distMatrix : List R} {n dim numCenters : Nat}

theorem distMatrixOf_length : (distMatrixOf blas data n dim centers numCenters docsL2sq centersL2sq
    distMatrix).length = distMatrix.length := by
  rw [distMatrixOf, blas.sgemm_length, blas.sgemm_length, blas.sgemm_length]

/-- The norms and the scalar product of a point and a centre, put together. -/
theorem distMatrixOf_getD (blas : Blas R) (hn : n < 2 ^ 31) (hcenters : numCenters < 2 ^ 31) (hdim : 0 < dim)
    (hdimLt : dim < 2 ^ 31) (hdata : data.length = n * dim)
    (hpivots : centers.length = numCenters * dim) (hdocs : docsL2sq.length = n)
    (hnorms : centersL2sq.length = numCenters) (hmatrix : distMatrix.length = n * numCenters)
    {i j : Nat} (hi : i < n) (hj : j < numCenters) :
    (distMatrixOf blas data n dim centers numCenters docsL2sq centersL2sq distMatrix).getD
      (i * numCenters + j) 0 = docsL2sq.getD i 0 + centersL2sq.getD j 0 -
        2 * ∑ l ∈ range dim, data.getD (i * dim + l) 0 * centers.getD (j * dim + l) 0 := by
  have hone : ∀ {m p : Nat}, p < m → (List.replicate m (1 : R)).getD p 0 = 1 := by
    intro m p hp
    rw [List.getD_eq_getElem?_getD, List.getElem?_replicate, if_pos hp]
    rfl
  have hleading : max 1 numCenters ≤ numCenters := by omega
  have hfirst := blas.sgemm_apply n numCenters 1 1 1 numCenters 1 0 docsL2sq
    (List.replicate numCenters 1) distMatrix hn hcenters (by decide) (by decide) (by decide) hcenters
    (by decide) (by decide) hleading (by omega) (by rw [List.length_replicate]; omega)
    (by omega) i hi j hj
  rw [sum_range_one, Nat.mul_one, Nat.mul_one, Nat.add_zero, Nat.add_zero, hone hj, Nat.cast_one]
    at hfirst
  rw [distMatrixOf, asI32_of_lt hn, asI32_of_lt hcenters, asI32_of_lt hdimLt]
  set afterDocs := blas.sgemm .rowMajor .none .ordinary n numCenters 1 1 docsL2sq 1
    (List.replicate numCenters 1) 1 0 distMatrix numCenters with hafterDocs
  have hlenDocs : afterDocs.length = n * numCenters := by
    rw [hafterDocs, blas.sgemm_length, hmatrix]
  have hsecond := blas.sgemm_apply n numCenters 1 1 1 numCenters 1 1 (List.replicate n 1)
    centersL2sq afterDocs hn hcenters (by decide) (by decide) (by decide) hcenters
    (by decide) (by decide) hleading (by rw [List.length_replicate]; omega) (by omega)
    (by omega) i hi j hj
  rw [sum_range_one, Nat.mul_one, Nat.mul_one, Nat.add_zero, Nat.add_zero, hone hi, Nat.cast_one,
    hfirst] at hsecond
  set afterNorms := blas.sgemm .rowMajor .none .ordinary n numCenters 1 1 (List.replicate n 1) 1
    centersL2sq 1 1 afterDocs numCenters with hafterNorms
  have hlenNorms : afterNorms.length = n * numCenters := by
    rw [hafterNorms, blas.sgemm_length, hlenDocs]
  rw [blas.sgemm_apply n numCenters dim dim dim numCenters (-2) 1 data centers afterNorms hn hcenters
    hdimLt hdimLt hdimLt hcenters (by omega) (by omega) hleading (by omega) (by omega) (by omega)
    i hi j hj, hsecond]
  ring

end

/-! ## The scan -/

/-- A scan ends at the first of the least distances below its start, or where it started. -/
theorem scanMin_cases (current : List R) :
    (scanMin current = (f32Max, 0) ∧ ∀ d ∈ current, f32Max ≤ d) ∨
    (current[(scanMin current).2]? = some (scanMin current).1 ∧ (scanMin current).1 < f32Max ∧
      ∀ d ∈ current, (scanMin current).1 ≤ d) := by
  induction current using List.reverseRecOn with
  | nil => exact .inl ⟨rfl, fun d hd => nomatch hd⟩
  | append_singleton current distance ih =>
      have hstep : scanMin (current ++ [distance]) =
          if distance < (scanMin current).1 then (distance, current.length) else scanMin current := by
        rw [scanMin, List.zipIdx_append, List.foldl_append, ← scanMin]
        simp only [List.zipIdx_cons, List.zipIdx_nil, List.foldl_cons, List.foldl_nil, Nat.zero_add]
      have hall : ∀ {m : R}, (∀ d ∈ current, m ≤ d) → m ≤ distance →
          ∀ d ∈ current ++ [distance], m ≤ d := by
        intro m hm hle d hd
        rcases List.mem_append.mp hd with hd | hd
        · exact hm d hd
        · rwa [List.mem_singleton.mp hd]
      rw [hstep]
      split_ifs with hlt
      · refine .inr ⟨?_, ?_, ?_⟩
        · rw [List.getElem?_append_right le_rfl, Nat.sub_self]
          rfl
        · rcases ih with ⟨hstart, -⟩ | ⟨-, hbelow, -⟩
          · rwa [hstart] at hlt
          · exact hlt.trans hbelow
        · refine hall (fun d hd => ?_) le_rfl
          rcases ih with ⟨hstart, hnone⟩ | ⟨-, -, hleast⟩
          · rw [hstart] at hlt
            exact hlt.le.trans (hnone d hd)
          · exact hlt.le.trans (hleast d hd)
      · rcases ih with ⟨hstart, hnone⟩ | ⟨hfound, hbelow, hleast⟩
        · rw [hstart] at hlt
          exact .inl ⟨hstart, hall hnone (not_lt.mp hlt)⟩
        · refine .inr ⟨?_, hbelow, hall hleast (not_lt.mp hlt)⟩
          rw [List.getElem?_append_left (List.getElem?_eq_some_iff.mp hfound).1]
          exact hfound

end ForgeANN
