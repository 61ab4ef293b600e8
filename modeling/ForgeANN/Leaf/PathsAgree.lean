-- SUMMARY: Where distances are exact, the full matrix, the blocks and the parallel blocks agree.
import ForgeANN.Leaf.EdgesFirst
import Mathlib.Algebra.Order.BigOperators.Group.List
import Mathlib.Algebra.Order.Ring.Rat
import Mathlib.Tactic.Ring

/-!
# One leaf, three paths

A path computes its distances from a product of matrices, or one by one. Without
rounding these are the same numbers, so the rows are the same and so is what the
sink is given, up to the order of edges and witnesses. Only parallel blocks hand
out witnesses nobody asked for.
-/
namespace ForgeANN

open Lib LeafFlush

/-! ## Squared distances -/

section

variable {R : Type} [CommRing R]

def dot (a b : List R) : R := (List.zipWith (· * ·) a b).sum

def dist2 (a b : List R) : R := (List.zipWith (fun x y => (x - y) * (x - y)) a b).sum

theorem dist2_eq {a b : List R} (h : a.length = b.length) :
    dist2 a b = dot a a + dot b b - 2 * dot a b := by
  induction a generalizing b with
  | nil =>
      obtain rfl := List.eq_nil_of_length_eq_zero h.symm
      simp [dist2, dot]
  | cons x a ih =>
      cases b with
      | nil => cases h
      | cons y b =>
          have hrest := ih (Nat.succ.inj h)
          simp only [dist2, dot, List.zipWith_cons_cons, List.sum_cons] at hrest ⊢
          rw [hrest]
          ring

theorem dist2_nonneg [LinearOrder R] [IsStrictOrderedRing R] (a b : List R) : 0 ≤ dist2 a b := by
  refine List.sum_nonneg fun v hv => ?_
  obtain ⟨i, hi, rfl⟩ := List.mem_iff_getElem.mp hv
  rw [List.getElem_zipWith]
  exact mul_self_nonneg _

end

/-! ## Exact leaves -/

section

variable {R : Type} [CommRing R] [LinearOrder R]

/-- Sums, differences and products are not rounded. -/
structure DistArith.IsExact (ar : DistArith R) : Prop where
  zero : ar.zero = 0
  two : ar.two = 2
  add : ∀ a b, ar.add a b = a + b
  sub : ∀ a b, ar.sub a b = a - b
  mul : ∀ a b, ar.mul a b = a * b
  lt : ∀ a b, ar.lt a b = decide (a < b)

namespace DistArith.IsExact

variable {ar : DistArith R}

theorem l2Dist2_eq (h : ar.IsExact) (points : List (List R)) (i j : Nat) :
    ar.l2Dist2 points i j = dist2 (points.getD i []) (points.getD j []) := by
  have hfold : ∀ (pairs : List (R × R)) (sum : R),
      pairs.foldl (fun sum p => ar.add sum (ar.mul (ar.sub p.1 p.2) (ar.sub p.1 p.2))) sum =
        sum + (pairs.map fun p => (p.1 - p.2) * (p.1 - p.2)).sum := by
    intro pairs
    induction pairs with
    | nil => exact fun sum => (add_zero sum).symm
    | cons p pairs ih =>
        intro sum
        rw [List.foldl_cons, ih, h.add, h.mul, h.sub, List.map_cons, List.sum_cons, add_assoc]
  rw [l2Dist2, hfold, h.zero, zero_add, dist2, List.map_zip_eq_zipWith]
  rfl

theorem leafDist2_eq [IsStrictOrderedRing R] (h : ar.IsExact) {a b : List R}
    (hlen : a.length = b.length) : ar.leafDist2 (dot a a) (dot b b) (dot a b) = dist2 a b := by
  have heq : ar.sub (ar.add (dot a a) (dot b b)) (ar.mul ar.two (dot a b)) = dist2 a b := by
    rw [h.sub, h.add, h.mul, h.two, dist2_eq hlen]
  rw [leafDist2]
  simp only [heq, h.lt, h.zero, decide_eq_true_eq, if_neg (not_lt.mpr (dist2_nonneg a b))]

end DistArith.IsExact

/-- A leaf whose points all have one dimension, and whose distances are not rounded. -/
structure ExactLeaf (src : LeafStore R) (params : LeafEmitParams) (metric : Metric)
    extends ReadyLeaf src params where
  exact : src.arith.IsExact
  dim : Nat
  points_dim : ∀ point ∈ points, point.length = dim
  norm_eq : ∀ point ∈ points, src.norm point = dot point point
  matMul_eq : ∀ a b i j, i < a.length → j < b.length →
    src.matMul a b i j = dot (a.getD i []) (b.getD j [])
  kernel_symm : ∀ i j, kernel i j = kernel j i
  kernel_l2 : metric = .l2 → ∀ i < leaf.length, ∀ j < leaf.length,
    kernel (leaf.getD i 0) (leaf.getD j 0) = dist2 (points.getD i []) (points.getD j [])

namespace ExactLeaf

variable {src : LeafStore R} {params : LeafEmitParams} {metric : Metric}
  (l : ExactLeaf src params metric)

theorem points_length : l.points.length = l.leaf.length :=
  (forall₂_of_mapM l.read).length_eq.symm

theorem mem_points {i : Nat} (hi : i < l.leaf.length) : l.points.getD i [] ∈ l.points := by
  rw [List.getD_eq_getElem _ _ (by rw [l.points_length]; exact hi)]
  exact List.getElem_mem _

/-- The distance of two points of the leaf, as every path has it. -/
def dist (i j : Nat) : R := l.kernel (l.leaf.getD i 0) (l.leaf.getD j 0)

section

variable [IsStrictOrderedRing R] {i j : Nat} (hi : i < l.leaf.length) (hj : j < l.leaf.length)

include hi hj

theorem product_eq {gram : R} (hgram : gram = dot (l.points.getD i []) (l.points.getD j [])) :
    src.arith.leafDist2 (src.norm (l.points.getD i [])) (src.norm (l.points.getD j [])) gram =
      dist2 (l.points.getD i []) (l.points.getD j []) := by
  rw [l.norm_eq _ (l.mem_points hi), l.norm_eq _ (l.mem_points hj), hgram]
  refine l.exact.leafDist2_eq ?_
  rw [l.points_dim _ (l.mem_points hi), l.points_dim _ (l.mem_points hj)]

theorem productDistances_eq : src.productDistances l.points i j =
    dist2 (l.points.getD i []) (l.points.getD j []) :=
  l.product_eq hi hj
    (l.matMul_eq _ _ i j (by rw [l.points_length]; exact hi) (by rw [l.points_length]; exact hj))

theorem matrixDist_eq : l.matrixDist metric i j = l.dist i j := by
  rw [ReadyLeaf.matrixDist, dist]
  split_ifs with hmetric
  · rw [l.productDistances_eq hi hj, l.kernel_l2 hmetric i hi j hj]
  · rcases le_total i j with hij | hij
    · rw [min_eq_left hij, max_eq_right hij]
    · rw [min_eq_right hij, max_eq_left hij, l.kernel_symm]

theorem blockDist_eq {byProduct : Bool} {block : List Nat} {place : Nat}
    (hproduct : byProduct = true → metric = .l2) (hplace : (i, place) ∈ block.zipIdx) :
    l.blockDist byProduct block (i, place) j = l.dist i j := by
  rw [ReadyLeaf.blockDist, dist]
  split_ifs with hby
  · obtain ⟨hlt, hget⟩ := List.mem_zipIdx' hplace
    have hpoint : (block.map fun i => l.points.getD i []).getD place [] = l.points.getD i [] := by
      rw [List.getD_eq_getElem _ _ (by rw [List.length_map]; exact hlt), List.getElem_map, ← hget]
    rw [l.kernel_l2 (hproduct hby) i hi j hj]
    refine l.product_eq hi hj ?_
    rw [l.matMul_eq _ _ _ _ (by rw [List.length_map]; exact hlt)
      (by rw [l.points_length]; exact hj), hpoint]
  · rfl

end

/-! ## The rows are the same -/

/-- The row of a point, on every path. -/
def exactRow (i : Nat) : List (Nat × R) := l.row i (l.dist i)

theorem row_eq {i : Nat} {d : Nat → R} (hd : ∀ j < l.leaf.length, d j = l.dist i j) :
    l.row i d = l.exactRow i := by
  rw [exactRow, ReadyLeaf.row, ReadyLeaf.row, DistArith.nearestOthers, DistArith.nearestOthers]
  congr 2
  refine List.map_congr_left fun j hj => ?_
  rw [hd j (List.mem_range.mp (List.mem_of_mem_filter hj))]

variable [IsStrictOrderedRing R] (wants : Bool)

theorem blockRows_eq {byProduct : Bool} {block : List Nat}
    (hproduct : byProduct = true → metric = .l2) (hblock : ∀ i ∈ block, i < l.leaf.length) :
    l.blockRows byProduct block = block.map l.exactRow := by
  have hrows : l.blockRows byProduct block = block.zipIdx.map (l.exactRow ∘ Prod.fst) := by
    refine List.map_congr_left fun p hp => l.row_eq fun j hj => ?_
    exact l.blockDist_eq (hblock _ (List.fst_mem_of_mem_zipIdx hp)) hj hproduct hp
  rw [hrows, ← List.map_map, List.zipIdx_map_fst]

theorem matrixRows_eq : l.matrixRows metric = (List.range l.leaf.length).map l.exactRow :=
  List.map_congr_left fun _ hi => l.row_eq fun _ hj => l.matrixDist_eq (List.mem_range.mp hi) hj

theorem blockwiseRows_eq {blockSize : Nat} (hsize : 0 < blockSize) :
    l.blockwiseRows metric blockSize = (List.range l.leaf.length).map l.exactRow := by
  have hblocks : l.blockwiseRows metric blockSize =
      (chunks blockSize (List.range l.leaf.length)).flatMap (List.map l.exactRow) :=
    List.flatMap_congr fun block hblock =>
      l.blockRows_eq of_decide_eq_true fun i hi => l.mem_chunk hblock hi
  rw [hblocks, List.flatMap_def, ← List.map_flatten, chunks_flatten hsize]

/-! ## What every path hands out -/

def exactEdges : List (LeafEdge R) :=
  (List.range l.leaf.length).flatMap fun i => l.edges i (l.exactRow i)

/-- The witnesses, whether they are wanted or not. -/
def exactWitnesses : List PendingLuneWitness :=
  if metric = .l2 then (List.range l.leaf.length).flatMap fun i =>
    src.rowWitnesses l.leaf (src.arith.l2Dist2 l.points) i (l.exactRow i)
  else []

omit [IsStrictOrderedRing R] in
theorem flatMap_rows {γ : Type} (f : Nat → List (Nat × R) → List γ) :
    (((List.range l.leaf.length).map l.exactRow).zipIdx.flatMap fun p => f p.2 p.1) =
      (List.range l.leaf.length).flatMap fun i => f i (l.exactRow i) := by
  have hplaces : ((List.range l.leaf.length).map l.exactRow).zipIdx =
      (List.range l.leaf.length).map fun i => (l.exactRow i, i) := by
    rw [List.zipIdx_eq_zip_range', List.length_map, List.length_range, ← List.range_eq_range']
    conv_lhs => rw [← List.map_id (List.range l.leaf.length), List.map_map, List.zip_map']
    rfl
  rw [hplaces, List.flatMap_map]

theorem fullMatrix_gives (h : l.Exact metric) :
    ∃ flushes, src.processLeafFullMatrix params metric l.leaf wants = ⟨flushes, .ok ()⟩ ∧
      edgesOf flushes = l.exactEdges ∧
      witnessesOf flushes = if wants then l.exactWitnesses else [] := by
  obtain ⟨edges, witnesses, hrun, hedges, hwitnesses⟩ := l.fullMatrix_run metric wants h
  have hsame : ∀ i < l.leaf.length,
      src.rowWitnesses l.leaf (src.productDistances l.points) i (l.exactRow i) =
        src.rowWitnesses l.leaf (src.arith.l2Dist2 l.points) i (l.exactRow i) := by
    intro i hi
    refine List.flatMap_congr fun victim hvictim => List.filterMap_congr fun pivot hpivot => ?_
    have hv := l.mem_row (List.fst_mem_of_mem_zipIdx hvictim)
    have hp := l.mem_row (List.mem_of_mem_take (List.fst_mem_of_mem_zipIdx hpivot))
    dsimp only
    rw [l.productDistances_eq hp hv, l.exact.l2Dist2_eq]
  refine ⟨_, hrun, ?_, ?_⟩
  · rw [edgesOf_append, edgesOf_map_edges, edgesOf_map_witnesses, List.append_nil, hedges,
      l.matrixRows_eq, l.flatMap_rows l.edges]
    rfl
  · rw [witnessesOf_append, witnessesOf_map_edges, witnessesOf_map_witnesses, List.nil_append,
      hwitnesses, l.matrixRows_eq,
      l.flatMap_rows (src.rowWitnesses l.leaf (src.productDistances l.points)), exactWitnesses]
    rw [List.flatMap_congr fun i hi => hsame i (List.mem_range.mp hi), ite_and]
    split_ifs <;> rfl

theorem blockwise_gives {blockSize : Nat} (hsize : 0 < blockSize) (h : l.Exact metric) :
    ∃ flushes, src.processLeafBlockwise params metric l.leaf wants blockSize = ⟨flushes, .ok ()⟩ ∧
      edgesOf flushes = l.exactEdges ∧
      witnessesOf flushes = if wants then l.exactWitnesses else [] := by
  obtain ⟨witnesses, edges, hrun, hwitnesses, hedges⟩ := l.blockwise_run metric wants hsize h
  refine ⟨_, hrun, ?_, ?_⟩
  · rw [edgesOf_append, edgesOf_map_edges, edgesOf_map_witnesses, List.nil_append, hedges,
      l.blockwiseRows_eq hsize, l.flatMap_rows l.edges]
    rfl
  · rw [witnessesOf_append, witnessesOf_map_edges, witnessesOf_map_witnesses, List.append_nil,
      hwitnesses, l.blockwiseRows_eq hsize,
      l.flatMap_rows (src.rowWitnesses l.leaf (src.arith.l2Dist2 l.points)), exactWitnesses,
      ite_and]
    split_ifs <;> rfl

/-- Blocks in parallel hand out the witnesses even when they are not wanted. -/
theorem parallel_gives (blockRows threads : Nat) (h : l.Exact metric) :
    ∃ flushes, src.processLeafParallelLarge params metric l.leaf wants blockRows threads =
        ⟨flushes, .ok ()⟩ ∧
      edgesOf flushes = l.exactEdges ∧ witnessesOf flushes = l.exactWitnesses := by
  have hsize : 0 < max blockRows 1 := Nat.lt_of_lt_of_le Nat.one_pos (Nat.le_max_right _ _)
  have hflat : (l.parallelBlocks blockRows).flatMap id = List.range l.leaf.length := by
    rw [List.flatMap_id]
    exact chunks_flatten hsize _
  have hblock : ∀ {γ : Type} (f : Nat → List (Nat × R) → List γ),
      ∀ block ∈ l.parallelBlocks blockRows,
        ((block.zip (l.blockRows (metric = .l2 && wants) block)).flatMap fun p => f p.1 p.2) =
          block.flatMap fun i => f i (l.exactRow i) := by
    intro γ f block hblock
    have hzip : block.zip (block.map l.exactRow) = block.map fun i => (i, l.exactRow i) := by
      conv_lhs => rw [← List.map_id block, List.map_map, List.zip_map']
      rfl
    rw [l.blockRows_eq (fun hby => of_decide_eq_true (Bool.and_eq_true_iff.mp hby).1)
      fun i hi => l.mem_chunk hblock hi, hzip, List.flatMap_map]
  refine ⟨_, l.parallel_run metric wants blockRows threads h, ?_, ?_⟩
  · rw [edgesOf, List.flatMap_assoc, exactEdges, ← hflat, List.flatMap_assoc]
    refine List.flatMap_congr fun block hmem => ?_
    rw [ReadyLeaf.parallelFlushes, id, ← hblock l.edges block hmem]
    exact List.append_nil _
  · rw [witnessesOf, List.flatMap_assoc, exactWitnesses]
    by_cases hmetric : metric = .l2
    · rw [if_pos hmetric, ← hflat, List.flatMap_assoc]
      refine List.flatMap_congr fun block hmem => ?_
      rw [ReadyLeaf.parallelFlushes, if_pos hmetric, id,
        ← hblock (src.rowWitnesses l.leaf (src.arith.l2Dist2 l.points)) block hmem]
      exact List.append_nil _
    · rw [if_neg hmetric]
      refine List.flatMap_eq_nil_iff.mpr fun block _ => ?_
      rw [ReadyLeaf.parallelFlushes, if_neg hmetric]
      rfl

end ExactLeaf

namespace LeafPath

/-- Blocks in parallel are asked for their witnesses without a look at the sink. -/
def isParallel : LeafPath → Bool
  | .fullMatrix => false
  | .blockwise _ _ => false
  | .parallel _ _ => true

end LeafPath

/-! ## Agreement -/

/-- Whichever path a leaf takes, the sink is given the same edges in the same order, and the same
witnesses in the same order; parallel blocks give them to a sink that does not want them, too. -/
theorem leafPaths_agree [IsStrictOrderedRing R] {src : LeafStore R} {params : LeafEmitParams}
    {metric : Metric} (l : ExactLeaf src params metric) (wants : Bool) (path : LeafPath) :
    let run := path.run src params metric l.leaf wants
    let wanted := wants || path.isParallel &&
      !params.shouldUseLeafAdsamplingExecutor metric l.leaf.length
    let plain := LeafPath.fullMatrix.run src params metric l.leaf wanted
    run.result = plain.result ∧ edgesOf run.emitted = edgesOf plain.emitted ∧
      witnessesOf run.emitted = witnessesOf plain.emitted := by
  dsimp only
  by_cases hpairs : l.HasPairs
  · by_cases hads : params.shouldUseLeafAdsamplingExecutor metric l.leaf.length
    · rw [decide_eq_true hads, Bool.not_true, Bool.and_false, Bool.or_false,
        l.run_adsampling metric wants hpairs hads path,
        l.run_adsampling metric wants hpairs hads .fullMatrix]
      exact ⟨rfl, rfl, rfl⟩
    · have hexact : l.Exact metric := ⟨hpairs, hads⟩
      obtain ⟨plain, hplain, hedges, hwitnesses⟩ :=
        l.fullMatrix_gives (wants || path.isParallel) hexact
      rw [decide_eq_false hads, Bool.not_false, Bool.and_true,
        show LeafPath.fullMatrix.run src params metric l.leaf (wants || path.isParallel) =
          ⟨plain, .ok ()⟩ from hplain, hedges, hwitnesses]
      cases path with
      | fullMatrix =>
          obtain ⟨flushes, hrun, hedges', hwitnesses'⟩ := l.fullMatrix_gives wants hexact
          rw [LeafPath.run, hrun, LeafPath.isParallel, Bool.or_false]
          exact ⟨rfl, hedges', hwitnesses'⟩
      | blockwise blockSize hsize =>
          obtain ⟨flushes, hrun, hedges', hwitnesses'⟩ := l.blockwise_gives wants hsize hexact
          rw [LeafPath.run, hrun, LeafPath.isParallel, Bool.or_false]
          exact ⟨rfl, hedges', hwitnesses'⟩
      | parallel blockRows threads =>
          obtain ⟨flushes, hrun, hedges', hwitnesses'⟩ :=
            l.parallel_gives wants blockRows threads hexact
          rw [LeafPath.run, hrun, LeafPath.isParallel, Bool.or_true]
          exact ⟨rfl, hedges', hwitnesses'⟩
  · rw [l.run_without metric wants hpairs path, l.run_without metric _ hpairs .fullMatrix]
    exact ⟨rfl, rfl, rfl⟩

end

/-! ### Three points on a line -/

namespace Line

/-- Distances that are not rounded, but for what becomes of a margin. -/
def arith : DistArith ℚ where
  zero := 0
  one := 1
  two := 2
  alpha := 6 / 5
  maxU16 := 65535
  add a b := a + b
  sub a b := a - b
  mul a b := a * b
  div a b := a / b
  lt a b := a < b
  ge a b := b ≤ a
  isFinite _ := true
  roundU16 v := UInt16.ofNat (v + 1 / 2).floor.toNat

def point (i : UInt32) : List ℚ := [if i = 2 then 5 else i.toNat]

def store : LeafStore ℚ where
  arith := arith
  readPoint i := .ok (point i)
  getDistance i j := .ok (dist2 (point i) (point j))
  prefetch leaf := .ok (leaf.map fun _ => [])
  norm a := dot a a
  matMul a b i j := dot (a.getD i []) (b.getD j [])
  computeLeafAdsamplingForParams _ _ := .ok []

def params : LeafEmitParams where
  leafKnn := 2
  maxFullMatrixLeafSize := 1
  adsamplingGroupDims := 0
  leafAdsTilingEnable := false
  leafAdsWavefrontPairmaskEnable := false
  leafAdsWorkGraphEnable := false
  mHashBits := 0

def leaf : ExactLeaf store params .l2 where
  leaf := [0, 1, 2]
  points := [point 0, point 1, point 2]
  cache := [[], [], []]
  kernel i j := dist2 (point i) (point j)
  leafKnn_le := by decide
  mHashBits_le := by decide
  read := rfl
  distances _ _ _ _ := rfl
  prefetch := rfl
  cache_length := rfl
  width_ge _ _ := Nat.zero_le _
  exact := ⟨rfl, rfl, fun _ _ => rfl, fun _ _ => rfl, fun _ _ => rfl, fun _ _ => rfl⟩
  dim := 1
  points_dim point h := by
    simp only [List.mem_cons, List.not_mem_nil, or_false] at h
    rcases h with rfl | rfl | rfl <;> rfl
  norm_eq _ _ := rfl
  matMul_eq _ _ _ _ _ _ := rfl
  kernel_symm i j := by
    simp only [dist2, point, List.zipWith_cons_cons, List.zipWith_nil_left, List.sum_cons]
    ring
  kernel_l2 _ i hi j hj := by
    have hpoint : ∀ m < 3, ([point 0, point 1, point 2] : List (List ℚ)).getD m [] =
        point (([0, 1, 2] : List UInt32).getD m 0) := by decide
    rw [hpoint i hi, hpoint j hj]

end Line

/-- Blocks of one point each, by two threads, with a sink that wants no witnesses. -/
theorem leafPaths_agree_line :
    let run := (LeafPath.parallel 1 2).run Line.store Line.params .l2 Line.leaf.leaf false
    let wanted := false || (LeafPath.parallel 1 2).isParallel &&
      !Line.params.shouldUseLeafAdsamplingExecutor .l2 Line.leaf.leaf.length
    let plain := LeafPath.fullMatrix.run Line.store Line.params .l2 Line.leaf.leaf wanted
    run.result = plain.result ∧ edgesOf run.emitted = edgesOf plain.emitted ∧
      witnessesOf run.emitted = witnessesOf plain.emitted :=
  leafPaths_agree Line.leaf false (.parallel 1 2)

end ForgeANN
