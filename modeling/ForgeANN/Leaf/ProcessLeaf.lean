-- SUMMARY: The paths that fill the rows of a leaf: the full matrix, block by block, and blocks in parallel.
import ForgeANN.Leaf.LeafAdSampling
import ForgeANN.Leaf.RowTopK
import ForgeANN.Prune.RobustPrune

/-!
# The rows of a leaf

A leaf small enough has the matrix of its distances computed at once, a larger one
block by block, and the scheduler hands large ones to a path that computes blocks in
parallel. Leaves from some size on are left to ADSampling on every path.
-/
namespace ForgeANN

open Lib

/-- Of the parameters, those that the rows of a leaf depend on. -/
structure LeafParams where
  leafKnn : Nat
  maxFullMatrixLeafSize : Nat
  adsamplingGroupDims : Nat
  leafAdsTilingEnable : Bool
  leafAdsWavefrontPairmaskEnable : Bool
  leafAdsWorkGraphEnable : Bool
deriving DecidableEq, Repr

def LEAF_ADSAMPLING_MIN_SIZE : Nat := 513
def BLOCK_SIZE : Nat := 1024

namespace LeafParams

variable (params : LeafParams)

def kernelSafeLeafSize : Nat := max params.maxFullMatrixLeafSize 1

def effectiveLeafAdsWavefrontPairmask : Bool :=
  params.leafAdsWavefrontPairmaskEnable && !params.leafAdsTilingEnable &&
    !params.leafAdsWorkGraphEnable

def shouldUseLeafAdsamplingExecutor (metric : Metric) (leafSize : Nat) : Prop :=
  metric = .l2 ∧ LEAF_ADSAMPLING_MIN_SIZE ≤ leafSize ∧ 0 < params.adsamplingGroupDims ∧ 1 < leafSize

instance (metric : Metric) (leafSize : Nat) :
    Decidable (params.shouldUseLeafAdsamplingExecutor metric leafSize) :=
  inferInstanceAs (Decidable (_ ∧ _ ∧ _ ∧ _))

end LeafParams

/-- A dataset with its sketches, the matrix library and the vector instructions. -/
structure LeafSource where
  readPoint : UInt32 → AnnResult (List F32)
  getDistance : UInt32 → UInt32 → AnnResult F32
  prefetchSketches : List UInt32 → AnnResult Unit
  /-- The product of a row with itself. -/
  norm : List F32 → F32
  /-- The entries of the product of a matrix with the transpose of another. -/
  matMul : List (List F32) → List (List F32) → Nat → Nat → F32
  ads : AdsKernels
  /-- `AdSamplingRatios::new`, with the dimension and the configuration of the leaves. -/
  ratios : AnnResult Unit

/-- `norm_i + norm_j - 2.0 * gram_ij`, at least zero. -/
def leafDist2 (normI normJ gram : F32) : F32 :=
  let dist2 := (normI.add normJ).sub (F32.mul ⟨0x40000000⟩ gram)
  if dist2.lt .zero then .zero else dist2

namespace LeafSource

variable (src : LeafSource) (params : LeafParams) (metric : Metric) (leaf : List UInt32)

def computeLeafAdsamplingForParams (points : List (List F32)) (k : Nat) :
    AnnResult (List (List (Nat × F32))) := do
  src.ratios
  let top :=
    if params.effectiveLeafAdsWavefrontPairmask then
      src.ads.computeLeafAdsamplingWavefront points k (leafSeedExact k)
    else src.ads.computeLeafAdsamplingRows points k (leafSeedExact k)
  .ok (top.map TinyTopK.entries)

/-- A row of the matrix of distances is pushed, over what an earlier leaf left in the buffer. -/
def matrixRows (k : Nat) (dmat : Nat → Nat → F32) (scratch : List RowTopK) :
    AnnResult (List RowTopK) :=
  (List.range leaf.length).mapM fun i =>
    RowTopK.pushOthers k i (fun j => .ok (dmat i j)) (List.range leaf.length)
      (scratch.getD i .empty).clear

/-- The distances of the pairs, each computed once. -/
def pairDistances : AnnResult (Nat → Nat → F32) := do
  let table ← leaf.zipIdx.mapM fun (iGlobal, i) =>
    (leaf.drop (i + 1)).mapM fun jGlobal => src.getDistance iGlobal jGlobal
  .ok fun i j =>
    if i < j then (table.getD i []).getD (j - i - 1) .zero
    else (table.getD j []).getD (i - j - 1) .zero

def processLeafFullMatrix (k : Nat) (scratch : List RowTopK) :
    AnnResult (List (List (Nat × F32))) :=
  if metric = .l2 then do
    let points ← leaf.mapM src.readPoint
    if params.shouldUseLeafAdsamplingExecutor metric leaf.length then
      src.computeLeafAdsamplingForParams params points k
    else do
      let norm := fun i => src.norm (points.getD i [])
      let rows ← matrixRows leaf k
        (fun i j => leafDist2 (norm i) (norm j) (src.matMul points points i j)) scratch
      .ok (rows.map RowTopK.iter)
  else do
    let dmat ← src.pairDistances leaf
    let rows ← matrixRows leaf k dmat scratch
    .ok (rows.map RowTopK.iter)

/-- The rows of a block, by the product of the block with the leaf or distance by distance. -/
def blockTopk (byProduct : Bool) (points : List (List F32)) (k : Nat) (start : Nat → RowTopK)
    (block : List Nat) : AnnResult (List RowTopK) :=
  let norm := fun i => src.norm (points.getD i [])
  let gram := src.matMul (block.map fun i => points.getD i []) points
  block.zipIdx.mapM fun (i, iBlock) =>
    RowTopK.pushOthers k i (fun j =>
      if byProduct then .ok (leafDist2 (norm i) (norm j) (gram iBlock j))
      else src.getDistance (leaf.getD i 0) (leaf.getD j 0))
      (List.range leaf.length) (start i)

/-- The blocks in order: waves of them run in parallel, and their results are sorted. -/
def blocksTopk (byProduct : Bool) (points : List (List F32)) (k blockRows : Nat)
    (start : Nat → RowTopK) : AnnResult (List RowTopK) := do
  let blocks ← (chunks blockRows (List.range leaf.length)).mapM
    (src.blockTopk leaf byProduct points k start)
  .ok blocks.flatten

/-- The rows of `process_leaf_blockwise`. A leaf without pairs has empty rows. -/
def processLeafBlockwise (scratch : List RowTopK) : AnnResult (List (List (Nat × F32))) :=
  let k := min params.leafKnn (leaf.length - 1)
  if leaf.length ≤ 1 ∨ k = 0 then .ok (leaf.map fun _ => [])
  else do
    let points ← leaf.mapM src.readPoint
    if params.shouldUseLeafAdsamplingExecutor metric leaf.length then
      src.computeLeafAdsamplingForParams params points k
    else do
      let rows ← src.blocksTopk leaf (metric = .l2) points k BLOCK_SIZE
        fun i => (scratch.getD i .empty).clear
      .ok (rows.map RowTopK.iter)

/-- The rows of `process_leaf_profiled_with_sink_with_ads_runtime`. -/
def processLeaf (scratch : List RowTopK) : AnnResult (List (List (Nat × F32))) :=
  let k := min params.leafKnn (leaf.length - 1)
  if leaf.length ≤ 1 ∨ k = 0 then .ok (leaf.map fun _ => [])
  else if params.kernelSafeLeafSize < leaf.length then
    src.processLeafBlockwise params metric leaf scratch
  else src.processLeafFullMatrix params metric leaf k scratch

/-- The rows of `process_leaf_parallel_large_profiled_impl`. -/
def processLeafParallelLarge (blockRows : Nat) (wantsLuneWitnesses : Bool) :
    AnnResult (List (List (Nat × F32))) :=
  let k := min params.leafKnn (leaf.length - 1)
  if leaf.length ≤ 1 ∨ k = 0 then .ok (leaf.map fun _ => [])
  else do
    let points ← leaf.mapM src.readPoint
    if params.shouldUseLeafAdsamplingExecutor metric leaf.length then
      src.computeLeafAdsamplingForParams params points k
    else do
      src.prefetchSketches leaf
      let rows ← src.blocksTopk leaf (metric = .l2 && wantsLuneWitnesses) points k (max blockRows 1)
        fun _ => .empty
      .ok (rows.map RowTopK.iter)

end LeafSource

end ForgeANN
