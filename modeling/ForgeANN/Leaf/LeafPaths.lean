-- SUMMARY: The paths of a leaf in any arithmetic of distances: the rows they fill, and what they hand to the sink.
import ForgeANN.Common.Chunks
import ForgeANN.Leaf.ProcessLeaf
import ForgeANN.Lib.Emission
import ForgeANN.ViewLune.Pending

/-!
# What a leaf hands to the sink

Every path fills the rows of a leaf, makes two edges of each entry, and looks for
lune witnesses among the entries of a row. Edges and witnesses go to the sink in
batches. The arithmetic of the distances is a parameter: that of `f32`, or an
exact one.
-/
namespace ForgeANN

open Lib

/-- The arithmetic the distances of a leaf are computed in. -/
structure DistArith (D : Type) where
  zero : D
  one : D
  two : D
  /-- `VIEW_LUNE_ALPHA_IMPL`, 1.2. -/
  alpha : D
  /-- `u16::MAX as f32`. -/
  maxU16 : D
  add : D → D → D
  sub : D → D → D
  mul : D → D → D
  div : D → D → D
  lt : D → D → Bool
  ge : D → D → Bool
  isFinite : D → Bool
  /-- `round() as u16`. -/
  roundU16 : D → UInt16

/-- The arithmetic of the code. -/
def F32.arith : DistArith F32 where
  zero := .zero
  one := ⟨0x3f800000⟩
  two := ⟨0x40000000⟩
  alpha := ⟨0x3f99999a⟩
  maxU16 := ⟨0x477fff00⟩
  add := F32.add
  sub := F32.sub
  mul := F32.mul
  div := F32.div
  lt := F32.lt
  ge := F32.ge
  isFinite v := v.mag < 0x7f800000
  roundU16 v := (Float32.ofBits v.bits).round.toUInt16

namespace DistArith

variable {D : Type} (ar : DistArith D)

/-- `norm_i + norm_j - 2.0 * gram_ij`, at least zero. -/
def leafDist2 (normI normJ gram : D) : D :=
  let dist2 := ar.sub (ar.add normI normJ) (ar.mul ar.two gram)
  if ar.lt dist2 ar.zero then ar.zero else dist2

/-- `l2_dist2_from_flat`, of the rows `left` and `right`. -/
def l2Dist2 (points : List (List D)) (left right : Nat) : D :=
  ((points.getD left []).zip (points.getD right [])).foldl (fun sum p =>
    let delta := ar.sub p.1 p.2
    ar.add sum (ar.mul delta delta)) ar.zero

def clampUnit (v : D) : D :=
  if ar.lt v ar.zero then ar.zero else if ar.lt ar.one v then ar.one else v

def quantizeLuneMarginQ16 (threshold witnessDist2 : D) : UInt16 :=
  if !ar.isFinite threshold || ar.ge ar.zero threshold || ar.ge witnessDist2 threshold then 0
  else
    let normalized := ar.clampUnit (ar.div (ar.sub threshold witnessDist2) threshold)
    ar.roundU16 (ar.mul normalized ar.maxU16)

/-! ## The rows -/

def nearer (a b : Nat × D) : Bool := ar.lt a.2 b.2

def notNearer (a b : Nat × D) : Bool := ar.ge a.2 b.2

/-- `RowTopK::push`. The entries come farthest first; there are 32 slots for them. -/
def push (k idx : Nat) (dist : D) (entries : List (Nat × D)) : AnnResult (List (Nat × D)) :=
  if k = 0 then .ok entries
  else if entries.length < k ∧ 32 ≤ entries.length then .error RowTopK.indexOutOfBounds
  else .ok (pushBounded ar.nearer ar.notNearer k entries (idx, dist))

/-- The row of `i`: all others are pushed, with their distances. -/
def rowTopk (k i n : Nat) (dist : Nat → AnnResult D) : AnnResult (List (Nat × D)) := do
  let entries ← (List.range n).foldlM (fun entries j =>
    if j = i then .ok entries
    else do
      let d ← dist j
      ar.push k j d entries) []
  .ok entries.reverse

end DistArith

/-! ## Edges and witnesses -/

/-- `PendingEdge`, with a distance in any arithmetic. -/
structure LeafEdge (D : Type) where
  p : Nat
  c : UInt32
  hash : UInt16
  dist : D
  mandatory : Bool
  localRank : UInt8
  flags : UInt8

/-- What the sink is given at once. -/
inductive LeafFlush (D : Type) where
  | edges (edges : List (LeafEdge D))
  | witnesses (witnesses : List PendingLuneWitness)

abbrev LeafRun (D : Type) := Emission (LeafFlush D) AnnError

/-- Bit `i` tells whether `c` is not below `p` there. -/
def computeHash (sketchP sketchC : List F32) (mBits : Nat) : AnnResult UInt16 :=
  if 16 < mBits then .error (.panic "m_bits must be <= 16")
  else (List.range mBits).foldlM (fun h i =>
    match sketchC[i]?, sketchP[i]? with
    | some c, some p =>
        .ok (if (c.sub p).ge .zero then h ||| (1 <<< UInt16.ofNat i) else h)
    | _, _ => .error RowTopK.indexOutOfBounds) 0

/-- `rank.saturating_add(1).min(u8::MAX)`. -/
def localRankOf (rank : Nat) : UInt8 := UInt8.ofNat (min (rank + 1) 255)

structure LeafEmitParams extends LeafParams where
  mHashBits : Nat

/-- A dataset with its sketches, the matrix library, and the executor of ADSampling. -/
structure LeafStore (D : Type) where
  arith : DistArith D
  readPoint : UInt32 → AnnResult (List D)
  getDistance : UInt32 → UInt32 → AnnResult D
  /-- `LeafSketchCache::prefetch`: the sketches of a leaf. -/
  prefetch : List UInt32 → AnnResult (List (List F32))
  /-- The product of a row with itself. -/
  norm : List D → D
  /-- The entries of the product of a matrix with the transpose of another. -/
  matMul : List (List D) → List (List D) → Nat → Nat → D
  /-- `compute_leaf_adsampling_for_params`. -/
  computeLeafAdsamplingForParams : List (List D) → Nat → AnnResult (List (List (Nat × D)))

namespace LeafStore

variable {D : Type} (src : LeafStore D) (params : LeafEmitParams) (metric : Metric)
  (leaf : List UInt32) (wants : Bool)

/-- The two edges of an entry of row `i`. -/
def pairEdges (cache : List (List F32)) (i rank : Nat) (entry : Nat × D) :
    AnnResult (List (LeafEdge D)) := do
  let iGlobal := leaf.getD i 0
  let jGlobal := leaf.getD entry.1 0
  let sketchI := cache.getD i []
  let sketchJ := cache.getD entry.1 []
  let hashIj ← computeHash sketchI sketchJ params.mHashBits
  let hashJi ← computeHash sketchJ sketchI params.mHashBits
  let localRank := localRankOf rank
  .ok [⟨iGlobal.toNat, jGlobal, hashIj, entry.2, false, localRank, PENDING_EDGE_DIRECT⟩,
    ⟨jGlobal.toNat, iGlobal, hashJi, entry.2, false, localRank, PENDING_EDGE_MIRROR⟩]

def rowEdges (cache : List (List F32)) (i : Nat) (row : List (Nat × D)) :
    AnnResult (List (LeafEdge D)) := do
  let edges ← row.zipIdx.mapM fun (entry, rank) => pairEdges params leaf cache i rank entry
  .ok edges.flatten

/-- The witnesses among the entries of row `i`: a pivot before a victim, in its lune. -/
def rowWitnesses (dist : Nat → Nat → D) (i : Nat) (row : List (Nat × D)) :
    List PendingLuneWitness :=
  row.zipIdx.flatMap fun (victim, victimPos) =>
    (row.take victimPos).zipIdx.filterMap fun (pivot, pivotPos) =>
      let threshold := src.arith.div victim.2 src.arith.alpha
      let pivotVictimDist2 := dist pivot.1 victim.1
      if src.arith.lt pivotVictimDist2 threshold then
        some ⟨leaf.getD i 0, leaf.getD pivot.1 0, leaf.getD victim.1 0,
          src.arith.quantizeLuneMarginQ16 threshold pivotVictimDist2, localRankOf pivotPos,
          localRankOf victimPos⟩
      else none

/-- What is pending, with more behind it: flushed when it is much. -/
def buffer {α : Type} (flush : List α → LeafFlush D) (pending more : List α) :
    LeafRun D (List α) :=
  let pending := pending ++ more
  if 16384 ≤ pending.length then do
    Emission.emit [flush pending]
    pure []
  else pure pending

/-- The edges of the rows, which are flushed between rows. -/
def emitEdges (cache : List (List F32)) (rows : List (List (Nat × D))) : LeafRun D Unit := do
  let edges ← rows.zipIdx.foldlM (fun edges (row, i) => do
    let more ← Emission.lift (rowEdges params leaf cache i row)
    buffer .edges edges more) []
  Emission.emit [.edges edges]

/-- `emit_row_topk_edges`, which flushes between entries too. -/
def emitRowTopkEdges (rows : List (List (Nat × D))) : LeafRun D Unit := do
  let cache ← Emission.lift (src.prefetch leaf)
  let edges ← rows.zipIdx.foldlM (fun edges (row, i) =>
    row.zipIdx.foldlM (fun edges (entry, rank) => do
      let more ← Emission.lift (pairEdges params leaf cache i rank entry)
      buffer .edges edges more) edges) []
  Emission.emit [.edges edges]

def emitLuneWitnesses (dist : Nat → Nat → D) (rows : List (List (Nat × D))) : LeafRun D Unit :=
  if wants then do
    let witnesses ← rows.zipIdx.foldlM (fun witnesses (row, i) =>
      buffer .witnesses witnesses (src.rowWitnesses leaf dist i row)) []
    Emission.emit [.witnesses witnesses]
  else pure ()

/-! ## The paths -/

/-- A leaf without pairs is left alone. -/
def ofPairs (path : Nat → LeafRun D Unit) : LeafRun D Unit :=
  let k := min params.leafKnn (leaf.length - 1)
  if leaf.length ≤ 1 ∨ k = 0 then pure () else path k

/-- Every path leaves a leaf of some size to ADSampling. -/
def adsamplingPath (points : List (List D)) (k : Nat) : LeafRun D Unit := do
  let rows ← Emission.lift (src.computeLeafAdsamplingForParams points k)
  src.emitRowTopkEdges params leaf rows
  src.emitLuneWitnesses leaf wants (src.arith.l2Dist2 points) rows

def matrixRows (k : Nat) (dmat : Nat → Nat → D) : AnnResult (List (List (Nat × D))) :=
  (List.range leaf.length).mapM fun i => src.arith.rowTopk k i leaf.length fun j => .ok (dmat i j)

/-- The distances of the pairs, each computed once. -/
def pairDistances : AnnResult (Nat → Nat → D) := do
  let table ← leaf.zipIdx.mapM fun (iGlobal, i) =>
    (leaf.drop (i + 1)).mapM fun jGlobal => src.getDistance iGlobal jGlobal
  .ok fun i j =>
    if i < j then (table.getD i []).getD (j - i - 1) src.arith.zero
    else (table.getD j []).getD (i - j - 1) src.arith.zero

/-- The distances of a leaf, by the product of its matrix with itself. -/
def productDistances (points : List (List D)) (i j : Nat) : D :=
  src.arith.leafDist2 (src.norm (points.getD i [])) (src.norm (points.getD j []))
    (src.matMul points points i j)

def processLeafFullMatrix : LeafRun D Unit :=
  ofPairs params leaf fun k =>
    if metric = .l2 then do
      let points ← Emission.lift (leaf.mapM src.readPoint)
      if params.shouldUseLeafAdsamplingExecutor metric leaf.length then
        src.adsamplingPath params leaf wants points k
      else do
        let rows ← Emission.lift (src.matrixRows leaf k (src.productDistances points))
        let cache ← Emission.lift (src.prefetch leaf)
        emitEdges params leaf cache rows
        src.emitLuneWitnesses leaf wants (src.productDistances points) rows
    else do
      let dmat ← Emission.lift (src.pairDistances leaf)
      let rows ← Emission.lift (src.matrixRows leaf k dmat)
      let cache ← Emission.lift (src.prefetch leaf)
      emitEdges params leaf cache rows

/-- The rows of a block, by the product of the block with the leaf or distance by distance. -/
def blockTopk (byProduct : Bool) (points : List (List D)) (k : Nat) (block : List Nat) :
    AnnResult (List (List (Nat × D))) :=
  let norm := fun i => src.norm (points.getD i [])
  let gram := src.matMul (block.map fun i => points.getD i []) points
  block.zipIdx.mapM fun (i, iBlock) => src.arith.rowTopk k i leaf.length fun j =>
    if byProduct then .ok (src.arith.leafDist2 (norm i) (norm j) (gram iBlock j))
    else src.getDistance (leaf.getD i 0) (leaf.getD j 0)

/-- `process_leaf_blockwise`, with blocks of any size. -/
def processLeafBlockwise (blockSize : Nat) : LeafRun D Unit :=
  ofPairs params leaf fun k => do
    let points ← Emission.lift (leaf.mapM src.readPoint)
    if params.shouldUseLeafAdsamplingExecutor metric leaf.length then
      src.adsamplingPath params leaf wants points k
    else do
      let blocks ← Emission.lift ((chunks blockSize (List.range leaf.length)).mapM
        (src.blockTopk leaf (metric = .l2) points k))
      let rows := blocks.flatten
      -- the witnesses come before the edges
      if metric = .l2 then src.emitLuneWitnesses leaf wants (src.arith.l2Dist2 points) rows
      let cache ← Emission.lift (src.prefetch leaf)
      emitEdges params leaf cache rows

/-- `process_leaf_profiled_with_sink_with_ads_runtime`. -/
def processLeaf : LeafRun D Unit :=
  ofPairs params leaf fun _ =>
    if params.kernelSafeLeafSize < leaf.length then
      src.processLeafBlockwise params metric leaf wants BLOCK_SIZE
    else src.processLeafFullMatrix params metric leaf wants

/-- The edges of a block, and its witnesses whether they are wanted or not. -/
def processLeafParallelLargeBlock (cache : List (List F32)) (points : List (List D)) (k : Nat)
    (block : List Nat) : AnnResult (List (LeafEdge D) × List PendingLuneWitness) := do
  let rows ← src.blockTopk leaf (metric = .l2 && wants) points k block
  let edges ← (block.zip rows).mapM fun (i, row) => rowEdges params leaf cache i row
  let witnesses := if metric = .l2 then
      (block.zip rows).flatMap fun (i, row) =>
        src.rowWitnesses leaf (src.arith.l2Dist2 points) i row
    else []
  .ok (edges.flatten, witnesses)

/-- Blocks computed at a time, by the memory they take and the number of threads. -/
def chooseParallelBlockWaveWidth (leafSize blockRows leafKnn totalBlocks threads : Nat) : Nat :=
  let saturate := min (2 ^ 64 - 1)
  let bytesPerBlock := saturate (saturate (saturate (blockRows * leafSize) * 4) +
    saturate (saturate (saturate (blockRows * max leafKnn 1) * 2) * 24))
  let byMemory := if bytesPerBlock = 0 then max threads 1
    else max 1 (256 * 1024 * 1024 / bytesPerBlock)
  max 1 (min totalBlocks (min (max threads 1) byMemory))

/-- `process_leaf_parallel_large_profiled_impl`: a wave of blocks in parallel, whose results are
sorted and flushed block by block. -/
def processLeafParallelLarge (blockRows threads : Nat) : LeafRun D Unit :=
  ofPairs params leaf fun k => do
    let points ← Emission.lift (leaf.mapM src.readPoint)
    if params.shouldUseLeafAdsamplingExecutor metric leaf.length then
      src.adsamplingPath params leaf wants points k
    else do
      let blockRows := max blockRows 1
      let blocks := chunks blockRows (List.range leaf.length)
      let waveWidth := chooseParallelBlockWaveWidth leaf.length blockRows params.leafKnn
        blocks.length threads
      let cache ← Emission.lift (src.prefetch leaf)
      (chunks waveWidth blocks).foldlM (fun _ wave => do
        let results ← Emission.lift (wave.mapM
          (src.processLeafParallelLargeBlock params metric leaf wants cache points k))
        Emission.emit (results.flatMap fun result => [.edges result.1, .witnesses result.2])) ()

end LeafStore

end ForgeANN
