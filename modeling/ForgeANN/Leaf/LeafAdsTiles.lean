-- SUMMARY: ADSampling leaves cut into tiles that workers claim off a cursor, under one budget of workers.
import ForgeANN.Common.Basic
import ForgeANN.Lib.Pool
import ForgeANN.Lib.SortDedup

/-!
# Tiles of an ADSampling leaf

Many leaves are under way at once. Each reserves workers out of one budget; its
workers claim tiles of rows with a cursor, compute them and measure them, and the
measures set the sizes of the next tiles, of other leaves too.
-/
namespace ForgeANN

open Lib

namespace LeafAds

def ADS_QUERY_TILE : Nat := 8
def ADS_LEAF_ROW_CHUNK : Nat := 32
def LEAF_ADS_EWMA_BUCKETS : Nat := 4

/-! ## The configuration -/

/-- `align_leaf_ads_tile_rows`. -/
def alignLeafAdsTileRows (rows : Nat) : Nat :=
  (max rows 1 + ADS_QUERY_TILE - 1) / ADS_QUERY_TILE * ADS_QUERY_TILE

/-- What `ForgeANNParams` has of use here. -/
structure LeafAdsParams where
  leafAdsTilingEnable : Bool
  leafAdsWorkGraphEnable : Bool
  leafAdsCpuBudget : Nat
  leafAdsTargetTileMs : Nat
  leafAdsMinTileRows : Nat
  leafAdsMaxTileRows : Nat
  leafAdsSplitThreshold : Nat
  leafAdsWorkGraphQuantumMs : Nat
  leafAdsWorkGraphMinTileRows : Nat
  leafAdsWorkGraphMaxTileRows : Nat
  leafAdsWorkGraphSplitThreshold : Nat

structure LeafAdsOperatorConfig where
  enabled : Bool
  workGraph : Bool
  cpuBudget : Nat
  targetTileMs : Nat
  minTileRows : Nat
  maxTileRows : Nat
  splitThreshold : Nat
  cpuBudget_pos : 0 < cpuBudget
  minTileRows_le : minTileRows ≤ maxTileRows

theorem max_one_pos (p : Prop) [Decidable p] (n m : Nat) :
    0 < if p then max n 1 else max m 1 := by
  split_ifs <;> omega

namespace LeafAdsOperatorConfig

/-- `LeafAdsOperatorConfig::from_params`, normalized. -/
def fromParams (params : LeafAdsParams) (workerCount : Nat) : LeafAdsOperatorConfig :=
  let workerCount := max workerCount 1
  let autoReserved := min (max (workerCount / 8) 2) (workerCount - 1)
  let workGraph := params.leafAdsWorkGraphEnable
  let minTileRows := alignLeafAdsTileRows
    (max (if workGraph then params.leafAdsWorkGraphMinTileRows else params.leafAdsMinTileRows) 1)
  let maxTileRows := alignLeafAdsTileRows
    (max (if workGraph then params.leafAdsWorkGraphMaxTileRows else params.leafAdsMaxTileRows) 1)
  { enabled := params.leafAdsTilingEnable || workGraph
    workGraph
    cpuBudget := if params.leafAdsCpuBudget = 0 then max (workerCount - autoReserved) 1
      else max (min params.leafAdsCpuBudget workerCount) 1
    targetTileMs := max
      (if workGraph then params.leafAdsWorkGraphQuantumMs else params.leafAdsTargetTileMs) 1
    -- swapped where they are the wrong way round
    minTileRows := min minTileRows maxTileRows
    maxTileRows := max minTileRows maxTileRows
    splitThreshold := max
      (if workGraph then params.leafAdsWorkGraphSplitThreshold else params.leafAdsSplitThreshold) 513
    cpuBudget_pos := max_one_pos _ _ _
    minTileRows_le := min_le_max }

end LeafAdsOperatorConfig

/-- `leaf_ads_size_bucket`. -/
def leafAdsSizeBucket (leafSize : Nat) : Nat :=
  if leafSize < 1024 then 0 else if leafSize < 2048 then 1 else if leafSize < 4096 then 2 else 3

/-! ## Rows -/

variable {R : Type}

/-- A leaf: its size, and the rows of a query tile, each of which has its entries. -/
structure LeafAdsJob (R : Type) where
  leafSize : Nat
  computeLeafAdsamplingRowTile : Nat → Nat → List R
  rowTile_length : ∀ tileStart tileEnd, tileStart < tileEnd →
    tileEnd ≤ tileStart + ADS_QUERY_TILE →
      (computeLeafAdsamplingRowTile tileStart tileEnd).length = tileEnd - tileStart

namespace LeafAdsJob

variable (job : LeafAdsJob R)

/-- `compute_leaf_adsampling_row_range`: query tile by query tile. -/
def computeLeafAdsamplingRowRange (rowStart rowEnd : Nat) : List R :=
  (List.range ((rowEnd - rowStart + ADS_QUERY_TILE - 1) / ADS_QUERY_TILE)).flatMap fun i =>
    let tileStart := rowStart + ADS_QUERY_TILE * i
    job.computeLeafAdsamplingRowTile tileStart (min (tileStart + ADS_QUERY_TILE) rowEnd)

/-- `compute_leaf_adsampling_topk_l2_from_context`: chunks of rows, whose results stay in order. -/
def computeLeafAdsamplingTopkL2 : List R :=
  ((List.range ((job.leafSize + ADS_LEAF_ROW_CHUNK - 1) / ADS_LEAF_ROW_CHUNK)).map fun i =>
      (ADS_LEAF_ROW_CHUNK * i, min (ADS_LEAF_ROW_CHUNK * i + ADS_LEAF_ROW_CHUNK) job.leafSize)).flatMap
    fun range => job.computeLeafAdsamplingRowRange range.1 range.2

end LeafAdsJob

/-- `LeafAdSamplingChunk`. -/
structure LeafAdSamplingChunk (R : Type) where
  rowStart : Nat
  rowEnd : Nat
  rowTopk : List R

def LeafAdSamplingChunk.span (chunk : LeafAdSamplingChunk R) : Nat × Nat :=
  (chunk.rowStart, chunk.rowEnd)

/-- How chunks are sorted by their first rows. -/
abbrev ChunkSort (R : Type) := UnstableSort fun a b : LeafAdSamplingChunk R => a.rowStart ≤ b.rowStart

/-- Chunk by chunk. The debug assertions are kept: each chunk begins where the one before ends, and
has a result for each of its rows. -/
def collectChunks : Nat → List (LeafAdSamplingChunk R) → AnnResult (List R)
  | _, [] => .ok []
  | expectedStart, chunk :: chunks =>
      if chunk.rowStart ≠ expectedStart then .error (.panic "assertion left == right failed")
      else if chunk.rowEnd - chunk.rowStart ≠ chunk.rowTopk.length then
        .error (.panic "assertion left == right failed")
      else do
        let rest ← collectChunks chunk.rowEnd chunks
        .ok (chunk.rowTopk ++ rest)

/-- `finalize_leaf_ads_tiles`. -/
def finalizeLeafAdsTiles (sort : ChunkSort R) (chunks : List (LeafAdSamplingChunk R)) :
    AnnResult (List R) :=
  collectChunks 0 (sort.sort chunks)

/-! ## States -/

/-- The counters of `LeafAdsOperatorRuntime`. -/
structure Runtime where
  activeContexts : Nat
  activeWorkers : Nat
  ewmaNsPerRowByBucket : List Nat

/-- Where a worker is in its loop over tiles. -/
inductive WorkerPc (R : Type) where
  | sizing
  | claiming (tileRows : Nat)
  | computing (rowStart rowEnd : Nat)
  /-- In the loop of `record_tile`, which has read `old`. -/
  | recording (chunk : LeafAdSamplingChunk R) (sample old : Nat)
  /-- The quantum is over, and the cursor is looked at. -/
  | checking
  | collecting
  | stopped

structure Worker (R : Type) where
  pc : WorkerPc R
  localChunks : List (LeafAdSamplingChunk R)

/-- The workers of a leaf, which share a cursor and the finished chunks. -/
structure Team (R : Type) where
  cursor : Nat
  workers : List (Worker R)
  chunks : List (LeafAdSamplingChunk R)

/-- Where the thread of a leaf is; `count` is its reservation. -/
inductive JobPc (R : Type) where
  | idle
  | begun
  | sized (maxTiles : Nat)
  | reserving (requested : Nat)
  | exchanging (requested active : Nat)
  | tiling (count : Nat) (team : Team R)
  | finished (count : Nat) (result : AnnResult (List R))
  | released (result : AnnResult (List R))
  | returned (result : AnnResult (List R))

structure JobThread (R : Type) where
  job : LeafAdsJob R
  pc : JobPc R

/-- What a thread does next, with what it finds out about the time and about its luck. -/
inductive TileMove where
  | thread (spurious : Bool)
  | worker (j elapsedNs : Nat) (quantumOver spurious : Bool)

/-! ## Steps -/

namespace LeafAdsOperatorConfig

variable (config : LeafAdsOperatorConfig) (runtime : Runtime) (bucket : Nat)

/-- `tile_rows_for_bucket`. -/
def tileRowsForBucket : Nat :=
  let ewma := runtime.ewmaNsPerRowByBucket.getD bucket 0
  let rows := if ewma = 0 then 256
    else min (config.targetTileMs * 1000000) (2 ^ 64 - 1) / max ewma 1
  alignLeafAdsTileRows (max config.minTileRows (min rows config.maxTileRows))

/-- `worker_cap_for_current_contexts`. -/
def workerCapForCurrentContexts : Nat :=
  let activeContexts := max runtime.activeContexts 1
  if activeContexts = 1 then max config.cpuBudget 1
  else min (max (config.cpuBudget / activeContexts) 4) (max config.cpuBudget 1)

end LeafAdsOperatorConfig

def startWorkers (R : Type) (workerCount : Nat) : Team R :=
  ⟨0, List.replicate workerCount ⟨.sizing, []⟩, []⟩

/-- The average after a sample. -/
def nextEwma (old sample : Nat) : Nat :=
  if old = 0 then sample
  else min (min (old * 7) (2 ^ 64 - 1) + sample) (2 ^ 64 - 1) / 8

variable (config : LeafAdsOperatorConfig) (sort : ChunkSort R)

/-- A worker of `run_leaf_ads_tile_worker`, or the one of the work graph. -/
def workerStep (job : LeafAdsJob R) (runtime : Runtime) (team : Team R) (worker : Worker R)
    (elapsedNs : Nat) (quantumOver spurious : Bool) : Option (Runtime × Team R × Worker R) :=
  let bucket := leafAdsSizeBucket job.leafSize
  match worker.pc with
  | .sizing =>
      let tileRows := max (config.tileRowsForBucket runtime bucket) ADS_QUERY_TILE
      some (runtime, team, { worker with pc := .claiming tileRows })
  | .claiming tileRows =>
      let rowStart := team.cursor
      let team := { team with cursor := rowStart + tileRows }
      if job.leafSize ≤ rowStart then some (runtime, team, { worker with pc := .collecting })
      else some (runtime, team,
        { worker with pc := .computing rowStart (min (rowStart + tileRows) job.leafSize) })
  | .computing rowStart rowEnd =>
      let chunk : LeafAdSamplingChunk R :=
        ⟨rowStart, rowEnd, job.computeLeafAdsamplingRowRange rowStart rowEnd⟩
      let sample := max (min (elapsedNs / (rowEnd - rowStart)) (2 ^ 64 - 1)) 1
      some (runtime, team, { worker with
        pc := .recording chunk sample (runtime.ewmaNsPerRowByBucket.getD bucket 0) })
  | .recording chunk sample old =>
      let current := runtime.ewmaNsPerRowByBucket.getD bucket 0
      if current = old ∧ spurious = false then
        some ({ runtime with
            ewmaNsPerRowByBucket := runtime.ewmaNsPerRowByBucket.set bucket (nextEwma old sample) },
          team, { pc := if config.workGraph && quantumOver then .checking else .sizing,
                  localChunks := worker.localChunks ++ [chunk] })
      else some (runtime, team, { worker with pc := .recording chunk sample current })
  | .checking =>
      some (runtime, team,
        { worker with pc := if job.leafSize ≤ team.cursor then .collecting else .sizing })
  | .collecting =>
      some (runtime, { team with chunks := team.chunks ++ worker.localChunks }, ⟨.stopped, []⟩)
  | .stopped => none

def WorkerPc.isStopped : WorkerPc R → Bool
  | .stopped => true
  | _ => false

/-- The thread of a leaf: `compute_leaf_adsampling_topk_l2_tiled`, and that of the work graph, which
is its only worker and reserves nothing. -/
def threadStep (thread : JobThread R) (runtime : Runtime) (spurious : Bool) :
    Option (Runtime × JobPc R) :=
  let bucket := leafAdsSizeBucket thread.job.leafSize
  match thread.pc with
  | .idle => some ({ runtime with activeContexts := runtime.activeContexts + 1 }, .begun)
  | .begun =>
      if config.workGraph then some (runtime, .tiling 0 (startWorkers R 1))
      else
        let initialTileRows := max (config.tileRowsForBucket runtime bucket) ADS_QUERY_TILE
        some (runtime,
          .sized (max ((thread.job.leafSize + initialTileRows - 1) / initialTileRows) 1))
  | .sized maxTiles =>
      let workerCap := max (min (config.workerCapForCurrentContexts runtime) maxTiles) 1
      some (runtime, .reserving (min (max workerCap 1) (max config.cpuBudget 1)))
  | .reserving requested =>
      if runtime.activeWorkers < config.cpuBudget then
        some (runtime, .exchanging requested runtime.activeWorkers)
      else some (runtime, .reserving requested)
  | .exchanging requested active =>
      let grant := max (min requested (config.cpuBudget - active)) 1
      if runtime.activeWorkers = active ∧ spurious = false then
        some ({ runtime with activeWorkers := active + grant },
          .tiling grant (startWorkers R (max grant 1)))
      else some (runtime, .reserving requested)
  | .tiling count team =>
      if team.workers.all fun worker => worker.pc.isStopped then
        some (runtime, .finished count (finalizeLeafAdsTiles sort team.chunks))
      else none
  | .finished count result =>
      some ({ runtime with activeWorkers := runtime.activeWorkers - count }, .released result)
  | .released result =>
      some ({ runtime with activeContexts := runtime.activeContexts - 1 }, .returned result)
  | .returned _ => none

/-- The steps of the leaf's thread, and of its workers. -/
def program : Program Runtime (JobThread R) TileMove := fun runtime thread move =>
  match move with
  | .thread spurious =>
      (threadStep config sort thread runtime spurious).map fun (runtime, pc) =>
        (runtime, { thread with pc := pc }, [])
  | .worker j elapsedNs quantumOver spurious =>
      match thread.pc with
      | .tiling count team =>
          match team.workers[j]? with
          | some worker =>
              (workerStep config thread.job runtime team worker elapsedNs quantumOver spurious).map
                fun (runtime, team, worker) =>
                  let team := { team with workers := team.workers.set j worker }
                  (runtime, { thread with pc := .tiling count team }, [])
          | none => none
      | _ => none

/-- A runtime as it is created, and leaves that are not yet begun. -/
def initial (jobs : List (LeafAdsJob R)) : Pool Runtime (JobThread R) where
  shared := ⟨0, 0, List.replicate LEAF_ADS_EWMA_BUCKETS 0⟩
  threads := jobs.map fun job => ⟨job, .idle⟩

end LeafAds

end ForgeANN
