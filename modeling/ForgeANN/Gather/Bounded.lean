-- SUMMARY: The bounded read planner: windows within a byte limit and a read amplification, and the reads their execution makes.
import ForgeANN.Gather.Plan
import Mathlib.Data.Finset.Union
import Mathlib.Order.Interval.Finset.Nat
import Mathlib.Data.Rat.Defs
import Mathlib.Algebra.Order.Ring.Rat

/-!
# Bounded read plans

Rows are sorted by id and put into windows as long as a window stays within its
limits. One planner counts rows, the other one the aligned blocks that a direct
read touches.
-/
namespace ForgeANN

open Lib

/-! ## Planners -/

structure ReadScatter where
  windowIdx : Nat
  rowOffsetInWindow : UInt32
  originalPos : Nat
deriving DecidableEq, Repr

structure BoundedReadPlan where
  windows : List ReadWindow
  scatter : List ReadScatter
  requestedRows : Nat
  physicalRows : Nat
  physicalBytes : Nat
  rowBytes : Nat
deriving DecidableEq, Repr

/-- `logical_bytes`. -/
def BoundedReadPlan.logicalBytes (plan : BoundedReadPlan) : Nat :=
  min (plan.requestedRows * plan.rowBytes) (2 ^ 64 - 1)

structure BoundedReadPlanner where
  rowBytes : Nat
  maxWindowBytes : Nat
  maxReadAmplification : Float

def DEFAULT_MAX_READ_AMPLIFICATION : Float := 1.5

/-- The rows of a window so far. -/
structure WindowRows where
  startRow : UInt32
  requestedRows : Nat
deriving DecidableEq, Repr

structure AlignedBlockRange where
  start : Nat
  stop : Nat
deriving DecidableEq, Repr

def alignedBlocksForRow (rowId : UInt32) (rowBytes alignmentBytes headerBytes : Nat) :
    AlignedBlockRange :=
  let rowStart := headerBytes + rowId.toNat * rowBytes
  ⟨rowStart / alignmentBytes, divCeil (rowStart + rowBytes) alignmentBytes⟩

def alignedReadBytesForRows (startRow endRow : UInt32)
    (rowBytes alignmentBytes headerBytes : Nat) : Nat :=
  let logicalOffset := headerBytes + startRow.toNat * rowBytes
  let rowCount := endRow.toNat - startRow.toNat + 1
  let logicalEnd := logicalOffset + rowCount * rowBytes
  let alignedOffset := logicalOffset / alignmentBytes * alignmentBytes
  let alignedEnd := divCeil logicalEnd alignmentBytes * alignmentBytes
  alignedEnd - alignedOffset

/-- The rows of a window so far, the blocks they touch, and the bytes read for them. -/
structure AlignedRows where
  startRow : UInt32
  touchedBlocks : AlignedBlockRange
  touchedBlockCount : Nat
  physicalBytes : Nat
deriving DecidableEq, Repr

/-- The window of a run of sorted rows. -/
def boundedWindow {σ : Type} (run : GreedyRun GatherRow σ) : ReadWindow where
  startRow := run.first.rowId
  rowCount := saturatingSub run.last.rowId run.first.rowId + 1

namespace BoundedReadPlanner

variable (planner : BoundedReadPlanner)

/-- `self.row_bytes.max(1)`. -/
def planRowBytes : Nat := max planner.rowBytes 1

def maxAmp : Float :=
  if planner.maxReadAmplification.isFinite && decide (1.0 ≤ planner.maxReadAmplification) then
    planner.maxReadAmplification
  else DEFAULT_MAX_READ_AMPLIFICATION

def maxWindowRows : Nat :=
  max (max planner.maxWindowBytes planner.planRowBytes / planner.planRowBytes) 1

def extend (rows : WindowRows) (row : GatherRow) : Option WindowRows :=
  let physicalRows := (saturatingSub row.rowId rows.startRow).toNat + 1
  let requestedRows := rows.requestedRows + 1
  let amplification := asF64 physicalRows / asF64 requestedRows
  if planner.maxWindowRows < physicalRows ∨ planner.maxAmp < amplification then none
  else some ⟨rows.startRow, requestedRows⟩

def runs (sort : RowSort) (ids : List UInt32) : List (GreedyRun GatherRow WindowRows) :=
  greedyRuns (fun row => ⟨row.rowId, 1⟩) planner.extend (sort.sort (gatherRows ids))

/-- The plan of windows that read `windowBytes` each. -/
def planOf {σ : Type} (ids : List UInt32) (runs : List (GreedyRun GatherRow σ))
    (windowBytes : GreedyRun GatherRow σ → Nat) : BoundedReadPlan where
  windows := runs.map boundedWindow
  scatter := runs.zipIdx.flatMap fun run => run.1.items.map fun row =>
    ⟨run.2, row.rowId - run.1.first.rowId, row.originalPos⟩
  requestedRows := ids.length
  physicalRows := (runs.map fun run => (boundedWindow run).rowCount.toNat).sum
  physicalBytes := (runs.map windowBytes).sum
  rowBytes := planner.planRowBytes

def plan (sort : RowSort) (ids : List UInt32) : BoundedReadPlan :=
  planner.planOf ids (planner.runs sort ids) fun run =>
    (boundedWindow run).rowCount.toNat * planner.planRowBytes

section

variable (alignmentBytes headerBytes : Nat)

/-- `self.max_window_bytes.max(row_bytes).max(alignment_bytes)`. -/
def maxAlignedBytes : Nat :=
  max (max planner.maxWindowBytes planner.planRowBytes) (max alignmentBytes 1)

def firstAligned (row : GatherRow) : AlignedRows :=
  let alignment := max alignmentBytes 1
  let blocks := alignedBlocksForRow row.rowId planner.planRowBytes alignment headerBytes
  { startRow := row.rowId
    touchedBlocks := blocks
    touchedBlockCount := blocks.stop - blocks.start
    physicalBytes :=
      alignedReadBytesForRows row.rowId row.rowId planner.planRowBytes alignment headerBytes }

def extendAligned (rows : AlignedRows) (row : GatherRow) : Option AlignedRows :=
  let alignment := max alignmentBytes 1
  let physicalBytes :=
    alignedReadBytesForRows rows.startRow row.rowId planner.planRowBytes alignment headerBytes
  if planner.maxAlignedBytes alignmentBytes < physicalBytes then none
  else
    let nextBlocks := alignedBlocksForRow row.rowId planner.planRowBytes alignment headerBytes
    let extraBlocks := nextBlocks.stop - max rows.touchedBlocks.stop nextBlocks.start
    let candidateTouchedBlockCount := rows.touchedBlockCount + extraBlocks
    let mandatoryBytes := candidateTouchedBlockCount * alignment
    let amplification :=
      if mandatoryBytes = 0 then 1.0 else asF64 physicalBytes / asF64 mandatoryBytes
    if planner.maxAmp < amplification then none
    else some {
      startRow := rows.startRow
      touchedBlocks := ⟨rows.touchedBlocks.start, max rows.touchedBlocks.stop nextBlocks.stop⟩
      touchedBlockCount := candidateTouchedBlockCount
      physicalBytes }

def alignedRuns (sort : RowSort) (ids : List UInt32) : List (GreedyRun GatherRow AlignedRows) :=
  greedyRuns (planner.firstAligned alignmentBytes headerBytes)
    (planner.extendAligned alignmentBytes headerBytes) (sort.sort (gatherRows ids))

def planWithAlignedReadCost (sort : RowSort) (ids : List UInt32) : BoundedReadPlan :=
  planner.planOf ids (planner.alignedRuns alignmentBytes headerBytes sort ids) fun run =>
    run.state.physicalBytes

end
end BoundedReadPlanner

/-! ## Executors -/

/-- What `read_range_into` reads of a mapped or buffered file: offset and length. -/
def rangeRead (headerBytes rowBytes : Nat) (window : ReadWindow) : Nat × Nat :=
  (headerBytes + window.startRow.toNat * rowBytes, window.rowCount.toNat * rowBytes)

/-- The read of a window that is submitted to the ring: offset and length. -/
def alignedRead (headerBytes rowBytes alignment : Nat) (window : ReadWindow) : Nat × Nat :=
  let alignment := max alignment 1
  let logicalOffset := headerBytes + window.startRow.toNat * rowBytes
  let logicalLen := window.rowCount.toNat * rowBytes
  let alignedOffset := logicalOffset / alignment * alignment
  let lead := logicalOffset - alignedOffset
  (alignedOffset, divCeil (lead + logicalLen) alignment * alignment)

/-- The bytes of all reads. -/
def readBytes (reads : List (Nat × Nat)) : Nat := (reads.map Prod.snd).sum

end ForgeANN
