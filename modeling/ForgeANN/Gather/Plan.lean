-- SUMMARY: The windowed gather: the plan of windows and scatter operations, and its execution over a file of rows.
import ForgeANN.Common.Basic
import ForgeANN.Common.Float
import ForgeANN.Lib.ByteFile
import ForgeANN.Lib.Except
import ForgeANN.Lib.Greedy
import ForgeANN.Lib.SortDedup

/-!
# Windowed gathers

Rows are gathered by reading windows of consecutive rows and copying the rows
asked for out of them. Arithmetic on row ids wraps, as it does in a release
build; sizes and file offsets stay below `2 ^ 64`.
-/
namespace ForgeANN

open Lib

/-! ## The plan -/

structure WindowedGatherOptions where
  maxGapRows : UInt32
  maxWindowBytes : Nat
  alignmentBytes : Nat
  sortIds : Bool
deriving DecidableEq, Repr

structure WindowedGatherStats where
  rowsRequested : Nat
  windowsSubmitted : Nat
  rowsPerWindowSum : Nat
  singletonWindows : Nat
  rangeWindows : Nat
  rangeRowsRead : Nat
  logicalBytes : Nat
  physicalBytes : Nat
  alignmentWasteBytes : Nat
  overreadRows : Nat
  scatterOps : Nat
deriving DecidableEq, Repr

structure GatherRow where
  rowId : UInt32
  originalPos : Nat
deriving DecidableEq, Repr

structure ReadWindow where
  startRow : UInt32
  rowCount : UInt32
deriving DecidableEq, Repr

structure ScatterOp where
  originalPos : Nat
  rowOffsetInWindow : UInt32
deriving DecidableEq, Repr

structure GatherPlan where
  windows : List ReadWindow
  scatterByWindow : List (List ScatterOp)
deriving DecidableEq, Repr

/-- `sort_unstable_by_key(|row| row.row_id)`. -/
abbrev RowSort := UnstableSort fun a b : GatherRow => a.rowId ≤ b.rowId

/-- The ids with the positions they are asked for at. -/
def gatherRows (ids : List UInt32) : List GatherRow :=
  ids.zipIdx.map fun id => ⟨id.1, id.2⟩

/-- `a.div_ceil(b)`. -/
def divCeil (a b : Nat) : Nat := (a + b - 1) / b

def saturatingSub (a b : UInt32) : UInt32 := if a < b then 0 else a - b

/-- The first row of a window, and the last one that has joined. -/
structure WindowSpan where
  startRow : UInt32
  prevRow : UInt32
deriving DecidableEq, Repr

namespace WindowedGatherOptions

variable (options : WindowedGatherOptions)

def maxWindowRows (numIds rowBytes : Nat) : Nat :=
  if rowBytes = 0 then max numIds 1 else max (options.maxWindowBytes / rowBytes) 1

/-- Whether the loop over `sorted_end` goes on. -/
def joins (maxWindowRows : Nat) (span : WindowSpan) (nextRow : UInt32) : Bool :=
  let gap := saturatingSub (saturatingSub nextRow span.prevRow) 1
  let proposedRowCount := (saturatingSub nextRow span.startRow).toNat + 1
  !(decide (options.maxGapRows < gap) || decide (maxWindowRows < proposedRowCount))

def extend (maxWindowRows : Nat) (span : WindowSpan) (row : GatherRow) : Option WindowSpan :=
  if options.joins maxWindowRows span row.rowId then some ⟨span.startRow, row.rowId⟩ else none

/-- The rows in the order they are put into windows. -/
def arrange (sort : RowSort) (ids : List UInt32) : List GatherRow :=
  if options.sortIds then sort.sort (gatherRows ids) else gatherRows ids

/-- The rows of each window. -/
def runs (sort : RowSort) (ids : List UInt32) (rowBytes : Nat) : List (GreedyRun GatherRow WindowSpan) :=
  greedyRuns (fun row => ⟨row.rowId, row.rowId⟩)
    (options.extend (options.maxWindowRows ids.length rowBytes)) (options.arrange sort ids)

end WindowedGatherOptions

/-- The window of a run. -/
def readWindow (run : GreedyRun GatherRow WindowSpan) : ReadWindow where
  startRow := run.first.rowId
  rowCount := run.last.rowId - run.first.rowId + 1

/-- What is copied out of a run's window. -/
def windowScatter (run : GreedyRun GatherRow WindowSpan) : List ScatterOp :=
  run.items.map fun row => ⟨row.originalPos, row.rowId - run.first.rowId⟩

/-- What a window adds to the statistics. -/
def recordWindow (rowBytes : Nat) (options : WindowedGatherOptions) (stats : WindowedGatherStats)
    (run : GreedyRun GatherRow WindowSpan) : WindowedGatherStats :=
  let rowCount := (readWindow run).rowCount
  let distinctRequestedRows := (dedupAdjacent (run.items.map GatherRow.rowId)).length
  let logicalBytes := rowCount.toNat * rowBytes
  let alignment := max options.alignmentBytes 1
  let physicalBytes :=
    if options.sortIds then divCeil logicalBytes alignment * alignment
    else logicalBytes
  { stats with
    windowsSubmitted := stats.windowsSubmitted + 1
    rowsPerWindowSum := stats.rowsPerWindowSum + rowCount.toNat
    singletonWindows := stats.singletonWindows + if rowCount ≤ 1 then 1 else 0
    rangeWindows := stats.rangeWindows + if rowCount ≤ 1 then 0 else 1
    rangeRowsRead := stats.rangeRowsRead + if rowCount ≤ 1 then 0 else rowCount.toNat
    overreadRows := stats.overreadRows +
      (saturatingSub rowCount (UInt32.ofNat distinctRequestedRows)).toNat
    physicalBytes := stats.physicalBytes + physicalBytes
    alignmentWasteBytes := stats.alignmentWasteBytes + (physicalBytes - logicalBytes)
    scatterOps := stats.scatterOps + run.items.length }

def buildGatherPlan (sort : RowSort) (ids : List UInt32) (rowBytes : Nat)
    (options : WindowedGatherOptions) (stats : WindowedGatherStats) :
    GatherPlan × WindowedGatherStats :=
  let runs := options.runs sort ids rowBytes
  let stats := { stats with
    rowsRequested := stats.rowsRequested + ids.length
    logicalBytes := stats.logicalBytes + ids.length * rowBytes }
  (⟨runs.map readWindow, runs.map windowScatter⟩,
    runs.foldl (recordWindow rowBytes options) stats)

/-! ## Execution -/

/-- A mapped file of rows behind a header: points or sketches. It is opened only if all its rows are
there. -/
structure RowFile where
  headerBytes : Nat
  numRows : Nat
  width : Nat
  mmap : Bytes
  complete : headerBytes + numRows * (width * 4) ≤ mmap.length

namespace RowFile

variable (store : RowFile)

def rowBytes : Nat := store.width * 4

def rowByteRange (startRow count : Nat) : AnnResult (Nat × Nat) :=
  if store.numRows < startRow + count then
    .error (.index
      s!"Range [{startRow}..{startRow + count}) out of bounds for {store.numRows} points")
  else
    let byteStart := store.headerBytes + startRow * store.rowBytes
    let byteEnd := byteStart + count * store.rowBytes
    if store.mmap.length < byteEnd then
      .error (.index (s!"Mmap point store byte range [{byteStart}..{byteEnd}) exceeds mapped " ++
        s!"length {store.mmap.length}"))
    else .ok (byteStart, byteEnd)

/-- The bytes of a range, four to a value. -/
def mappedRowsAsF32 (range : Nat × Nat) : List F32 :=
  (List.range ((range.2 - range.1) / 4)).map fun i =>
    ⟨UInt32.ofNat (ofLe (store.mmap.readAt (range.1 + i * 4) 4))⟩

/-- One row, read by its id. -/
def readPoint (id : UInt32) : AnnResult (List F32) := do
  let range ← store.rowByteRange id.toNat 1
  .ok (store.mappedRowsAsF32 range)

end RowFile

/-- `dst[dst_start..dst_end].copy_from_slice(&src[src_start..src_end])`. -/
def copySlice (src : List F32) (srcStart : Nat) (dst : List F32) (dstStart len : Nat) :
    AnnResult (List F32) :=
  if srcStart + len ≤ src.length ∧ dstStart + len ≤ dst.length then
    .ok (dst.take dstStart ++ (src.drop srcStart).take len ++ dst.drop (dstStart + len))
  else .error (.panic "range end index out of range for slice")

def scatterWindowRows (plan : GatherPlan) (windowIdx rowWidth : Nat) (windowSlice out : List F32) :
    AnnResult (List F32) :=
  match plan.scatterByWindow[windowIdx]? with
  | none => .error (.panic "index out of bounds")
  | some ops =>
      ops.foldlM (fun out scatter =>
        copySlice windowSlice (scatter.rowOffsetInWindow.toNat * rowWidth) out
          (scatter.originalPos * rowWidth) rowWidth) out

namespace RowFile

/-- One window of the plan. -/
def readWindowInto (store : RowFile) (plan : GatherPlan) (out : List F32)
    (window : ReadWindow × Nat) : AnnResult (List F32) := do
  let range ← store.rowByteRange window.1.startRow.toNat window.1.rowCount.toNat
  scatterWindowRows plan window.2 store.width (store.mappedRowsAsF32 range) out

def readPointsWindowedIntoStats (store : RowFile) (sort : RowSort) (ids : List UInt32)
    (out : List F32) (options : WindowedGatherOptions) (stats : WindowedGatherStats) :
    AnnResult (List F32 × WindowedGatherStats) :=
  if ids = [] then .ok (out, stats)
  else if out.length ≠ ids.length * store.width then
    .error (.index
      s!"Point matrix size mismatch: got {out.length} expected {ids.length * store.width}")
  else do
    let (plan, stats) := buildGatherPlan sort ids store.rowBytes options stats
    let out ← plan.windows.zipIdx.foldlM (store.readWindowInto plan) out
    .ok (out, stats)

end RowFile
end ForgeANN
