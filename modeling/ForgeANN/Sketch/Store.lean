-- SUMMARY: Sketch rows in memory, in a file, and behind a resident prefix; the reads of many rows at once.
import ForgeANN.Common.Chunks
import ForgeANN.Gather.Bounded
import ForgeANN.Points.VectorRun
import ForgeANN.Storage.DirectRead
import ForgeANN.Storage.SketchBuild

/-!
# Sketch stores

Sketches are a matrix of `f32`s, one row a point. It is held in memory, or read
from a file that is mapped or opened for direct I/O; with a resident prefix, the
first rows are in memory and the others are read from the file. Many rows are
read one by one, in runs of consecutive ids, or through one of the planners.
-/
namespace ForgeANN

open Lib

/-! ## Windows of a plan -/

namespace WindowedGatherStats

def default : WindowedGatherStats := ⟨0, 0, 0, 0, 0, 0, 0, 0, 0, 0, 0⟩

def merge (stats other : WindowedGatherStats) : WindowedGatherStats where
  rowsRequested := stats.rowsRequested + other.rowsRequested
  windowsSubmitted := stats.windowsSubmitted + other.windowsSubmitted
  rowsPerWindowSum := stats.rowsPerWindowSum + other.rowsPerWindowSum
  singletonWindows := stats.singletonWindows + other.singletonWindows
  rangeWindows := stats.rangeWindows + other.rangeWindows
  rangeRowsRead := stats.rangeRowsRead + other.rangeRowsRead
  logicalBytes := stats.logicalBytes + other.logicalBytes
  physicalBytes := stats.physicalBytes + other.physicalBytes
  alignmentWasteBytes := stats.alignmentWasteBytes + other.alignmentWasteBytes
  overreadRows := stats.overreadRows + other.overreadRows
  scatterOps := stats.scatterOps + other.scatterOps

def keepResidentPrefixLogicalStatsOnly (stats : WindowedGatherStats) : WindowedGatherStats :=
  { stats with
    windowsSubmitted := 0
    rowsPerWindowSum := 0
    singletonWindows := 0
    rangeWindows := 0
    rangeRowsRead := 0
    physicalBytes := 0
    alignmentWasteBytes := 0
    overreadRows := 0 }

def recordBoundedWindow (stats : WindowedGatherStats) (window : ReadWindow) : WindowedGatherStats :=
  { stats with
    rowsPerWindowSum := stats.rowsPerWindowSum + window.rowCount.toNat
    singletonWindows := stats.singletonWindows + if window.rowCount ≤ 1 then 1 else 0
    rangeWindows := stats.rangeWindows + if window.rowCount ≤ 1 then 0 else 1
    rangeRowsRead := stats.rangeRowsRead +
      if window.rowCount ≤ 1 then 0 else window.rowCount.toNat }

def recordBoundedSketchPlanStats (plan : BoundedReadPlan) (rowBytes : Nat)
    (stats : WindowedGatherStats) : WindowedGatherStats :=
  let rowSpanBytes := (plan.windows.map fun window => window.rowCount.toNat * rowBytes).sum
  let stats := { stats with
    rowsRequested := stats.rowsRequested + plan.requestedRows
    logicalBytes := stats.logicalBytes + plan.requestedRows * plan.rowBytes
    physicalBytes := stats.physicalBytes + plan.physicalBytes
    windowsSubmitted := stats.windowsSubmitted + plan.windows.length
    scatterOps := stats.scatterOps + plan.scatter.length
    overreadRows := stats.overreadRows + (plan.physicalRows - plan.requestedRows)
    alignmentWasteBytes := stats.alignmentWasteBytes + (plan.physicalBytes - rowSpanBytes) }
  plan.windows.foldl recordBoundedWindow stats

end WindowedGatherStats

/-- The rows of the windows read by `read`, and copied to where they are asked for. -/
def readWindows (read : Nat → Nat → AnnResult (List F32)) (plan : GatherPlan) (width : Nat)
    (out : List F32) : AnnResult (List F32) :=
  plan.windows.zipIdx.foldlM (fun out window => do
    let windowSlice ← read window.1.startRow.toNat window.1.rowCount.toNat
    scatterWindowRows plan window.2 width windowSlice out) out

/-- The scatter operations of each window, as the cursor passes over them. -/
def boundedSketchScatterRanges : Nat → Nat → List ReadScatter → List (List ReadScatter)
  | 0, _, _ => []
  | windows + 1, windowIdx, scatter =>
      scatter.takeWhile (fun op => op.windowIdx = windowIdx) ::
        boundedSketchScatterRanges windows (windowIdx + 1)
          (scatter.dropWhile fun op => op.windowIdx = windowIdx)

def BoundedReadPlan.parts (plan : BoundedReadPlan) : List (ReadWindow × List ReadScatter) :=
  plan.windows.zip (boundedSketchScatterRanges plan.windows.length 0 plan.scatter)

def scatterBoundedSketchWindow (scatter : List ReadScatter) (rowWidth : Nat)
    (windowSlice out : List F32) : AnnResult (List F32) :=
  scatter.foldlM (fun out op =>
    copySlice windowSlice (op.rowOffsetInWindow.toNat * rowWidth) out (op.originalPos * rowWidth)
      rowWidth) out

def readBoundedWindows (read : Nat → Nat → AnnResult (List F32)) (plan : BoundedReadPlan)
    (width : Nat) (out : List F32) : AnnResult (List F32) :=
  plan.parts.foldlM (fun out part => do
    let windowSlice ← read part.1.startRow.toNat part.1.rowCount.toNat
    scatterBoundedSketchWindow part.2 width windowSlice out) out

/-! ## In memory -/

structure SketchStore where
  data : List F32
  width : Nat

namespace SketchStore

variable (store : SketchStore)

def rows : Nat := if store.width = 0 then 0 else store.data.length / store.width

/-- `&self.data[start..end]`, from row to row. -/
def slice (start count : Nat) : AnnResult (List F32) :=
  if start * store.width + count * store.width ≤ store.data.length then
    .ok ((store.data.drop (start * store.width)).take (count * store.width))
  else .error (.panic "range end index out of range for slice")

def row (idx : Nat) : AnnResult (List F32) := store.slice idx 1

def rowCopyInto (idx : Nat) (dst : List F32) : AnnResult (List F32) :=
  if dst.length ≠ store.width then
    .error (.index s!"Sketch row copy width mismatch: dst={dst.length} expected={store.width}")
  else store.row idx

def readRowsWindowedIntoStats (sort : RowSort) (ids : List UInt32) (out : List F32)
    (options : WindowedGatherOptions) (stats : WindowedGatherStats) :
    AnnResult (List F32 × WindowedGatherStats) :=
  if ids = [] then .ok (out, stats)
  else do
    let (plan, stats) := buildGatherPlan sort ids (store.width * F32_BYTES) options stats
    let out ← readWindows store.slice plan store.width out
    .ok (out, stats)

/-- What the trait makes of a bounded read: a windowed one without gaps. -/
def boundedOptions (width maxWindowBytes : Nat) : WindowedGatherOptions :=
  let rowBytes := max (width * F32_BYTES) 1
  { maxGapRows := 0
    maxWindowBytes := max maxWindowBytes rowBytes
    alignmentBytes := rowBytes
    sortIds := true }

def readRowsBoundedIntoStats (sort : RowSort) (ids : List UInt32) (out : List F32)
    (maxWindowBytes : Nat) (stats : WindowedGatherStats) :
    AnnResult (List F32 × WindowedGatherStats) :=
  store.readRowsWindowedIntoStats sort ids out (boundedOptions store.width maxWindowBytes) stats

end SketchStore

/-! ## In a file -/

/-- The most bytes that one `read` transfers. -/
def MAX_RW_COUNT : Nat := 0x7ffff000

/-- What the ring reports for a read of a regular file: the bytes asked for, up to the end of the
file and to what one read transfers. -/
structure RingReads (file : Bytes) where
  count : Nat → Nat → Nat
  count_eq : ∀ offset len, count offset len = min (min len MAX_RW_COUNT) (file.length - offset)

inductive SketchBacking (file : Bytes) where
  | mmap
  | direct (cfg : DirectIoConfig) (reads : ReadAt file) (ring : RingReads file)

structure DiskSketchStore where
  path : String
  file : Bytes
  backing : SketchBacking file
  rows : Nat
  width : Nat

def SKETCH_URING_WINDOW_GATHER_MIN_WINDOWS : Nat := 2
def SKETCH_URING_WINDOW_GATHER_QUEUE_DEPTH : Nat := 32

namespace DiskSketchStore

def openWithConfig (path : String) (file : Bytes) (cfg : DirectIoConfig) (reads : ReadAt file)
    (ring : RingReads file) : AnnResult DiskSketchStore :=
  if file.length < HEADER_BYTES then .error (.io .unexpectedEof)
  else
    let rows := ofLe (file.readAt 0 8)
    let width := ofLe (file.readAt 8 8)
    let expectedBytes := HEADER_BYTES + rows * width * F32_BYTES
    if 2 ^ 64 ≤ expectedBytes then .error (.index "Sketch file size overflow")
    else if file.length ≠ expectedBytes then
      .error (.index
        s!"Sketch file size mismatch: expected {expectedBytes}, found {file.length}")
    else .ok {
      path, file, rows, width
      backing := if cfg.enabled then .direct cfg reads ring else .mmap }

variable (store : DiskSketchStore)

def rowBytes : Nat := store.width * F32_BYTES

/-- The values of a stretch of the file; `outside` is what a mapping answers past its end. -/
def readBytes (outside : AnnError) (offset len : Nat) : AnnResult (List F32) :=
  match store.backing with
  | .mmap =>
      if offset + len ≤ store.file.length then .ok (f32sOfBytes (store.file.readAt offset len))
      else .error outside
  | .direct cfg reads _ => do
      let bytes ← reads.readExactAt cfg store.path offset len
      .ok (f32sOfBytes bytes)

def readSketchRangeInto (start count : Nat) : AnnResult (List F32) :=
  store.readBytes (.panic "range end index out of range for slice")
    (HEADER_BYTES + start * store.rowBytes) (count * store.rowBytes)

def rowCopyInto (idx : Nat) (dst : List F32) : AnnResult (List F32) :=
  if dst.length ≠ store.width then
    .error (.index s!"Sketch row copy width mismatch: dst={dst.length} expected={store.width}")
  else if store.rows ≤ idx then
    .error (.index s!"Sketch row {idx} is out of bounds for {store.rows} rows")
  else
    store.readBytes
      (.index s!"Sketch row {idx} byte range is out of bounds for mapped file")
      (HEADER_BYTES + idx * store.rowBytes) store.rowBytes

def row (idx : Nat) : AnnResult (List F32) :=
  store.rowCopyInto idx (List.replicate store.width F32.zero)

/-- Runs in which each id is the one before plus one, in `u32` arithmetic. -/
def coalescedRuns (ids : List UInt32) : List (GreedyRun UInt32 UInt32) :=
  greedyRuns id (fun prev next => if next = prev + 1 then some next else none) ids

/-- The loop over the runs, which fills `out` from its front on. -/
def readRuns : List (GreedyRun UInt32 UInt32) → Nat → List F32 → AnnResult (List F32)
  | [], _, out => .ok out
  | run :: runs, runStart, out => do
      let runLen := run.items.length
      let rows ← store.readSketchRangeInto run.first.toNat runLen
      let out ← copySlice rows 0 out (runStart * store.width) (runLen * store.width)
      readRuns runs (runStart + runLen) out

def readRowsInto (ids : List UInt32) (out : List F32) : AnnResult (List F32) :=
  store.readRuns (coalescedRuns ids) 0 out

def checkMatrix (ids : List UInt32) (out : List F32) : AnnResult Unit :=
  if out.length ≠ ids.length * store.width then
    .error (.index ("Sketch matrix size mismatch: " ++
      s!"got {out.length} expected {ids.length * store.width}"))
  else .ok ()

def readRowsWindowedIntoStats (sort : RowSort) (ids : List UInt32) (out : List F32)
    (options : WindowedGatherOptions) (stats : WindowedGatherStats) :
    AnnResult (List F32 × WindowedGatherStats) :=
  if ids = [] then .ok (out, stats)
  else do
    store.checkMatrix ids out
    let (plan, stats) := buildGatherPlan sort ids store.rowBytes options stats
    let out ← readWindows store.readSketchRangeInto plan store.width out
    .ok (out, stats)

/-! ### Bounded reads -/

def planner (maxWindowBytes : Nat) (maxReadAmplification : Float) : BoundedReadPlanner :=
  ⟨store.rowBytes, maxWindowBytes, maxReadAmplification⟩

def boundedPlan (sort : RowSort) (ids : List UInt32) (maxWindowBytes : Nat)
    (maxReadAmplification : Float) : BoundedReadPlan :=
  let planner := store.planner maxWindowBytes maxReadAmplification
  match store.backing with
  | .mmap => planner.plan sort ids
  | .direct cfg _ _ => planner.planWithAlignedReadCost cfg.effectiveAlignment HEADER_BYTES sort ids

/-- One completion. The length of the read is submitted as a `u32`. -/
def ringRead (cfg : DirectIoConfig) (ring : RingReads store.file) (window : ReadWindow) :
    AnnResult (List F32) :=
  let (alignedOffset, alignedLen) :=
    alignedRead HEADER_BYTES store.rowBytes cfg.effectiveAlignment window
  let lead := HEADER_BYTES + window.startRow.toNat * store.rowBytes - alignedOffset
  let logicalLen := window.rowCount.toNat * store.rowBytes
  let got := ring.count alignedOffset (alignedLen % 2 ^ 32)
  if got < lead + logicalLen then .error (.io .unexpectedEof)
  else
    let scratch := store.file.readAt alignedOffset got ++ List.replicate (alignedLen - got) 0
    .ok (f32sOfBytes ((scratch.drop lead).take logicalLen))

/-- A batch is scattered when all its reads have completed. -/
def readRingBatch (cfg : DirectIoConfig) (ring : RingReads store.file) (out : List F32)
    (batch : List (ReadWindow × List ReadScatter)) : AnnResult (List F32) := do
  let reads ← batch.mapM fun part => store.ringRead cfg ring part.1
  (batch.zip reads).foldlM (fun out part =>
    scatterBoundedSketchWindow part.1.2 store.width part.2 out) out

/-- `try_read_bounded_sketch_windows_with_uring`, if there are windows enough. -/
def readBoundedWindowsWithUring (cfg : DirectIoConfig) (ring : RingReads store.file)
    (plan : BoundedReadPlan) (out : List F32) : AnnResult (List F32) :=
  let qd := max (min SKETCH_URING_WINDOW_GATHER_QUEUE_DEPTH plan.windows.length) 1
  (chunks qd plan.parts).foldlM (store.readRingBatch cfg ring) out

def readBoundedPlan (plan : BoundedReadPlan) (out : List F32) : AnnResult (List F32) :=
  match store.backing with
  | .mmap => readBoundedWindows store.readSketchRangeInto plan store.width out
  | .direct cfg _ ring =>
      if plan.windows.length < SKETCH_URING_WINDOW_GATHER_MIN_WINDOWS then
        readBoundedWindows store.readSketchRangeInto plan store.width out
      else store.readBoundedWindowsWithUring cfg ring plan out

def readRowsBoundedIntoStats (sort : RowSort) (ids : List UInt32) (out : List F32)
    (maxWindowBytes : Nat) (maxReadAmplification : Float) (stats : WindowedGatherStats) :
    AnnResult (List F32 × WindowedGatherStats) :=
  if ids = [] then .ok (out, stats)
  else do
    store.checkMatrix ids out
    let plan := store.boundedPlan sort ids maxWindowBytes maxReadAmplification
    let out ← store.readBoundedPlan plan out
    .ok (out, stats.recordBoundedSketchPlanStats plan store.rowBytes)

end DiskSketchStore

/-! ## Behind a resident prefix -/

structure ResidentPrefixSketchAccessor where
  prefixStore : SketchStore
  backing : DiskSketchStore

namespace ResidentPrefixSketchAccessor

def fromDiskPrefix (backing : DiskSketchStore) (prefixRows : Nat) :
    AnnResult ResidentPrefixSketchAccessor :=
  if backing.rows < prefixRows then
    .error (.index ("Resident sketch prefix rows out of bounds: " ++
      s!"prefix_rows={prefixRows} rows={backing.rows}"))
  else do
    let data ← if 0 < prefixRows then backing.readSketchRangeInto 0 prefixRows else .ok []
    .ok ⟨⟨data, backing.width⟩, backing⟩

variable (accessor : ResidentPrefixSketchAccessor)

def prefixRows : Nat := accessor.prefixStore.rows

def rowCopyInto (idx : Nat) (dst : List F32) : AnnResult (List F32) :=
  if idx < accessor.prefixRows then accessor.prefixStore.rowCopyInto idx dst
  else accessor.backing.rowCopyInto idx dst

def checkMatrix (ids : List UInt32) (out : List F32) : AnnResult Unit :=
  if out.length ≠ ids.length * accessor.backing.width then
    .error (.index ("Resident prefix sketch matrix size mismatch: " ++
      s!"got {out.length} expected {ids.length * accessor.backing.width}"))
  else .ok ()

def readRowsInto (ids : List UInt32) (out : List F32) : AnnResult (List F32) := do
  accessor.checkMatrix ids out
  let width := accessor.backing.width
  ids.zipIdx.foldlM (fun out (id, row) => do
    let values ← accessor.rowCopyInto id.toNat ((out.drop (row * width)).take width)
    copySlice values 0 out (row * width) width) out

def scatterSubsetRows (subsetPositions : List Nat) (subsetOut : List F32) (rowWidth : Nat)
    (out : List F32) : AnnResult (List F32) :=
  subsetPositions.zipIdx.foldlM (fun out (outRow, subsetIdx) =>
    copySlice subsetOut (subsetIdx * rowWidth) out (outRow * rowWidth) rowWidth) out

/-- How a store reads many rows into a buffer. -/
abbrev ReadMany :=
  List UInt32 → List F32 → WindowedGatherStats → AnnResult (List F32 × WindowedGatherStats)

/-- Some of the ids, read into a buffer of their own and copied out of it. -/
def readSubset (read : ReadMany) (keep : WindowedGatherStats → WindowedGatherStats) (width : Nat)
    (subset : List (UInt32 × Nat)) (out : List F32) (stats : WindowedGatherStats) :
    AnnResult (List F32 × WindowedGatherStats) :=
  if subset = [] then .ok (out, stats)
  else do
    let (subsetOut, subsetStats) ← read (subset.map Prod.fst)
      (List.replicate (subset.length * width) F32.zero) .default
    let out ← scatterSubsetRows (subset.map Prod.snd) subsetOut width out
    .ok (out, stats.merge (keep subsetStats))

/-- The body of both planned reads. The prefix's length is compared as a `u32`. -/
def readSplit (readPrefix readBacking : ReadMany) (ids : List UInt32) (out : List F32)
    (stats : WindowedGatherStats) : AnnResult (List F32 × WindowedGatherStats) :=
  if ids = [] then .ok (out, stats)
  else do
    accessor.checkMatrix ids out
    let width := accessor.backing.width
    let prefixRows := UInt32.ofNat accessor.prefixRows
    if prefixRows = 0 then readBacking ids out stats
    else do
      let (out, stats) ← readSubset readPrefix
        WindowedGatherStats.keepResidentPrefixLogicalStatsOnly width
        (ids.zipIdx.filter fun id => id.1 < prefixRows) out stats
      readSubset readBacking id width (ids.zipIdx.filter fun id => ¬ id.1 < prefixRows) out stats

def readRowsWindowedIntoStats (sort : RowSort) (ids : List UInt32) (out : List F32)
    (options : WindowedGatherOptions) (stats : WindowedGatherStats) :
    AnnResult (List F32 × WindowedGatherStats) :=
  accessor.readSplit
    (fun ids out => accessor.prefixStore.readRowsWindowedIntoStats sort ids out options)
    (fun ids out => accessor.backing.readRowsWindowedIntoStats sort ids out options)
    ids out stats

def readRowsBoundedIntoStats (sort : RowSort) (ids : List UInt32) (out : List F32)
    (maxWindowBytes : Nat) (maxReadAmplification : Float) (stats : WindowedGatherStats) :
    AnnResult (List F32 × WindowedGatherStats) :=
  accessor.readSplit
    (fun ids out => accessor.prefixStore.readRowsBoundedIntoStats sort ids out maxWindowBytes)
    (fun ids out => accessor.backing.readRowsBoundedIntoStats sort ids out maxWindowBytes
      maxReadAmplification)
    ids out stats

end ResidentPrefixSketchAccessor

end ForgeANN
