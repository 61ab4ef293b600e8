-- SUMMARY: The level scan over the runs of a depth: batches of points in id order, each run's share of them, and its records.
import ForgeANN.Common.Chunks
import ForgeANN.Lib.SortDedup
import ForgeANN.Rbc.AssignRecord
import ForgeANN.Rbc.LeaderAttempts
import Mathlib.Algebra.BigOperators.Group.List.Basic
import Mathlib.Data.Prod.Lex

/-!
# Level scan

The runs of a depth are assigned together. Their points are merged by id, so
that each row is read once for all the runs that hold the point; the rows of a
batch are dealt out to the runs and assigned in chunks, and the records of every
chunk become a segment of one spool, kept in a list per run.
-/
namespace ForgeANN

open Lib

/-- `D1LevelScanRunWork` and `D1LevelScanRunCompute` of a run, as they are before the scan. The
leaders assigned to a point depend on nothing but its row. -/
structure D1LevelScanRun (Row : Type) where
  points : List UInt32
  leaders : Nat
  fanout : Nat
  assign : Row → AnnResult (List Nat)

/-! ## Batches of points -/

structure D1LevelScanOccurrence where
  runIdx : Nat
  localIdx : Nat
deriving DecidableEq, Repr

structure D1LevelScanHeapEntry where
  point : UInt32
  runIdx : Nat
  localIdx : Nat
deriving DecidableEq, Repr

namespace D1LevelScanHeapEntry

def occurrence (entry : D1LevelScanHeapEntry) : D1LevelScanOccurrence :=
  ⟨entry.runIdx, entry.localIdx⟩

/-- The reverse of `cmp`: the heap pops the least point first, then the first run. -/
def before (a b : D1LevelScanHeapEntry) : Prop :=
  a.point < b.point ∨ a.point = b.point ∧
    (a.runIdx < b.runIdx ∨ a.runIdx = b.runIdx ∧ a.localIdx ≤ b.localIdx)

instance : DecidableRel before := fun _ _ => inferInstanceAs (Decidable (_ ∨ _))

end D1LevelScanHeapEntry

/-- The heap, as the entries in the order in which they would be popped. -/
abbrev D1LevelScanHeap := List D1LevelScanHeapEntry

section

variable (runs : List (List UInt32))

def pushNextD1LevelScanHeapEntry (heap : D1LevelScanHeap) (runIdx nextLocalIdx : Nat) :
    D1LevelScanHeap :=
  match runs[runIdx]?.bind (·[nextLocalIdx]?) with
  | some point => heap.orderedInsert D1LevelScanHeapEntry.before ⟨point, runIdx, nextLocalIdx⟩
  | none => heap

/-- The heap a scan starts with: the first point of each run. -/
def startHeap : D1LevelScanHeap :=
  (List.range runs.length).foldl (fun heap runIdx => pushNextD1LevelScanHeapEntry runs heap runIdx 0) []

/-- How many pops are left. -/
def remaining (heap : D1LevelScanHeap) : Nat :=
  (heap.map fun entry => (runs[entry.runIdx]?.getD []).length - entry.localIdx + 1).sum

theorem remaining_orderedInsert (entry : D1LevelScanHeapEntry) (heap : D1LevelScanHeap) :
    remaining runs (heap.orderedInsert D1LevelScanHeapEntry.before entry) =
      (runs[entry.runIdx]?.getD []).length - entry.localIdx + 1 + remaining runs heap := by
  have hperm := (List.perm_orderedInsert D1LevelScanHeapEntry.before entry heap).map
    fun entry => (runs[entry.runIdx]?.getD []).length - entry.localIdx + 1
  rw [remaining, hperm.sum_eq, List.map_cons, List.sum_cons, remaining]

theorem remaining_pushNext_lt (entry : D1LevelScanHeapEntry) (heap : D1LevelScanHeap) :
    remaining runs (pushNextD1LevelScanHeapEntry runs heap entry.runIdx (entry.localIdx + 1)) <
      remaining runs (entry :: heap) := by
  have hcons : remaining runs (entry :: heap) =
      (runs[entry.runIdx]?.getD []).length - entry.localIdx + 1 + remaining runs heap := rfl
  rw [pushNextD1LevelScanHeapEntry]
  split
  · rename_i point hpoint
    obtain ⟨run, hrun, hlocal⟩ := Option.bind_eq_some_iff.mp hpoint
    have hlt := (List.getElem?_eq_some_iff.mp hlocal).1
    have hnext : run.length - (entry.localIdx + 1) < run.length - entry.localIdx := by omega
    rw [remaining_orderedInsert, hcons, hrun, Option.getD_some]
    exact Nat.add_lt_add_right (Nat.add_lt_add_right hnext 1) _
  · omega

/-- The inner loop of `next_d1_level_scan_batch`: the further occurrences of the point. -/
def takeOccurrences (point : UInt32) (heap : D1LevelScanHeap) :
    List D1LevelScanOccurrence × D1LevelScanHeap :=
  match heap with
  | entry :: rest =>
      if entry.point = point then
        let more := takeOccurrences point
          (pushNextD1LevelScanHeapEntry runs rest entry.runIdx (entry.localIdx + 1))
        (entry.occurrence :: more.1, more.2)
      else ([], entry :: rest)
  | [] => ([], [])
termination_by remaining runs heap
decreasing_by exact remaining_pushNext_lt runs entry rest

/-- `D1LevelScanBatchPlan`: `point_ids` and, beside each, its `occurrences_by_point`. -/
abbrev D1LevelScanBatchPlan := List (UInt32 × List D1LevelScanOccurrence)

/-- The outer loop, for at most so many more points. -/
def takePoints : Nat → D1LevelScanHeap → D1LevelScanBatchPlan × D1LevelScanHeap
  | 0, heap => ([], heap)
  | _ + 1, [] => ([], [])
  | maxUniquePoints + 1, first :: rest =>
      let occurrences := takeOccurrences runs first.point
        (pushNextD1LevelScanHeapEntry runs rest first.runIdx (first.localIdx + 1))
      let more := takePoints maxUniquePoints occurrences.2
      ((first.point, first.occurrence :: occurrences.1) :: more.1, more.2)

def nextD1LevelScanBatch (maxUniquePoints : Nat) (heap : D1LevelScanHeap) :
    Option (D1LevelScanBatchPlan × D1LevelScanHeap) :=
  if heap = [] then none else some (takePoints runs (max maxUniquePoints 1) heap)

end

/-! ## Assignment of a batch -/

structure D1LevelScanRunBatchInput where
  pointIds : List UInt32
  sourceOffsets : List Nat
  localIndices : List Nat
deriving DecidableEq, Repr

def D1LevelScanRunBatchInput.push (input : Option D1LevelScanRunBatchInput)
    (pointId : UInt32) (sourceOffset localIdx : Nat) : D1LevelScanRunBatchInput :=
  let input := input.getD ⟨[], [], []⟩
  ⟨input.pointIds ++ [pointId], input.sourceOffsets ++ [sourceOffset],
    input.localIndices ++ [localIdx]⟩

/-- The occurrences of a batch, each with its point and where the point is in the batch. -/
def D1LevelScanBatchPlan.occurrences (plan : D1LevelScanBatchPlan) :
    List (UInt32 × Nat × D1LevelScanOccurrence) :=
  plan.zipIdx.flatMap fun entry => entry.1.2.map fun occurrence =>
    (entry.1.1, entry.2, occurrence)

/-- What each run gets of a batch. -/
def groupD1LevelScanBatch (numRuns : Nat) (plan : D1LevelScanBatchPlan) :
    List (Option D1LevelScanRunBatchInput) :=
  plan.occurrences.foldl
    (fun grouped (pointId, sourceOffset, occurrence) => grouped.modify occurrence.runIdx
      fun input => some (.push input pointId sourceOffset occurrence.localIdx))
    (List.replicate numRuns none)

structure D1LevelScanComputeTask where
  runIdx : Nat
  pointStart : Nat
  pointEnd : Nat
  runPointStart : Nat
deriving DecidableEq, Repr

/-- `l[first..last]`. -/
def subslice {α : Type} (l : List α) (first last : Nat) : List α := (l.drop first).take (last - first)

/-- `(0..len).step_by(size)`, with `(start + size).min(len)` beside each start. -/
def stepBy (size len : Nat) : List (Nat × Nat) :=
  (List.range ((len + size - 1) / size)).map fun k => (k * size, min (k * size + size) len)

def buildD1LevelScanComputeTasks (grouped : List (Option D1LevelScanRunBatchInput))
    (chunkPoints : Nat) : List D1LevelScanComputeTask :=
  grouped.zipIdx.flatMap fun (input, runIdx) =>
    match input with
    | none => []
    | some input =>
        (stepBy (max chunkPoints 1) input.pointIds.length).filterMap fun (pointStart, pointEnd) =>
          input.localIndices[pointStart]?.map fun runPointStart =>
            ⟨runIdx, pointStart, pointEnd, runPointStart⟩

structure D1LevelScanRunBatchOutput where
  runIdx : Nat
  runPointStart : Nat
  assignmentBytes : Bytes
  rawCounts : List Nat
deriving DecidableEq

/-- The outputs are sorted by their run and where they start in it. -/
def D1LevelScanRunBatchOutput.key (output : D1LevelScanRunBatchOutput) : Nat ×ₗ Nat :=
  toLex (output.runIdx, output.runPointStart)

abbrev OutputSort :=
  UnstableSort fun a b : D1LevelScanRunBatchOutput => a.key ≤ b.key

variable {Row : Type}

/-- Rows are gathered by tiles; each is assigned by itself. -/
def assignLoadedPointIndexedAdsamplingLayout (run : D1LevelScanRun Row) (pointIds : List UInt32)
    (sourceData : List Row) (sourceOffsets : List Nat) : AnnResult (List (List Nat)) :=
  if pointIds.length ≠ sourceOffsets.length then
    .error (.index (s!"ADSampling indexed chunk size mismatch: point_ids={pointIds.length} " ++
      s!"source_offsets={sourceOffsets.length}"))
  else
    sourceOffsets.mapM fun sourceOffset =>
      match sourceData[sourceOffset]? with
      | some row => run.assign row
      | none => .error (.index (s!"ADSampling indexed source offset {sourceOffset} exceeds " ++
          s!"source rows {sourceData.length}"))

/-- One record: the leaders are counted and written out. -/
def addRecord (run : D1LevelScanRun Row) (acc : Bytes × List Nat) (leadersForPoint : List Nat) :
    AnnResult (Bytes × List Nat) := do
  if leadersForPoint.all (· < run.leaders) ∧ leadersForPoint.length ≤ 32 then
    let assignmentBytes ← appendAssignRecordBytes acc.1 (leadersForPoint.map UInt16.ofNat) run.fanout
    .ok (assignmentBytes, countLids acc.2 leadersForPoint)
  else .error (.panic "index out of bounds")

def buildD1LevelScanOutput (run : D1LevelScanRun Row) (runIdx runPointStart : Nat)
    (leadersByPoint : List (List Nat)) : AnnResult D1LevelScanRunBatchOutput := do
  let (assignmentBytes, rawCounts) ←
    leadersByPoint.foldlM (addRecord run) ([], List.replicate run.leaders 0)
  .ok { runIdx, runPointStart, assignmentBytes, rawCounts }

/-- What a scan works with. `chunkPoints` is `d1_ads_compute_chunk_points` of the points of a
batch, with the workers there are. -/
structure LevelScan (Row : Type) where
  runs : List (D1LevelScanRun Row)
  row : UInt32 → Row
  /-- The store reads a batch of points, if it can. -/
  readPoints : List UInt32 → AnnResult (List Row)
  reads : ∀ ids rows, readPoints ids = .ok rows → rows = ids.map row
  batchPoints : Nat
  chunkPoints : Nat → Nat
  sortOutputs : OutputSort

namespace LevelScan

variable (scan : LevelScan Row)

def points : List (List UInt32) := scan.runs.map D1LevelScanRun.points

/-- A task of a batch: a chunk of a run's share. -/
def computeTask (grouped : List (Option D1LevelScanRunBatchInput)) (data : List Row)
    (task : D1LevelScanComputeTask) : AnnResult D1LevelScanRunBatchOutput :=
  match scan.runs[task.runIdx]?, grouped[task.runIdx]? with
  | some run, some (some input) => do
      let leadersByPoint ← assignLoadedPointIndexedAdsamplingLayout run
        (subslice input.pointIds task.pointStart task.pointEnd) data
        (subslice input.sourceOffsets task.pointStart task.pointEnd)
      buildD1LevelScanOutput run task.runIdx task.runPointStart leadersByPoint
  | _, _ => .error (.panic "D1 ADS compute task must reference an existing run input")

def inputPoints (grouped : List (Option D1LevelScanRunBatchInput)) : Nat :=
  (grouped.map fun input => (input.getD ⟨[], [], []⟩).pointIds.length).sum

def computeD1LevelScanLoadedBatch (plan : D1LevelScanBatchPlan) (data : List Row) :
    AnnResult (List D1LevelScanRunBatchOutput) := do
  let grouped := groupD1LevelScanBatch scan.runs.length plan
  let tasks := buildD1LevelScanComputeTasks grouped (scan.chunkPoints (inputPoints grouped))
  let outputs ← tasks.mapM (scan.computeTask grouped data)
  .ok (scan.sortOutputs.sort outputs)

/-- A batch read and computed. -/
def processPlan (plan : D1LevelScanBatchPlan) : AnnResult (List D1LevelScanRunBatchOutput) := do
  let data ← scan.readPoints (plan.map Prod.fst)
  scan.computeD1LevelScanLoadedBatch plan data

end LevelScan

/-! ## The spool -/

structure D1LevelScanAssignmentSpool where
  spool : Bytes
  writeOffset : Nat

def D1LevelScanAssignmentSpool.append (spool : D1LevelScanAssignmentSpool) (bytes : Bytes) :
    Option AssignmentSpoolSegment × D1LevelScanAssignmentSpool :=
  if bytes = [] then (none, spool)
  else (some ⟨spool.writeOffset, bytes.length⟩,
    ⟨spool.spool ++ bytes, spool.writeOffset + bytes.length⟩)

/-- What the scan leaves of a run. -/
structure D1LevelScanRunWork where
  rawCounts : List Nat
  assignmentSegments : List AssignmentSpoolSegment

/-- The spool and, for each run, its counts and its segments. -/
structure D1LevelScanResult where
  assignmentSpool : D1LevelScanAssignmentSpool
  workRuns : List D1LevelScanRunWork

namespace D1LevelScanResult

def applyOutput (result : D1LevelScanResult) (output : D1LevelScanRunBatchOutput) :
    D1LevelScanResult :=
  let (segment, assignmentSpool) := result.assignmentSpool.append output.assignmentBytes
  { assignmentSpool
    workRuns := result.workRuns.modify output.runIdx fun work =>
      { rawCounts := work.rawCounts.zipWith (· + ·) output.rawCounts
        assignmentSegments := work.assignmentSegments ++ segment.toList } }

def applyD1LevelScanComputedBatch (result : D1LevelScanResult)
    (outputs : List D1LevelScanRunBatchOutput) : D1LevelScanResult :=
  outputs.foldl applyOutput result

end D1LevelScanResult

namespace LevelScan

variable (scan : LevelScan Row)

def start : D1LevelScanResult where
  assignmentSpool := ⟨[], 0⟩
  workRuns := scan.runs.map fun run => ⟨List.replicate run.leaders 0, []⟩

/-- The batches one after the other, each read, computed and applied before the next. -/
def sequentialScan (plans : List D1LevelScanBatchPlan) : AnnResult D1LevelScanResult :=
  plans.foldlM (fun result plan => do
    let outputs ← scan.processPlan plan
    .ok (result.applyD1LevelScanComputedBatch outputs)) scan.start

end LevelScan

/-! ## The resident buffer -/

def d1PointIdsAreNondecreasing (ids : List UInt32) : Bool :=
  (ids.zip ids.tail).all fun (a, b) => a ≤ b

def d1ResidentIdsAreStrictlyIncreasing (ids : List UInt32) : Bool :=
  (ids.zip ids.tail).all fun (a, b) => a < b

def notResident (pid : UInt32) : AnnError :=
  .index s!"D1 resident ADS point id {pid} is not present in resident buffer"

/-- For ids that do not decrease: the cursor never goes back. -/
def cursorOffsets (residentIds : List UInt32) : Nat → List UInt32 → AnnResult (List Nat)
  | _, [] => .ok []
  | cursor, pid :: pointIds => do
      let cursor := cursor + ((residentIds.drop cursor).takeWhile (· < pid)).length
      if residentIds[cursor]? = some pid then
        let offsets ← cursorOffsets residentIds cursor pointIds
        .ok (cursor :: offsets)
      else .error (notResident pid)

/-- The resident ids are strictly increasing, so a binary search finds an id wherever it is. -/
def searchOffsets (residentIds : List UInt32) (pointIds : List UInt32) : AnnResult (List Nat) :=
  pointIds.mapM fun pid =>
    match residentIds.findIdx? (· = pid) with
    | some offset => .ok offset
    | none => .error (notResident pid)

def d1ResidentSourceOffsets (residentIds pointIds : List UInt32) : AnnResult (List Nat) :=
  if d1PointIdsAreNondecreasing pointIds then cursorOffsets residentIds 0 pointIds
  else searchOffsets residentIds pointIds

def buildD1ResidentLevelScanComputeTasks (runs : List (List UInt32)) (chunkPoints : Nat) :
    List D1LevelScanComputeTask :=
  runs.zipIdx.flatMap fun (points, runIdx) =>
    (stepBy (max chunkPoints 1) points.length).map fun (pointStart, pointEnd) =>
      ⟨runIdx, pointStart, pointEnd, pointStart⟩

namespace LevelScan

/-- The rows a store holds in memory, beside their ids. -/
structure ResidentRows (scan : LevelScan Row) where
  ids : List UInt32
  data : List Row
  data_eq : data = ids.map scan.row

variable (scan : LevelScan Row)

def residentTask (resident : scan.ResidentRows) (task : D1LevelScanComputeTask) :
    AnnResult D1LevelScanRunBatchOutput :=
  match scan.runs[task.runIdx]? with
  | some run => do
      let pointIds := subslice run.points task.pointStart task.pointEnd
      let sourceOffsets ← d1ResidentSourceOffsets resident.ids pointIds
      let leadersByPoint ← assignLoadedPointIndexedAdsamplingLayout run pointIds resident.data
        sourceOffsets
      buildD1LevelScanOutput run task.runIdx task.runPointStart leadersByPoint
  | none => .error (.panic "index out of bounds")

def runD1ResidentAdsBufferPipeline (resident : scan.ResidentRows) : AnnResult D1LevelScanResult :=
  if !d1ResidentIdsAreStrictlyIncreasing resident.ids then
    .error (.index "D1 resident ADS buffer requires sorted unique resident ids")
  else do
    let totalPoints := (scan.points.map List.length).sum
    let tasks := buildD1ResidentLevelScanComputeTasks scan.points (scan.chunkPoints totalPoints)
    let outputs ← tasks.mapM (scan.residentTask resident)
    .ok (scan.start.applyD1LevelScanComputedBatch (scan.sortOutputs.sort outputs))

end LevelScan

end ForgeANN
