-- SUMMARY: Grouping segments by shard, and the serial reducer that streams each shard's reservoirs in point order.
import ForgeANN.HashPrune.Offers
import ForgeANN.Lib.Emission
import ForgeANN.Lib.SortDedup
import ForgeANN.Spill.Record
import Mathlib.Data.Prod.Lex

/-!
# Reducing spilled edges

The segments of a shard are read one after the other into the reservoirs of the
shard's points, which are then emitted in point order. The callback is taken to
succeed; what has been emitted before an error counts.
-/
namespace ForgeANN

open Lib

/-! ## Artifacts -/

/-- What `part_path_for` puts into the name of a part file. -/
structure PartPath where
  shardId : Nat
  partIndex : Nat
deriving DecidableEq, Repr

structure SpillPartFileDesc where
  shardId : Nat
  fileId : UInt16
  path : PartPath
  byteLen : Nat
deriving DecidableEq, Repr

structure SpillSegmentDesc where
  shardId : UInt32
  fileId : UInt16
  byteOffset : Nat
  byteLen : Nat
  recordCount : UInt32
  srcMin : UInt32
  srcMax : UInt32
  sortedBySrc : Bool
deriving DecidableEq, Repr

structure SpillArtifacts where
  partFiles : List SpillPartFileDesc
  segmentManifest : List SpillSegmentDesc
  /-- The part files on disk. -/
  files : PartPath → Option Bytes

structure SpillReduceStats where
  shardGroups : Nat
  segmentsScanned : Nat
  partFilesOpened : Nat
  maxSegmentsInGroup : Nat
deriving DecidableEq, Repr

def SpillReduceStats.default : SpillReduceStats := ⟨0, 0, 0, 0⟩

/-! ## Groups -/

/-- The points of a shard, and its segments. -/
structure SegmentGroup where
  pointStart : Nat
  pointEnd : Nat
  pointStart_lt : pointStart < pointEnd
  segments : List SpillSegmentDesc
deriving DecidableEq

def SpillSegmentDesc.sortKey (segment : SpillSegmentDesc) : Nat ×ₗ Nat ×ₗ Nat :=
  toLex (segment.srcMin.toNat, toLex (segment.fileId.toNat, segment.byteOffset))

/-- `sort_unstable_by_key` on segments. -/
abbrev SegmentSort := UnstableSort fun a b : SpillSegmentDesc => a.sortKey ≤ b.sortKey

theorem shardStart_lt_shardEnd (numPoints pointsPerShard shardId : Nat)
    (h : shardId * max pointsPerShard 1 < numPoints) :
    shardId * max pointsPerShard 1 <
      min (shardId * max pointsPerShard 1 + max pointsPerShard 1) numPoints := by
  omega

def groupOfShard (numPoints pointsPerShard : Nat) (sort : SegmentSort)
    (segments : List SpillSegmentDesc) (shardId : Nat) : AnnResult SegmentGroup :=
  let pointsPerShard := max pointsPerShard 1
  let pointStart := shardId * pointsPerShard
  if h : pointStart < numPoints then
    let pointEnd := min (pointStart + pointsPerShard) numPoints
    match segments.find? fun segment =>
      segment.srcMin.toNat < pointStart || pointEnd ≤ segment.srcMax.toNat with
    | some segment =>
        .error (.index (s!"Spill reducer encountered segment metadata src_range=[{segment.srcMin}, {segment.srcMax}] " ++
          s!"outside shard range [{pointStart}, {pointEnd}) for shard_id={shardId}"))
    | none =>
        .ok ⟨pointStart, pointEnd, shardStart_lt_shardEnd numPoints _ shardId h, sort.sort segments⟩
  else
    .error (.index (s!"Spill reducer encountered shard_id={shardId} outside num_points={numPoints} " ++
      s!"with points_per_shard={pointsPerShard}"))

def groupSegmentsByShard (numPoints pointsPerShard : Nat) (sort : SegmentSort)
    (artifacts : SpillArtifacts) : AnnResult (List SegmentGroup) :=
  let shardIds := sortDedup (artifacts.segmentManifest.map fun segment => segment.shardId.toNat)
  shardIds.mapM fun shardId =>
    groupOfShard numPoints pointsPerShard sort
      (artifacts.segmentManifest.filter fun segment => segment.shardId.toNat = shardId) shardId

/-- The part file of a segment, opened where the segment begins. Of several parts with one shard and
file id the last one counts. -/
def openSegment (artifacts : SpillArtifacts) (segment : SpillSegmentDesc) :
    AnnResult SegmentReader :=
  match artifacts.partFiles.reverse.find? fun part =>
    part.shardId = segment.shardId.toNat && part.fileId = segment.fileId with
  | none =>
      .error (.index
        s!"Missing spill part for shard={segment.shardId} file_id={segment.fileId}")
  | some part =>
      match artifacts.files part.path with
      | none => .error (.io .notFound)
      | some file => .ok (.new file segment.byteOffset segment.byteLen)

/-! ## One group -/

abbrev Callback := UInt32 × List UInt32

abbrev Reduction := Emission Callback AnnError

def allocateReservoirSlab (points lMax : Nat) (h : 0 < lMax) : List HashPruneReservoir :=
  List.replicate points (.new lMax h)

def resizeOrResetReservoirs (reservoirs : List HashPruneReservoir) (points lMax : Nat)
    (h : 0 < lMax) : List HashPruneReservoir :=
  let reservoirs := reservoirs ++ List.replicate (points - reservoirs.length) (.new lMax h)
  (reservoirs.take points).map HashPruneReservoir.clear ++ reservoirs.drop points

def neighborsAt (reservoirs : List HashPruneReservoir) (localIdx : Nat) : List UInt32 :=
  (reservoirs[localIdx]?.map HashPruneReservoir.neighbors).getD []

/-- The callbacks for the points of a shard, which drain its reservoirs. -/
def shardCallbacks (shardStart shardEnd : Nat) (reservoirs : List HashPruneReservoir) :
    List Callback :=
  (List.range (shardEnd - shardStart)).map fun localIdx =>
    (UInt32.ofNat (shardStart + localIdx), neighborsAt reservoirs localIdx)

/-- `emit_empty_point_range`. -/
def emptyCallbacks (start stop : Nat) : List Callback :=
  (List.range (stop - start)).map fun i => (UInt32.ofNat (start + i), [])

/-- The points a group is reduced for, and the parameters of its reduction. -/
structure GroupRange where
  pointStart : Nat
  pointEnd : Nat
  pointsPerChunk : Nat
  pointsPerChunk_pos : 0 < pointsPerChunk
  lMax : Nat
  lMax_pos : 0 < lMax

/-- Where the current chunk starts, and its reservoirs. -/
structure ChunkState where
  chunkStart : Nat
  reservoirs : List HashPruneReservoir

def outOfOrder (p chunkStart : Nat) : AnnError :=
  .index (s!"Spill reducer encountered out-of-order candidate edge p={p} before current chunk " ++
    s!"start={chunkStart}")

namespace GroupRange

variable (r : GroupRange)

def chunkEnd (chunkStart : Nat) : Nat := min (chunkStart + r.pointsPerChunk) r.pointEnd

def firstChunk : ChunkState :=
  ⟨r.pointStart, allocateReservoirSlab (r.chunkEnd r.pointStart - r.pointStart) r.lMax r.lMax_pos⟩

/-- The chunk behind, with its reservoirs cleared. -/
def nextChunk (state : ChunkState) : ChunkState :=
  let chunkStart := r.chunkEnd state.chunkStart
  ⟨chunkStart, resizeOrResetReservoirs state.reservoirs (r.chunkEnd chunkStart - chunkStart)
    r.lMax r.lMax_pos⟩

theorem lt_chunkEnd {chunkStart : Nat} (h : chunkStart < r.pointEnd) :
    chunkStart < r.chunkEnd chunkStart := by
  have hpos := r.pointsPerChunk_pos
  unfold chunkEnd
  omega

def outsideShardRange (p : Nat) : AnnError :=
  .index s!"Spill reducer encountered edge p={p} outside shard range [{r.pointStart}, {r.pointEnd})"

/-- Emit chunks until the one of `p` is reached. -/
def advance (p : Nat) (state : ChunkState) : Reduction ChunkState :=
  if p < r.chunkEnd state.chunkStart then pure state
  else do
    Emission.emit (shardCallbacks state.chunkStart (r.chunkEnd state.chunkStart) state.reservoirs)
    if _h : r.pointEnd ≤ r.chunkEnd state.chunkStart then .fail (r.outsideShardRange p)
    else advance p (r.nextChunk state)
termination_by r.pointEnd - state.chunkStart
decreasing_by
  have hlt : state.chunkStart < r.chunkEnd state.chunkStart :=
    r.lt_chunkEnd (by unfold chunkEnd at _h; omega)
  simp only [nextChunk]
  omega

/-- `reservoirs[local_idx].insert(edge.c, edge.hash, edge.dist)`. -/
def insertEdge (edge : PendingEdge) (state : ChunkState) : ChunkState :=
  { state with
    reservoirs := state.reservoirs.modify (edge.p - state.chunkStart) fun reservoir =>
      reservoir.insert edge.c edge.hash edge.dist }

def reduceEdge (state : ChunkState) (edge : PendingEdge) : Reduction ChunkState := do
  let state ← r.advance edge.p state
  if edge.p < state.chunkStart then
    if edge.p < r.pointStart then pure state
    else .fail (outOfOrder edge.p state.chunkStart)
  else pure (insertEdge edge state)

def reduceSegment (artifacts : SpillArtifacts) (state : ChunkState) (segment : SpillSegmentDesc) :
    Reduction ChunkState := do
  let reader ← Emission.lift (openSegment artifacts segment)
  let state ← reader.edges.1.foldlM r.reduceEdge state
  match reader.edges.2 with
  | none => pure state
  | some err => .fail err

/-- Emit the chunks that are left. -/
def emitRest (state : ChunkState) : Reduction Unit :=
  if _h : state.chunkStart < r.pointEnd then do
    Emission.emit (shardCallbacks state.chunkStart (r.chunkEnd state.chunkStart) state.reservoirs)
    emitRest (r.nextChunk state)
  else pure ()
termination_by r.pointEnd - state.chunkStart
decreasing_by
  have hlt := r.lt_chunkEnd _h
  simp only [nextChunk]
  omega

def reduce (artifacts : SpillArtifacts) (segments : List SpillSegmentDesc) : Reduction Unit := do
  let state ← segments.foldlM (r.reduceSegment artifacts) r.firstChunk
  r.emitRest state

end GroupRange

theorem pointsPerChunk_pos (pointsPerChunk : Nat) : 0 < max pointsPerChunk 1 := by omega

/-- `HashPruneReservoir::new` asserts that `l_max` is positive. -/
def reduceSegmentGroupInRange (pointStart pointEnd lMax pointsPerChunk : Nat)
    (segments : List SpillSegmentDesc) (artifacts : SpillArtifacts) : Reduction Unit :=
  if pointEnd ≤ pointStart then pure ()
  else if h : 0 < lMax then
    GroupRange.reduce ⟨pointStart, pointEnd, max pointsPerChunk 1, pointsPerChunk_pos pointsPerChunk,
      lMax, h⟩ artifacts segments
  else .fail (.panic "l_max must be > 0")

/-! ## All groups -/

def reduceStats (groups : List SegmentGroup) (artifacts : SpillArtifacts) : SpillReduceStats where
  shardGroups := groups.length
  segmentsScanned := artifacts.segmentManifest.length
  partFilesOpened := artifacts.partFiles.length
  maxSegmentsInGroup := (groups.map fun group => group.segments.length).foldl max 0

/-- One group of the loop, from the next point to emit to the one behind the group. -/
def reduceGroupFrom (pointStart lMax pointsPerShard : Nat) (artifacts : SpillArtifacts)
    (nextPoint : Nat) (group : SegmentGroup) : Reduction Nat :=
  if group.pointEnd ≤ pointStart then pure nextPoint
  else do
    let groupStart := max group.pointStart pointStart
    Emission.emit (emptyCallbacks nextPoint groupStart)
    reduceSegmentGroupInRange groupStart group.pointEnd lMax
      (min (max pointsPerShard 1) (max (group.pointEnd - groupStart) 1)) group.segments artifacts
    pure group.pointEnd

def reduceSegmentsShardedInOrderFromWithLimit (numPoints pointStart lMax pointsPerShard : Nat)
    (sort : SegmentSort) (artifacts : SpillArtifacts) : Reduction SpillReduceStats :=
  if numPoints = 0 ∨ numPoints ≤ pointStart then pure .default
  else do
    let groups ← Emission.lift (groupSegmentsByShard numPoints pointsPerShard sort artifacts)
    let nextPoint ← groups.foldlM (reduceGroupFrom pointStart lMax pointsPerShard artifacts) pointStart
    Emission.emit (emptyCallbacks nextPoint numPoints)
    pure (reduceStats groups artifacts)

end ForgeANN
