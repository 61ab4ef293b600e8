-- SUMMARY: The in-memory spill sink and its reducer.
import ForgeANN.Lib.Greedy
import ForgeANN.Spill.Sink

/-!
# Spilling in memory

The in-memory sink encodes a batch shard by shard and keeps a shard's full
buffer as a segment. Its reducer goes over the segments sorted by shard and
source, one shard after the other.
-/
namespace ForgeANN

open Lib

/-! ## Sink -/

structure InMemorySpillSegment where
  shardId : Nat
  records : List SpillRecord16
  srcMin : UInt32
  srcMax : UInt32
deriving DecidableEq, Repr

def InMemorySpillSegment.shardKey (segment : InMemorySpillSegment) : Nat ×ₗ Nat :=
  toLex (segment.shardId, segment.srcMin.toNat)

def InMemorySpillSegment.srcKey (segment : InMemorySpillSegment) : Nat ×ₗ Nat :=
  toLex (segment.srcMin.toNat, segment.srcMax.toNat)

structure InMemorySpillArtifacts where
  shardPoints : Nat
  segments : List InMemorySpillSegment
deriving DecidableEq, Repr

/-- What the unstable sorts and the iteration over the hash map leave open. -/
structure InMemorySpillChoices where
  sortEdges : UnstableSort fun a b : PendingEdge => a.p ≤ b.p
  sortRecords : UnstableSort fun a b : SpillRecord16 => a.src ≤ b.src
  bufferOrder : List Nat → List Nat
  bufferOrder_perm : ∀ shardIds, (bufferOrder shardIds).Perm shardIds
  sortSegments : UnstableSort fun a b : InMemorySpillSegment => a.shardKey ≤ b.shardKey
  sortGroup : UnstableSort fun a b : InMemorySpillSegment => a.srcKey ≤ b.srcKey

/-- What a sink is created with. `create_sharded` sees to `shardPoints_pos`. -/
structure InMemorySpillConfig where
  shardPoints : Nat
  shardPoints_pos : 0 < shardPoints
  flushThresholdEdges : Nat

structure InMemorySpillState where
  buffersByShard : AList fun _ : Nat => List SpillRecord16
  segments : List InMemorySpillSegment

/-- Add a record to the last group, or to a new one if that is another shard's. -/
def pushRecord (groups : List (Nat × List SpillRecord16)) (shardId : Nat)
    (record : SpillRecord16) : List (Nat × List SpillRecord16) :=
  match groups.getLast? with
  | none => [(shardId, [record])]
  | some (existing, records) =>
      if existing = shardId then groups.dropLast ++ [(existing, records ++ [record])]
      else groups ++ [(shardId, [record])]

def encodeSpillRecordsByShard (choices : InMemorySpillChoices) (shardPoints : Nat)
    (edges : List PendingEdge) : AnnResult (List (Nat × List SpillRecord16)) :=
  (choices.sortEdges.sort edges).foldlM (fun groups edge => do
    let record ← SpillRecord16.fromPendingEdge edge
    .ok (pushRecord groups (edge.p / max shardPoints 1) record)) []

namespace InMemorySpillState

def create : InMemorySpillState := ⟨∅, []⟩

/-- The records waiting in a shard's buffer. -/
def buffer (state : InMemorySpillState) (shardId : Nat) : List SpillRecord16 :=
  (state.buffersByShard.lookup shardId).getD []

def flushMemoryShardBufferToSegment (choices : InMemorySpillChoices) (state : InMemorySpillState)
    (shardId : Nat) : InMemorySpillState :=
  let buffer := state.buffer shardId
  if buffer = [] then state
  else
    let records := choices.sortRecords.sort buffer
    { buffersByShard := state.buffersByShard.insert shardId []
      segments := state.segments ++ [{
        shardId
        records
        srcMin := (records.head?.map SpillRecord16.src).getD 0
        srcMax := (records.getLast?.map SpillRecord16.src).getD 0 }] }

/-- One group of an encoded batch. -/
def pushGroup (cfg : InMemorySpillConfig) (choices : InMemorySpillChoices)
    (state : InMemorySpillState) (group : Nat × List SpillRecord16) : InMemorySpillState :=
  let buffer := state.buffer group.1 ++ group.2
  let state := { state with buffersByShard := state.buffersByShard.insert group.1 buffer }
  if cfg.flushThresholdEdges ≤ buffer.length then
    state.flushMemoryShardBufferToSegment choices group.1
  else state

def flushPendingEdges (cfg : InMemorySpillConfig) (choices : InMemorySpillChoices)
    (state : InMemorySpillState) (edges : List PendingEdge) : AnnResult InMemorySpillState := do
  let groups ← encodeSpillRecordsByShard choices cfg.shardPoints edges
  .ok (groups.foldl (pushGroup cfg choices) state)

def finish (cfg : InMemorySpillConfig) (choices : InMemorySpillChoices)
    (state : InMemorySpillState) : InMemorySpillArtifacts :=
  let state := (choices.bufferOrder state.buffersByShard.keys).foldl
    (flushMemoryShardBufferToSegment choices) state
  ⟨cfg.shardPoints, state.segments⟩

end InMemorySpillState

/-- A new sink fed the batches one after the other, and finished. -/
def inMemorySpillBatches (cfg : InMemorySpillConfig) (choices : InMemorySpillChoices)
    (batches : List (List PendingEdge)) : AnnResult InMemorySpillArtifacts := do
  let state ← batches.foldlM (InMemorySpillState.flushPendingEdges cfg choices)
    InMemorySpillState.create
  .ok (state.finish cfg choices)

/-! ## Reducer -/

def inMemoryOutOfOrder (p chunkStart : Nat) : AnnError :=
  .index (s!"In-memory spill reducer encountered out-of-order candidate edge p={p} before current " ++
    s!"chunk start={chunkStart}")

namespace GroupRange

variable (r : GroupRange)

/-- Emit chunks until the one of `p` is reached. -/
def advanceInMemory (p : Nat) (state : ChunkState) : Reduction ChunkState :=
  if p < r.chunkEnd state.chunkStart then pure state
  else do
    Emission.emit (shardCallbacks state.chunkStart (r.chunkEnd state.chunkStart) state.reservoirs)
    if _h : r.pointEnd ≤ r.chunkEnd state.chunkStart then
      .fail (.index (s!"In-memory spill reducer encountered edge p={p} outside shard range " ++
        s!"[{r.pointStart}, {r.pointEnd})"))
    else advanceInMemory p (r.nextChunk state)
termination_by r.pointEnd - state.chunkStart
decreasing_by
  have hlt : state.chunkStart < r.chunkEnd state.chunkStart :=
    r.lt_chunkEnd (by unfold chunkEnd at _h; omega)
  simp only [nextChunk]
  omega

/-- The records of a segment: those before the range are passed over, the first one past it ends the
segment. -/
def reduceRecords (state : ChunkState) : List SpillRecord16 → Reduction ChunkState
  | [] => pure state
  | record :: records =>
      let edge := record.toPendingEdge
      if edge.p < r.pointStart then reduceRecords state records
      else if r.pointEnd ≤ edge.p then pure state
      else do
        let state ← r.advanceInMemory edge.p state
        if edge.p < state.chunkStart then .fail (inMemoryOutOfOrder edge.p state.chunkStart)
        else reduceRecords (insertEdge edge state) records

def reduceInMemory (segments : List InMemorySpillSegment) : Reduction Unit := do
  let state ← segments.foldlM (fun state segment => r.reduceRecords state segment.records)
    r.firstChunk
  r.emitRest state

end GroupRange

def reduceInMemorySegmentGroupInRange (choices : InMemorySpillChoices)
    (pointStart pointEnd lMax pointsPerShard : Nat) (segments : List InMemorySpillSegment) :
    Reduction Unit :=
  if pointEnd ≤ pointStart then pure ()
  else
    let segments := choices.sortGroup.sort (segments.map fun segment =>
      { segment with records := choices.sortRecords.sort segment.records })
    let pointsPerChunk := min (max pointsPerShard 1) (max (pointEnd - pointStart) 1)
    if h : 0 < lMax then
      GroupRange.reduceInMemory ⟨pointStart, pointEnd, max pointsPerChunk 1, by omega, lMax, h⟩
        segments
    else .fail (.panic "l_max must be > 0")

/-- The segments of one shard. -/
abbrev InMemoryGroup := GreedyRun InMemorySpillSegment Nat

/-- One shard of the loop, from the next point to emit to the one behind the shard. -/
def reduceInMemoryGroupFrom (choices : InMemorySpillChoices)
    (numPoints pointStart lMax shardPoints nextPoint : Nat) (group : InMemoryGroup) :
    Reduction Nat :=
  let shardId := group.first.shardId
  let shardStart := shardId * shardPoints
  if numPoints ≤ shardStart then
    .fail (.index (s!"In-memory spill reducer encountered shard_id={shardId} outside " ++
      s!"num_points={numPoints}"))
  else
    let shardEnd := min (shardStart + shardPoints) numPoints
    if shardEnd ≤ pointStart then pure nextPoint
    else do
      let groupStart := max shardStart pointStart
      Emission.emit (emptyCallbacks nextPoint groupStart)
      match group.items.find? fun segment =>
        segment.srcMin.toNat < shardStart || shardEnd ≤ segment.srcMax.toNat with
      | some segment =>
          .fail (.index (s!"In-memory spill segment src_range=[{segment.srcMin}, {segment.srcMax}] " ++
            s!"outside shard range [{shardStart}, {shardEnd}) for shard_id={shardId}"))
      | none => do
          reduceInMemorySegmentGroupInRange choices groupStart shardEnd lMax shardPoints group.items
          pure shardEnd

/-- The sorted segments, one run a shard. -/
def InMemorySpillArtifacts.groups (artifacts : InMemorySpillArtifacts)
    (choices : InMemorySpillChoices) : List InMemoryGroup :=
  keyRuns InMemorySpillSegment.shardId (choices.sortSegments.sort artifacts.segments)

def InMemorySpillArtifacts.stats (artifacts : InMemorySpillArtifacts) : SpillReduceStats :=
  let shardIds := sortDedup (artifacts.segments.map InMemorySpillSegment.shardId)
  { shardGroups := shardIds.length
    segmentsScanned := artifacts.segments.length
    partFilesOpened := 0
    maxSegmentsInGroup := (shardIds.map fun shardId =>
      (artifacts.segments.filter fun segment => segment.shardId = shardId).length).foldl max 0 }

def reduceInMemorySegmentsShardedInOrderFrom (choices : InMemorySpillChoices)
    (numPoints pointStart lMax : Nat) (artifacts : InMemorySpillArtifacts) :
    Reduction SpillReduceStats :=
  if numPoints = 0 ∨ numPoints ≤ pointStart then pure .default
  else do
    let nextPoint ← (artifacts.groups choices).foldlM
      (reduceInMemoryGroupFrom choices numPoints pointStart lMax artifacts.shardPoints) pointStart
    Emission.emit (emptyCallbacks nextPoint numPoints)
    pure artifacts.stats

end ForgeANN
