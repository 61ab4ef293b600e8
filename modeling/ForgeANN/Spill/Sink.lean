-- SUMMARY: The spill sink: per-shard buffers, part files with rollover, and the segment manifest.
import ForgeANN.Spill.Reduce
import Mathlib.Data.List.AList

/-!
# The spill sink

Edges wait in a buffer of their shard. A full buffer is sorted and appended to
the shard's open part file as one segment; a part that would grow too large is
closed first. `finish` flushes what is left and closes every part.
-/
namespace ForgeANN

open Lib

/-! ## State -/

/-- What the sink's unstable sort and the iteration over its hash maps leave open. -/
structure SpillChoices where
  sortEdges : UnstableSort fun a b : PendingEdge => a.p ≤ b.p
  bufferOrder : List Nat → List Nat
  bufferOrder_perm : ∀ shardIds, (bufferOrder shardIds).Perm shardIds
  writerOrder : List Nat → List Nat
  writerOrder_perm : ∀ shardIds, (writerOrder shardIds).Perm shardIds

structure SpillPartWriter where
  desc : SpillPartFileDesc
  writer : CandidateRunWriter
deriving DecidableEq, Repr

/-- What a sink is created with. `create_sharded_with_config` sees to `shardPoints_pos`. -/
structure SpillConfig where
  shardPoints : Nat
  shardPoints_pos : 0 < shardPoints
  ioCfg : DirectIoConfig
  flushThresholdEdges : Nat
  partMaxBytes : Nat

structure SpillState where
  buffersByShard : AList fun _ : Nat => List PendingEdge
  partWritersByShard : AList fun _ : Nat => SpillPartWriter
  nextPartIdByShard : AList fun _ : Nat => UInt16
  partFiles : List SpillPartFileDesc
  segmentManifest : List SpillSegmentDesc
  /-- The part files on disk. -/
  files : PartPath → Option Bytes

/-- `saturating_add(1)`. -/
def saturatingAddOne (id : UInt16) : UInt16 := if id = 65535 then id else id + 1

namespace SpillState

def create : SpillState := ⟨∅, ∅, ∅, [], [], fun _ => none⟩

/-- The edges waiting in a shard's buffer. -/
def buffer (state : SpillState) (shardId : Nat) : List PendingEdge :=
  (state.buffersByShard.lookup shardId).getD []

def nextPartId (state : SpillState) (shardId : Nat) : UInt16 :=
  (state.nextPartIdByShard.lookup shardId).getD 0

def finalizePartWriter (state : SpillState) (part : SpillPartWriter) : SpillState :=
  { state with
    partFiles := state.partFiles ++ [part.desc]
    files := Function.update state.files part.desc.path (some part.writer.finish) }

/-- Take the shard's part out of the open ones and close it, if there is one. -/
def closePart (state : SpillState) (shardId : Nat) : SpillState :=
  match state.partWritersByShard.lookup shardId with
  | none => state
  | some part =>
      { state with
        partWritersByShard := state.partWritersByShard.erase shardId }.finalizePartWriter part

/-- Open a new part file for the shard. -/
def openPart (cfg : SpillConfig) (state : SpillState) (shardId : Nat) : SpillState :=
  let fileId := state.nextPartId shardId
  let path : PartPath := ⟨shardId, fileId.toNat⟩
  { state with
    nextPartIdByShard :=
      state.nextPartIdByShard.insert shardId (saturatingAddOne fileId)
    files := Function.update state.files path (some [])
    partWritersByShard := state.partWritersByShard.insert shardId
      ⟨⟨shardId, fileId, path, 0⟩, .createWithConfig cfg.ioCfg⟩ }

def ensurePartWriter (cfg : SpillConfig) (state : SpillState) (shardId pendingBytes : Nat) :
    SpillState :=
  let needRollover : Bool :=
    match state.partWritersByShard.lookup shardId with
    | some part => cfg.partMaxBytes < part.desc.byteLen + pendingBytes
    | none => true
  if needRollover then (state.closePart shardId).openPart cfg shardId else state

/-- Append the staged edges to the shard's part as one segment. -/
def writeSegment (state : SpillState) (shardId : Nat) (part : SpillPartWriter)
    (staged : List PendingEdge) : AnnResult SpillState := do
  let byteLen := staged.length * RUN_RECORD_BYTES
  let writer ← part.writer.pushAll staged
  .ok { state with
    partWritersByShard := state.partWritersByShard.insert shardId
      ⟨{ part.desc with byteLen := part.desc.byteLen + byteLen }, writer⟩
    segmentManifest := state.segmentManifest ++ [{
      shardId := UInt32.ofNat shardId
      fileId := part.desc.fileId
      byteOffset := part.desc.byteLen
      byteLen
      recordCount := UInt32.ofNat staged.length
      srcMin := (staged.head?.map fun edge => UInt32.ofNat edge.p).getD 0
      srcMax := (staged.getLast?.map fun edge => UInt32.ofNat edge.p).getD 0
      sortedBySrc := true }] }

def flushShardBufferToPart (cfg : SpillConfig) (choices : SpillChoices) (state : SpillState)
    (shardId : Nat) : AnnResult SpillState :=
  let buffer := state.buffer shardId
  if buffer = [] then .ok state
  else
    let staged := choices.sortEdges.sort buffer
    let state := { state with buffersByShard := state.buffersByShard.insert shardId [] }
    let state := state.ensurePartWriter cfg shardId (staged.length * RUN_RECORD_BYTES)
    match state.partWritersByShard.lookup shardId with
    | none => .error (.panic "called Option::unwrap() on a None value")
    | some part => state.writeSegment shardId part staged

/-! ## Feeding and finishing -/

def pushEdge (cfg : SpillConfig) (choices : SpillChoices) (state : SpillState)
    (edge : PendingEdge) : AnnResult SpillState :=
  let shardId := edge.p / cfg.shardPoints
  let buffer := state.buffer shardId ++ [edge]
  let state := { state with buffersByShard := state.buffersByShard.insert shardId buffer }
  if cfg.flushThresholdEdges ≤ buffer.length then state.flushShardBufferToPart cfg choices shardId
  else .ok state

def flushPendingEdges (cfg : SpillConfig) (choices : SpillChoices) (state : SpillState)
    (edges : List PendingEdge) : AnnResult SpillState :=
  (choices.sortEdges.sort edges).foldlM (pushEdge cfg choices) state

def flushAllBuffersToParts (cfg : SpillConfig) (choices : SpillChoices) (state : SpillState) :
    AnnResult SpillState :=
  (choices.bufferOrder state.buffersByShard.keys).foldlM (flushShardBufferToPart cfg choices) state

def finishPartWriters (choices : SpillChoices) (state : SpillState) : SpillState :=
  (choices.writerOrder state.partWritersByShard.keys).foldl closePart state

def finish (cfg : SpillConfig) (choices : SpillChoices) (state : SpillState) :
    AnnResult SpillArtifacts := do
  let state ← state.flushAllBuffersToParts cfg choices
  let state := state.finishPartWriters choices
  .ok ⟨state.partFiles, state.segmentManifest, state.files⟩

end SpillState

/-- A new sink fed the batches one after the other, and finished. -/
def spillBatches (cfg : SpillConfig) (choices : SpillChoices) (batches : List (List PendingEdge)) :
    AnnResult SpillArtifacts := do
  let state ← batches.foldlM (SpillState.flushPendingEdges cfg choices) SpillState.create
  state.finish cfg choices

end ForgeANN
