-- SUMMARY: The parallel reducer: groups reduced to neighbour parts, which are replayed in point order.
import ForgeANN.Spill.Lossless

/-!
# The parallel reducer

Every active group is reduced to a temporary file of neighbour lists; once all
groups are done, the files are replayed. A group's file holds nothing of a
segment behind its first edge past the group's end. The temporary files of
different groups have different names.
-/
namespace ForgeANN

open Lib

/-! ## Neighbour parts -/

/-- A point's entry in a part: `neighbors.len() as u32`, and the neighbours. -/
def neighborBytes (neighbors : List UInt32) : Bytes :=
  toLe 4 (UInt32.ofNat neighbors.length).toNat ++ neighbors.flatMap fun neighbor =>
    toLe 4 neighbor.toNat

/-- `write_neighbor_chunk`, which drains the reservoirs. -/
def neighborChunk (shardStart shardEnd : Nat) (reservoirs : List HashPruneReservoir) : Bytes :=
  (List.range (shardEnd - shardStart)).flatMap fun localIdx =>
    neighborBytes (neighborsAt reservoirs localIdx)

/-- A group's points, and the contents of its temporary file. -/
structure NeighborPart where
  pointStart : Nat
  pointEnd : Nat
  bytes : Bytes
deriving DecidableEq, Repr

/-- Writing a part, byte by byte. -/
abbrev PartWriting := Emission UInt8 AnnError

namespace GroupRange

variable (r : GroupRange)

def advanceWriting (p : Nat) (state : ChunkState) : PartWriting ChunkState :=
  if p < r.chunkEnd state.chunkStart then pure state
  else do
    Emission.emit (neighborChunk state.chunkStart (r.chunkEnd state.chunkStart) state.reservoirs)
    if _h : r.pointEnd ≤ r.chunkEnd state.chunkStart then .fail (r.outsideShardRange p)
    else advanceWriting p (r.nextChunk state)
termination_by r.pointEnd - state.chunkStart
decreasing_by
  have hlt : state.chunkStart < r.chunkEnd state.chunkStart :=
    r.lt_chunkEnd (by unfold chunkEnd at _h; omega)
  simp only [nextChunk]
  omega

def writeEdge (state : ChunkState) (edge : PendingEdge) : PartWriting ChunkState := do
  let state ← r.advanceWriting edge.p state
  if edge.p < state.chunkStart then .fail (outOfOrder edge.p state.chunkStart)
  else pure (insertEdge edge state)

/-- The edges of a segment, and the error its reader ends on. Edges before the range are passed
over; the first one past it ends the segment. -/
def writeEdges (state : ChunkState) : List PendingEdge → Option AnnError → PartWriting ChunkState
  | [], none => pure state
  | [], some err => .fail err
  | edge :: edges, ended =>
      if edge.p < r.pointStart then writeEdges state edges ended
      else if r.pointEnd ≤ edge.p then pure state
      else do
        let state ← r.writeEdge state edge
        writeEdges state edges ended

def writeSegment (artifacts : SpillArtifacts) (state : ChunkState) (segment : SpillSegmentDesc) :
    PartWriting ChunkState := do
  let reader ← Emission.lift (openSegment artifacts segment)
  r.writeEdges state reader.edges.1 reader.edges.2

def writeRest (state : ChunkState) : PartWriting Unit :=
  if _h : state.chunkStart < r.pointEnd then do
    Emission.emit (neighborChunk state.chunkStart (r.chunkEnd state.chunkStart) state.reservoirs)
    writeRest (r.nextChunk state)
  else pure ()
termination_by r.pointEnd - state.chunkStart
decreasing_by
  have hlt := r.lt_chunkEnd _h
  simp only [nextChunk]
  omega

def writePart (artifacts : SpillArtifacts) (segments : List SpillSegmentDesc) :
    PartWriting Unit := do
  let state ← segments.foldlM (r.writeSegment artifacts) r.firstChunk
  r.writeRest state

end GroupRange

def reduceSegmentGroupToNeighborPart (pointStart pointEnd lMax pointsPerChunk : Nat)
    (segments : List SpillSegmentDesc) (artifacts : SpillArtifacts) : AnnResult NeighborPart :=
  if pointEnd ≤ pointStart then
    .error (.index s!"Cannot reduce empty spill group range [{pointStart}, {pointEnd})")
  else if h : 0 < lMax then
    let written := GroupRange.writePart
      ⟨pointStart, pointEnd, max pointsPerChunk 1, pointsPerChunk_pos pointsPerChunk, lMax, h⟩
      artifacts segments
    written.result.map fun _ => ⟨pointStart, pointEnd, written.emitted⟩
  else .error (.panic "l_max must be > 0")

/-! ## Replay -/

/-- The degree and the neighbours of one point. -/
def replayPoint (reader : BufReader) : AnnResult (List UInt32 × BufReader) := do
  let (degreeBytes, reader) ← reader.readExact 4
  reader.readMany 4 (fun bytes => UInt32.ofNat (ofLe bytes)) (ofLe degreeBytes)

/-- The next `points` points from `point` on. -/
def replayPoints (reader : BufReader) (point : Nat) : Nat → Reduction Unit
  | 0 => pure ()
  | points + 1 => do
      let (neighbors, reader) ← Emission.lift (replayPoint reader)
      Emission.emit [(UInt32.ofNat point, neighbors)]
      replayPoints reader (point + 1) points

def replayNeighborPart (part : NeighborPart) : Reduction Unit :=
  replayPoints ⟨part.bytes, 0⟩ part.pointStart (part.pointEnd - part.pointStart)

/-- One part of the replay loop, from the next point to emit to the one behind the part. -/
def replayPartFrom (nextPoint : Nat) (part : NeighborPart) : Reduction Nat := do
  Emission.emit (emptyCallbacks nextPoint part.pointStart)
  replayNeighborPart part
  pure part.pointEnd

/-- `sort_unstable_by_key(|part| part.point_start)`. -/
abbrev PartSort := UnstableSort fun a b : NeighborPart => a.pointStart ≤ b.pointStart

/-- Groups are reduced in parallel; the first error among their results is returned. -/
def reduceSegmentsShardedInOrderFromParallel (numPoints pointStart lMax pointsPerShard : Nat)
    (sort : SegmentSort) (partSort : PartSort) (artifacts : SpillArtifacts)
    (maxParallelGroups : Nat) : Reduction SpillReduceStats :=
  if numPoints = 0 ∨ numPoints ≤ pointStart then pure .default
  else do
    let groups ← Emission.lift (groupSegmentsByShard numPoints pointsPerShard sort artifacts)
    let activeGroups := groups.filter fun group => pointStart < group.pointEnd
    if activeGroups.length ≤ 1 ∨ maxParallelGroups ≤ 1 then
      reduceSegmentsShardedInOrderFromWithLimit numPoints pointStart lMax pointsPerShard sort
        artifacts
    else
      let parts ← Emission.lift (activeGroups.mapM fun group =>
        let groupStart := max group.pointStart pointStart
        reduceSegmentGroupToNeighborPart groupStart group.pointEnd lMax
          (min (max pointsPerShard 1) (max (group.pointEnd - groupStart) 1)) group.segments
          artifacts)
      let nextPoint ← (partSort.sort parts).foldlM replayPartFrom pointStart
      Emission.emit (emptyCallbacks nextPoint numPoints)
      pure (reduceStats groups artifacts)

/-! ## What a part is written from -/

namespace GroupRange

variable (r : GroupRange)

/-- The edges a part is written from: of each segment those before the first one past the range. A
read error counts only if no such edge comes before it. -/
def insideEdges (artifacts : SpillArtifacts) : List SpillSegmentDesc → AnnResult (List PendingEdge)
  | [] => .ok []
  | segment :: segments => do
      let reader ← openSegment artifacts segment
      match reader.edges.1.find? (fun edge => !r.inside edge), reader.edges.2 with
      | none, some err => .error err
      | _, _ => do
          let more ← insideEdges artifacts segments
          .ok (reader.edges.1.takeWhile r.inside ++ more)

variable {r} {edges : List PendingEdge}

theorem OneChunk.writeEdge_filled (h : r.OneChunk) {edge : PendingEdge}
    (hp : r.inside edge = true) (hstart : r.pointStart ≤ edge.p) :
    r.writeEdge (r.filled edges) edge = pure (r.filled (edges ++ [edge])) := by
  have hadvance : r.advanceWriting edge.p (r.filled edges) = pure (r.filled edges) := by
    have hlt : edge.p < r.chunkEnd (r.filled edges).chunkStart := by
      rw [filled, h.chunkEnd_eq]
      exact of_decide_eq_true hp
    rw [advanceWriting, if_pos hlt]
  have hnot : ¬ edge.p < (r.filled edges).chunkStart := Nat.not_lt.mpr hstart
  rw [writeEdge, hadvance, pure_bind, if_neg hnot]
  simp only [filled, insertEdge, slab_concat hstart]

theorem OneChunk.writeEdges_filled (h : r.OneChunk) (before : List PendingEdge)
    (ended : Option AnnError) :
    r.writeEdges (r.filled before) edges ended =
      match edges.find? (fun edge => !r.inside edge), ended with
      | none, some err => .fail err
      | _, _ => pure (r.filled (before ++ edges.takeWhile r.inside)) := by
  induction edges generalizing before with
  | nil => cases ended <;> simp [writeEdges]
  | cons edge edges ih =>
      rw [writeEdges]
      cases hp : r.inside edge with
      | false =>
          have hge : r.pointEnd ≤ edge.p := Nat.not_lt.mp (of_decide_eq_false hp)
          have hstart : ¬ edge.p < r.pointStart := by
            have := h.nonempty
            omega
          rw [if_neg hstart, if_pos hge]
          simp [hp]
      | true =>
          have hlt : ¬ r.pointEnd ≤ edge.p := Nat.not_le.mpr (of_decide_eq_true hp)
          have hfind : (edge :: edges).find? (fun edge => !r.inside edge) =
              edges.find? fun edge => !r.inside edge := List.find?_cons_of_neg (by simp [hp])
          have hfilled : r.filled (before ++ [edge] ++ edges.takeWhile r.inside) =
              r.filled (before ++ (edge :: edges).takeWhile r.inside) := by simp [hp]
          rw [hfind, ← hfilled]
          by_cases hstart : edge.p < r.pointStart
          · have hsame : r.filled before = r.filled (before ++ [edge]) := by
              simp only [filled]
              rw [slab_concat_of_lt hstart]
            rw [if_pos hstart, hsame, ih]
          · rw [if_neg hstart, if_neg hlt, h.writeEdge_filled hp (Nat.not_lt.mp hstart), pure_bind,
              ih]

/-- All segments of a group. -/
theorem OneChunk.foldlM_writeSegment (h : r.OneChunk) (artifacts : SpillArtifacts)
    (segments : List SpillSegmentDesc) (before : List PendingEdge) :
    segments.foldlM (r.writeSegment artifacts) (r.filled before) =
      match r.insideEdges artifacts segments with
      | .error err => .fail err
      | .ok edges => pure (r.filled (before ++ edges)) := by
  induction segments generalizing before with
  | nil => simp [insideEdges]
  | cons segment segments ih =>
      rw [List.foldlM_cons, writeSegment, insideEdges]
      cases hopen : openSegment artifacts segment with
      | error err => rw [Emission.lift_error, error_bind, Emission.fail_bind, Emission.fail_bind]
      | ok reader =>
          rw [Emission.lift_ok, pure_bind, ok_bind, h.writeEdges_filled]
          split
          · rfl
          · rw [pure_bind, ih]
            cases r.insideEdges artifacts segments with
            | error err => rfl
            | ok more => simp [ok_bind]

theorem OneChunk.writeRest_filled (h : r.OneChunk) :
    r.writeRest (r.filled edges) =
      Emission.emit (neighborChunk r.pointStart r.pointEnd (r.slab edges)) := by
  have hfirst : (r.filled edges).chunkStart < r.pointEnd := h.nonempty
  have hlast : ¬ (r.nextChunk (r.filled edges)).chunkStart < r.pointEnd := by
    simp only [nextChunk, filled, h.chunkEnd_eq]
    exact Nat.lt_irrefl _
  rw [writeRest, dif_pos hfirst, writeRest, dif_neg hlast]
  simp only [filled, h.chunkEnd_eq]
  exact congrArg (Emission.mk · _) (List.append_nil _)

theorem neighborChunk_slab : neighborChunk r.pointStart r.pointEnd (r.slab edges) =
    (r.callbacks edges).flatMap fun callback => neighborBytes callback.2 := by
  rw [neighborChunk, callbacks, List.flatMap_map]
  apply List.flatMap_congr
  intro i hi
  have hlt : i < r.pointEnd - r.pointStart := List.mem_range.mp hi
  simp [neighborsAt, slab, hlt]

/-- What a part holds. -/
theorem OneChunk.writePart_eq (h : r.OneChunk) (artifacts : SpillArtifacts)
    (segments : List SpillSegmentDesc) :
    r.writePart artifacts segments =
      match r.insideEdges artifacts segments with
      | .error err => .fail err
      | .ok edges =>
          Emission.emit ((r.callbacks edges).flatMap fun callback => neighborBytes callback.2) := by
  rw [writePart, h.firstChunk_eq, h.foldlM_writeSegment]
  cases r.insideEdges artifacts segments with
  | error err => rfl
  | ok edges => rw [pure_bind, h.writeRest_filled, List.nil_append, neighborChunk_slab]

end GroupRange
end ForgeANN
