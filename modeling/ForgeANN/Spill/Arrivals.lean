-- SUMMARY: What the serial reducer emits for a group, in terms of the edges its segments hold.
import ForgeANN.Spill.Reduce

/-!
# Arrivals

A group is reduced as one chunk, so every point's reservoir is fed the edges of
that point in the order in which they are read. An unreadable segment ends the
group with nothing emitted, an edge past the group's end with what has arrived.
-/
namespace ForgeANN

open Lib

/-! ## Reservoirs and the edges fed to them -/

/-- What a reservoir is told of an edge. -/
def PendingEdge.offer (edge : PendingEdge) : Offer := ⟨edge.c, edge.hash, edge.dist⟩

/-- The edges of a point, in the order in which they arrive. -/
def arrivals (edges : List PendingEdge) (point : Nat) : List PendingEdge :=
  edges.filter fun edge => edge.p = point

/-- A point's reservoir once all edges have arrived. -/
def reservoirOf (lMax : Nat) (h : 0 < lMax) (edges : List PendingEdge) (point : Nat) :
    HashPruneReservoir :=
  (HashPruneReservoir.new lMax h).insertAll ((arrivals edges point).map PendingEdge.offer)

/-- What a segment's edges are read from, up to the first error. -/
def readSegments (artifacts : SpillArtifacts) :
    List SpillSegmentDesc → List PendingEdge × Option AnnError
  | [] => ([], none)
  | segment :: segments =>
      match openSegment artifacts segment with
      | .error err => ([], some err)
      | .ok reader =>
          match reader.edges.2 with
          | some err => (reader.edges.1, some err)
          | none =>
              let more := readSegments artifacts segments
              (reader.edges.1 ++ more.1, more.2)

section

variable {lMax : Nat} {h : 0 < lMax} {edges : List PendingEdge} {edge : PendingEdge} {point : Nat}

theorem reservoirOf_concat (hp : edge.p = point) :
    reservoirOf lMax h (edges ++ [edge]) point =
      (reservoirOf lMax h edges point).insert edge.c edge.hash edge.dist := by
  have harrive : arrivals (edges ++ [edge]) point = arrivals edges point ++ [edge] := by
    simp [arrivals, hp]
  rw [reservoirOf, harrive, List.map_append, List.map_singleton,
    HashPruneReservoir.insertAll_concat]
  rfl

theorem reservoirOf_concat_of_ne (hp : edge.p ≠ point) :
    reservoirOf lMax h (edges ++ [edge]) point = reservoirOf lMax h edges point := by
  have harrive : arrivals (edges ++ [edge]) point = arrivals edges point := by
    simp [arrivals, hp]
  rw [reservoirOf, harrive]
  rfl

end

/-! ## One group -/

namespace GroupRange

variable (r : GroupRange)

/-- The group is reduced as one chunk. -/
structure OneChunk : Prop where
  nonempty : r.pointStart < r.pointEnd
  fits : r.pointEnd ≤ r.pointStart + r.pointsPerChunk

/-- The group's reservoirs once the edges have arrived. -/
def slab (edges : List PendingEdge) : List HashPruneReservoir :=
  (List.range (r.pointEnd - r.pointStart)).map fun i =>
    reservoirOf r.lMax r.lMax_pos edges (r.pointStart + i)

def filled (edges : List PendingEdge) : ChunkState := ⟨r.pointStart, r.slab edges⟩

/-- The group's callbacks once the edges have arrived. -/
def callbacks (edges : List PendingEdge) : List Callback :=
  (List.range (r.pointEnd - r.pointStart)).map fun i =>
    (UInt32.ofNat (r.pointStart + i),
      (reservoirOf r.lMax r.lMax_pos edges (r.pointStart + i)).neighbors)

/-- The edge lies before the group's end. -/
def inside (edge : PendingEdge) : Bool := edge.p < r.pointEnd

variable {r} {edges : List PendingEdge} {edge : PendingEdge}

theorem OneChunk.chunkEnd_eq (h : r.OneChunk) : r.chunkEnd r.pointStart = r.pointEnd :=
  Nat.min_eq_right h.fits

theorem shardCallbacks_slab : shardCallbacks r.pointStart r.pointEnd (r.slab edges) =
    r.callbacks edges := by
  apply List.map_congr_left
  intro i hi
  have hlt : i < r.pointEnd - r.pointStart := List.mem_range.mp hi
  simp [neighborsAt, slab, hlt]

theorem OneChunk.firstChunk_eq (h : r.OneChunk) : r.firstChunk = r.filled [] := by
  rw [firstChunk, filled, h.chunkEnd_eq]
  congr 1
  apply List.ext_getElem
  · simp [allocateReservoirSlab, slab]
  · intro i hi _
    simp [allocateReservoirSlab, slab, reservoirOf, arrivals]

theorem slab_concat_of_lt (hp : edge.p < r.pointStart) : r.slab (edges ++ [edge]) = r.slab edges := by
  apply List.map_congr_left
  intro i _
  exact reservoirOf_concat_of_ne (by omega)

theorem slab_concat (hp : r.pointStart ≤ edge.p) :
    r.slab (edges ++ [edge]) = (r.slab edges).modify (edge.p - r.pointStart) fun reservoir =>
      reservoir.insert edge.c edge.hash edge.dist := by
  apply List.ext_getElem
  · simp [slab]
  · intro i hi _
    rw [List.getElem_modify]
    simp only [slab, List.getElem_map, List.getElem_range]
    split_ifs with heq
    · exact reservoirOf_concat (by omega)
    · exact reservoirOf_concat_of_ne (by omega)

theorem OneChunk.reduceEdge_filled (h : r.OneChunk) (hp : r.inside edge = true) :
    r.reduceEdge (r.filled edges) edge = pure (r.filled (edges ++ [edge])) := by
  have hadvance : r.advance edge.p (r.filled edges) = pure (r.filled edges) := by
    have hlt : edge.p < r.chunkEnd (r.filled edges).chunkStart := by
      rw [filled, h.chunkEnd_eq]
      exact of_decide_eq_true hp
    rw [advance, if_pos hlt]
  rw [reduceEdge, hadvance, pure_bind]
  simp only [filled, insertEdge]
  split_ifs with hbefore
  · rw [slab_concat_of_lt hbefore]
  · rw [slab_concat (Nat.not_lt.mp hbefore)]

/-- An edge past the group's end: what has arrived is emitted, and then the reducer fails. -/
theorem OneChunk.reduceEdge_outside (h : r.OneChunk) (hp : r.inside edge = false) :
    r.reduceEdge (r.filled edges) edge =
      ⟨r.callbacks edges, .error (r.outsideShardRange edge.p)⟩ := by
  have hge : ¬ edge.p < r.chunkEnd (r.filled edges).chunkStart := by
    rw [filled, h.chunkEnd_eq]
    exact of_decide_eq_false hp
  have hend : r.pointEnd ≤ r.chunkEnd (r.filled edges).chunkStart := by
    rw [filled, h.chunkEnd_eq]
  have hadvance : r.advance edge.p (r.filled edges) =
      ⟨r.callbacks edges, .error (r.outsideShardRange edge.p)⟩ := by
    rw [advance, if_neg hge, Emission.emit_bind, dif_pos hend]
    simp only [filled, h.chunkEnd_eq, shardCallbacks_slab]
    exact congrArg (Emission.mk · _) (List.append_nil _)
  rw [reduceEdge, hadvance]
  rfl

theorem OneChunk.emitRest_filled (h : r.OneChunk) :
    r.emitRest (r.filled edges) = Emission.emit (r.callbacks edges) := by
  have hfirst : (r.filled edges).chunkStart < r.pointEnd := h.nonempty
  have hlast : ¬ (r.nextChunk (r.filled edges)).chunkStart < r.pointEnd := by
    simp only [nextChunk, filled, h.chunkEnd_eq]
    exact Nat.lt_irrefl _
  rw [emitRest, dif_pos hfirst, emitRest, dif_neg hlast]
  simp only [filled, h.chunkEnd_eq, shardCallbacks_slab]
  exact congrArg (Emission.mk · _) (List.append_nil _)

/-- The edges of one segment. -/
theorem OneChunk.foldlM_reduceEdge (h : r.OneChunk) (before : List PendingEdge) :
    edges.foldlM r.reduceEdge (r.filled before) =
      match edges.find? fun edge => !r.inside edge with
      | some stray =>
          ⟨r.callbacks (before ++ edges.takeWhile r.inside), .error (r.outsideShardRange stray.p)⟩
      | none => pure (r.filled (before ++ edges)) := by
  induction edges generalizing before with
  | nil => simp
  | cons edge edges ih =>
      rw [List.foldlM_cons]
      cases hp : r.inside edge with
      | true =>
          rw [h.reduceEdge_filled hp, pure_bind, ih]
          simp [hp]
      | false =>
          rw [h.reduceEdge_outside hp]
          simp [hp]
          rfl

private theorem takeWhile_append_of_find? {p : PendingEdge → Bool} {l m : List PendingEdge}
    {stray : PendingEdge} (h : (l.find? fun edge => !p edge) = some stray) :
    (l ++ m).takeWhile p = l.takeWhile p := by
  induction l with
  | nil => cases h
  | cons edge l ih =>
      cases hp : p edge with
      | true =>
          rw [List.find?_cons_of_neg (by simp [hp])] at h
          simp [hp, ih h]
      | false => simp [hp]

/-- All segments of a group. -/
theorem OneChunk.foldlM_reduceSegment (h : r.OneChunk) (artifacts : SpillArtifacts)
    (segments : List SpillSegmentDesc) (before : List PendingEdge) :
    segments.foldlM (r.reduceSegment artifacts) (r.filled before) =
      match (readSegments artifacts segments).1.find? fun edge => !r.inside edge with
      | some stray =>
          ⟨r.callbacks (before ++ (readSegments artifacts segments).1.takeWhile r.inside),
            .error (r.outsideShardRange stray.p)⟩
      | none =>
          match (readSegments artifacts segments).2 with
          | some err => .fail err
          | none => pure (r.filled (before ++ (readSegments artifacts segments).1)) := by
  induction segments generalizing before with
  | nil => simp [readSegments]
  | cons segment segments ih =>
      rw [List.foldlM_cons, reduceSegment, readSegments]
      cases hopen : openSegment artifacts segment with
      | error err => simp
      | ok reader =>
          simp only [Emission.lift_ok, pure_bind]
          rw [h.foldlM_reduceEdge]
          cases hfind : reader.edges.1.find? fun edge => !r.inside edge with
          | some stray =>
              cases hended : reader.edges.2 with
              | some err => simp only [hfind]; rfl
              | none =>
                  simp only [List.find?_append, hfind, Option.some_or,
                    takeWhile_append_of_find? hfind]
                  rfl
          | none =>
              cases hended : reader.edges.2 with
              | some err => simp only [hfind, pure_bind, Emission.fail_bind]
              | none =>
                  have hall : ∀ edge ∈ reader.edges.1, r.inside edge = true := by
                    simpa using hfind
                  simp only [pure_bind, ih, List.find?_append, hfind, Option.none_or,
                    List.takeWhile_append_of_pos hall, List.append_assoc]

/-- What the serial reducer does with a group. -/
theorem OneChunk.reduce_eq (h : r.OneChunk) (artifacts : SpillArtifacts)
    (segments : List SpillSegmentDesc) :
    r.reduce artifacts segments =
      match (readSegments artifacts segments).1.find? fun edge => !r.inside edge with
      | some stray =>
          ⟨r.callbacks ((readSegments artifacts segments).1.takeWhile r.inside),
            .error (r.outsideShardRange stray.p)⟩
      | none =>
          match (readSegments artifacts segments).2 with
          | some err => .fail err
          | none => Emission.emit (r.callbacks (readSegments artifacts segments).1) := by
  rw [reduce, h.firstChunk_eq, h.foldlM_reduceSegment]
  simp only [List.nil_append]
  cases (readSegments artifacts segments).1.find? fun edge => !r.inside edge with
  | some stray => rfl
  | none =>
      cases (readSegments artifacts segments).2 with
      | some err => rfl
      | none => rw [pure_bind, h.emitRest_filled]

end GroupRange
end ForgeANN
