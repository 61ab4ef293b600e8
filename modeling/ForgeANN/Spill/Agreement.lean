-- SUMMARY: When the parallel reducer and the serial one agree.
import ForgeANN.Spill.Parallel

/-!
# Agreement of the reducers

Both reducers walk over the active groups in point order. The serial one stops in
the first group with an edge past its end, after that group's callbacks; the
parallel one passes over the edge and goes on.
-/
namespace ForgeANN

open Lib

/-! ## Walking over groups -/

/-- Empty callbacks up to each group, then the group, and empty callbacks behind the last. -/
def walk (numPoints : Nat) (start : SegmentGroup → Nat)
    (reduceGroup : SegmentGroup → Reduction Unit) : Nat → List SegmentGroup → Reduction Unit
  | next, [] => Emission.emit (emptyCallbacks next numPoints)
  | next, group :: groups => do
      Emission.emit (emptyCallbacks next (start group))
      reduceGroup group
      walk numPoints start reduceGroup group.pointEnd groups

/-- The groups follow each other, none of them empty. -/
def Chained (start : SegmentGroup → Nat) : Nat → List SegmentGroup → Prop
  | _, [] => True
  | next, group :: groups =>
      next ≤ start group ∧ start group < group.pointEnd ∧ Chained start group.pointEnd groups

@[simp] theorem emptyCallbacks_length (start stop : Nat) :
    (emptyCallbacks start stop).length = stop - start := by
  simp [emptyCallbacks]

section

variable {numPoints next : Nat} {start : SegmentGroup → Nat} {group other : SegmentGroup}
  {groups : List SegmentGroup} {f g : SegmentGroup → Reduction Unit}

theorem walk_cons_of_ok (h : (f group).result = .ok ()) :
    walk numPoints start f next (group :: groups) =
      ⟨emptyCallbacks next (start group) ++ ((f group).emitted ++
          (walk numPoints start f group.pointEnd groups).emitted),
        (walk numPoints start f group.pointEnd groups).result⟩ := by
  rw [walk, Emission.emit_bind, Emission.bind_of_ok h]

theorem walk_cons_of_error {err : AnnError} (h : (f group).result = .error err) :
    walk numPoints start f next (group :: groups) =
      ⟨emptyCallbacks next (start group) ++ (f group).emitted, .error err⟩ := by
  rw [walk, Emission.emit_bind, Emission.bind_of_error h]

theorem result_cases (r : Except AnnError Unit) : r = .ok () ∨ ∃ err, r = .error err := by
  cases r with
  | ok => exact .inl rfl
  | error err => exact .inr ⟨err, rfl⟩

theorem walk_ok_iff :
    (walk numPoints start f next groups).result = .ok () ↔
      ∀ group ∈ groups, (f group).result = .ok () := by
  induction groups generalizing next with
  | nil => simp [walk, Emission.emit]
  | cons group groups ih =>
      rcases result_cases (f group).result with hok | ⟨err, herr⟩
      · rw [walk_cons_of_ok hok]
        simp [ih, hok]
      · rw [walk_cons_of_error herr]
        simp [herr]

theorem Chained.le (h : Chained start next groups) (hmem : group ∈ groups) :
    next ≤ start group ∧ start group < group.pointEnd := by
  induction groups generalizing next with
  | nil => cases hmem
  | cons head groups ih =>
      obtain ⟨hstart, hlt, hrest⟩ := h
      rcases List.mem_cons.mp hmem with rfl | hmem
      · exact ⟨hstart, hlt⟩
      · obtain ⟨hle, hgroup⟩ := ih hrest hmem
        exact ⟨by omega, hgroup⟩

/-- No group ends strictly inside another one. -/
theorem Chained.not_inside (h : Chained start next groups) (hmem : group ∈ groups)
    (hother : other ∈ groups) :
    ¬ (start other < group.pointEnd ∧ group.pointEnd < other.pointEnd) := by
  induction groups generalizing next with
  | nil => cases hmem
  | cons head groups ih =>
      obtain ⟨hstart, hlt, hrest⟩ := h
      rcases List.mem_cons.mp hmem with rfl | hin
      · rcases List.mem_cons.mp hother with rfl | hother
        · omega
        · have := (hrest.le hother).1
          omega
      · rcases List.mem_cons.mp hother with rfl | hother
        · have := hrest.le hin
          omega
        · exact ih hrest hin hother

/-- Where a walk fails whose groups fail only after all of their callbacks. -/
theorem Chained.fails_at_end (h : Chained start next groups)
    (hfull : ∀ group ∈ groups, (f group).emitted.length = group.pointEnd - start group)
    {err : AnnError} (herr : (walk numPoints start f next groups).result = .error err) :
    ∃ group ∈ groups,
      next + (walk numPoints start f next groups).emitted.length = group.pointEnd := by
  induction groups generalizing next with
  | nil => cases herr
  | cons group groups ih =>
      obtain ⟨hstart, hlt, hrest⟩ := h
      have hlen := hfull group List.mem_cons_self
      rcases result_cases (f group).result with hok | ⟨err', herr'⟩
      · rw [walk_cons_of_ok hok] at herr ⊢
        obtain ⟨last, hlast, hend⟩ :=
          ih hrest (fun g hg => hfull g (List.mem_cons_of_mem _ hg)) herr
        refine ⟨last, List.mem_cons_of_mem _ hlast, ?_⟩
        simp only [List.length_append, emptyCallbacks_length]
        omega
      · refine ⟨group, List.mem_cons_self, ?_⟩
        rw [walk_cons_of_error herr']
        simp only [List.length_append, emptyCallbacks_length]
        omega

/-- Where a walk fails whose groups fail only in the midst of their callbacks. -/
theorem Chained.fails_inside (h : Chained start next groups)
    (hfull : ∀ group ∈ groups, (f group).result = .ok () →
      (f group).emitted.length = group.pointEnd - start group)
    (hpart : ∀ group ∈ groups, ∀ err, (f group).result = .error err →
      0 < (f group).emitted.length ∧ (f group).emitted.length < group.pointEnd - start group)
    {err : AnnError} (herr : (walk numPoints start f next groups).result = .error err) :
    ∃ group ∈ groups,
      start group < next + (walk numPoints start f next groups).emitted.length ∧
        next + (walk numPoints start f next groups).emitted.length < group.pointEnd := by
  induction groups generalizing next with
  | nil => cases herr
  | cons group groups ih =>
      obtain ⟨hstart, hlt, hrest⟩ := h
      rcases result_cases (f group).result with hok | ⟨err', herr'⟩
      · have hlen := hfull group List.mem_cons_self hok
        rw [walk_cons_of_ok hok] at herr ⊢
        obtain ⟨last, hlast, hend⟩ :=
          ih hrest (fun g hg => hfull g (List.mem_cons_of_mem _ hg))
            (fun g hg => hpart g (List.mem_cons_of_mem _ hg)) herr
        refine ⟨last, List.mem_cons_of_mem _ hlast, ?_⟩
        simp only [List.length_append, emptyCallbacks_length]
        omega
      · have hlen := hpart group List.mem_cons_self err' herr'
        refine ⟨group, List.mem_cons_self, ?_⟩
        rw [walk_cons_of_error herr']
        simp only [List.length_append, emptyCallbacks_length]
        omega

/-- Walks that succeed emit the same exactly if the groups do. -/
theorem walk_emitted_eq_iff
    (hf : ∀ group ∈ groups, (f group).result = .ok ()) (hg : ∀ group ∈ groups, (g group).result = .ok ())
    (hlen : ∀ group ∈ groups, (f group).emitted.length = (g group).emitted.length) :
    (walk numPoints start f next groups).emitted = (walk numPoints start g next groups).emitted ↔
      ∀ group ∈ groups, (f group).emitted = (g group).emitted := by
  induction groups generalizing next with
  | nil => simp [walk]
  | cons group groups ih =>
      have hgroups : (walk numPoints start f group.pointEnd groups).emitted =
          (walk numPoints start g group.pointEnd groups).emitted ↔
            ∀ group ∈ groups, (f group).emitted = (g group).emitted :=
        ih (fun g hg => hf g (List.mem_cons_of_mem _ hg))
          (fun g' hg' => hg g' (List.mem_cons_of_mem _ hg'))
          (fun g hg => hlen g (List.mem_cons_of_mem _ hg))
      rw [walk_cons_of_ok (hf group List.mem_cons_self),
        walk_cons_of_ok (hg group List.mem_cons_self), List.append_cancel_left_eq,
        List.forall_mem_cons, ← hgroups]
      constructor
      · exact fun heq => List.append_inj heq (hlen group List.mem_cons_self)
      · rintro ⟨hgroup, hrest⟩
        rw [hgroup, hrest]

end

/-! ## Replaying a part -/

/-- The callbacks of consecutive points. -/
def numbered : Nat → List (List UInt32) → List Callback
  | _, [] => []
  | point, neighbors :: rows => (UInt32.ofNat point, neighbors) :: numbered (point + 1) rows

theorem map_range_eq_numbered (f : Nat → List UInt32) (start n : Nat) :
    (List.range n).map (fun i => (UInt32.ofNat (start + i), f (start + i))) =
      numbered start ((List.range n).map fun i => f (start + i)) := by
  induction n generalizing start with
  | zero => rfl
  | succ n ih =>
      have hrest := ih (start + 1)
      have hshift : ∀ i, start + (i + 1) = start + 1 + i := fun i => by omega
      have hpair : (fun i => (UInt32.ofNat (start + i), f (start + i))) ∘ Nat.succ =
          fun i => (UInt32.ofNat (start + 1 + i), f (start + 1 + i)) := by
        funext i
        exact congrArg (fun point => (UInt32.ofNat point, f point)) (hshift i)
      have hrow : (fun i => f (start + i)) ∘ Nat.succ = fun i => f (start + 1 + i) := by
        funext i
        exact congrArg f (hshift i)
      rw [List.range_succ_eq_map, List.map_cons, List.map_map, hpair, hrest, List.map_cons,
        List.map_map, hrow]
      rfl

/-- The degree that is written for a list of neighbours. -/
def writtenDegree (neighbors : List UInt32) : Nat := (UInt32.ofNat neighbors.length).toNat

theorem writtenDegree_eq (neighbors : List UInt32) :
    writtenDegree neighbors = neighbors.length % 2 ^ 32 := rfl

theorem writtenDegree_le (neighbors : List UInt32) : writtenDegree neighbors ≤ neighbors.length :=
  Nat.mod_le ..

theorem flatMap_take_drop (neighbors : List UInt32) (d : Nat) :
    (neighbors.flatMap fun n => toLe 4 n.toNat) =
      ((neighbors.take d).flatMap fun n => toLe 4 n.toNat) ++
        (neighbors.drop d).flatMap fun n => toLe 4 n.toNat := by
  rw [← List.flatMap_append, List.take_append_drop]

private theorem ofLe_toLe_uint32 (v : UInt32) : ofLe (toLe 4 v.toNat) = v.toNat := by
  have hlt : v.toNat < 256 ^ 4 := v.toNat_lt
  rw [ofLe_toLe, Nat.mod_eq_of_lt hlt]

/-- A point's entry reads back as far as its degree goes. -/
theorem replayPoint_eq {reader : BufReader} {neighbors : List UInt32} {tail : Bytes}
    (h : reader.rest = neighborBytes neighbors ++ tail) :
    ∃ next, replayPoint reader = .ok (neighbors.take (writtenDegree neighbors), next) ∧
      next.rest = ((neighbors.drop (writtenDegree neighbors)).flatMap fun n => toLe 4 n.toNat) ++
        tail := by
  have hle := writtenDegree_le neighbors
  have hne : toLe 4 (UInt32.ofNat neighbors.length).toNat ≠ [] :=
    List.ne_nil_of_length_pos (by rw [toLe_length]; exact Nat.succ_pos 3)
  rw [neighborBytes, List.append_assoc] at h
  have hdegree := BufReader.readExact_append h hne
  have hrest := BufReader.rest_advance h
  rw [toLe_length] at hdegree hrest
  rw [flatMap_take_drop neighbors (writtenDegree neighbors), List.append_assoc] at hrest
  have hwidth : ∀ n : UInt32, (toLe 4 n.toNat).length = 4 := fun n => toLe_length 4 _
  have hmany := BufReader.readMany_encode (fun bytes => UInt32.ofNat (ofLe bytes)) hwidth
    (Nat.succ_pos 3) (fun n => by rw [ofLe_toLe_uint32, UInt32.ofNat_toNat]) hrest
  have hlen : (neighbors.take (writtenDegree neighbors)).length = writtenDegree neighbors :=
    List.length_take_of_le hle
  have hbytes : ((neighbors.take (writtenDegree neighbors)).flatMap fun n =>
      toLe 4 n.toNat).length = 4 * writtenDegree neighbors := by
    rw [List.length_flatMap]
    simp [Nat.min_eq_left hle, Nat.mul_comm]
  rw [hlen] at hmany
  refine ⟨(reader.advance 4).advance (4 * writtenDegree neighbors), ?_, ?_⟩
  · rw [replayPoint, hdegree, ok_bind]
    simp only [ofLe_toLe_uint32]
    exact hmany
  · have hnext := BufReader.rest_advance hrest
    rwa [hbytes] at hnext

section

variable {reader : BufReader} {rows : List (List UInt32)} {tail : Bytes}

theorem replayPoints_cons {neighbors : List UInt32} {next : BufReader} (point points : Nat)
    (h : replayPoint reader = .ok (neighbors, next)) :
    replayPoints reader point (points + 1) =
      ⟨(UInt32.ofNat point, neighbors) :: (replayPoints next (point + 1) points).emitted,
        (replayPoints next (point + 1) points).result⟩ := by
  rw [replayPoints, h, Emission.lift_ok, pure_bind]
  rfl

/-- A replay that fails has not called back for all points. -/
theorem replayPoints_length (reader : BufReader) (point points : Nat) :
    ((replayPoints reader point points).result = .ok () →
        (replayPoints reader point points).emitted.length = points) ∧
      ∀ err, (replayPoints reader point points).result = .error err →
        (replayPoints reader point points).emitted.length < points := by
  induction points generalizing reader point with
  | zero => exact ⟨fun _ => rfl, fun _ herr => (by cases herr)⟩
  | succ points ih =>
      cases hread : replayPoint reader with
      | error err =>
          rw [replayPoints, hread, Emission.lift_error, Emission.fail_bind]
          exact ⟨fun hok => (by cases hok), fun _ _ => Nat.succ_pos points⟩
      | ok entry =>
          obtain ⟨neighbors, next⟩ := entry
          rw [replayPoints_cons point points hread]
          obtain ⟨hok, herr⟩ := ih next (point + 1)
          exact ⟨fun h => congrArg Nat.succ (hok h), fun err h => Nat.succ_lt_succ (herr err h)⟩

/-- Degrees that fit a `u32` give the rows back. -/
theorem replayPoints_rows (h : reader.rest = rows.flatMap neighborBytes ++ tail)
    (hsmall : ∀ neighbors ∈ rows, neighbors.length < 2 ^ 32) (point : Nat) :
    replayPoints reader point rows.length = Emission.emit (numbered point rows) := by
  induction rows generalizing reader point with
  | nil => rfl
  | cons neighbors rows ih =>
      rw [List.flatMap_cons, List.append_assoc] at h
      obtain ⟨next, hread, hrest⟩ := replayPoint_eq h
      have hdegree : writtenDegree neighbors = neighbors.length :=
        Nat.mod_eq_of_lt (hsmall neighbors List.mem_cons_self)
      rw [hdegree, List.take_length] at hread
      rw [hdegree, List.drop_length, List.flatMap_nil, List.nil_append] at hrest
      rw [List.length_cons, replayPoints_cons point rows.length hread,
        ih hrest fun n hn => hsmall n (List.mem_cons_of_mem _ hn)]
      rfl

/-- Only such degrees do. -/
theorem small_of_replayPoints (h : reader.rest = rows.flatMap neighborBytes ++ tail) {point : Nat}
    (heq : (replayPoints reader point rows.length).emitted = numbered point rows) :
    ∀ neighbors ∈ rows, neighbors.length < 2 ^ 32 := by
  induction rows generalizing reader point with
  | nil => simp
  | cons neighbors rows ih =>
      rw [List.flatMap_cons, List.append_assoc] at h
      obtain ⟨next, hread, hrest⟩ := replayPoint_eq h
      rw [List.length_cons, replayPoints_cons point rows.length hread] at heq
      obtain ⟨hhead, htail⟩ := List.cons.inj heq
      have hlen := congrArg (fun callback : Callback => callback.2.length) hhead
      simp only [List.length_take] at hlen
      have hdegree : writtenDegree neighbors = neighbors.length := by
        have := writtenDegree_le neighbors
        omega
      have hsmall : neighbors.length < 2 ^ 32 := by
        rw [← hdegree]
        exact UInt32.toNat_lt _
      rw [hdegree, List.drop_length, List.flatMap_nil, List.nil_append] at hrest
      exact List.forall_mem_cons.mpr ⟨hsmall, ih hrest htail⟩

/-- The first point always reads back. -/
theorem replayPoints_pos (h : reader.rest = rows.flatMap neighborBytes ++ tail) (hne : rows ≠ [])
    (point : Nat) : 0 < (replayPoints reader point rows.length).emitted.length := by
  cases rows with
  | nil => exact absurd rfl hne
  | cons neighbors rows =>
      rw [List.flatMap_cons, List.append_assoc] at h
      obtain ⟨next, hread, -⟩ := replayPoint_eq h
      rw [List.length_cons, replayPoints_cons point rows.length hread]
      exact Nat.succ_pos _

end

/-! ## Degrees -/

theorem length_le_of_nodup {l : List UInt32} (h : l.Nodup) : l.length ≤ 2 ^ 32 := by
  have hnodup : (l.map UInt32.toNat).Nodup := h.map fun a b hab => UInt32.toNat_inj.mp hab
  have hsub : l.map UInt32.toNat ⊆ List.range (2 ^ 32) := by
    intro v hv
    obtain ⟨a, -, rfl⟩ := List.mem_map.mp hv
    exact List.mem_range.mpr a.toNat_lt
  have hlen := (List.subperm_of_subset hnodup hsub).length_le
  rwa [List.length_map, List.length_range] at hlen

theorem le_length_of_forall_mem {l : List UInt32} (h : ∀ c, c ∈ l) : 2 ^ 32 ≤ l.length := by
  have hnodup : ((List.range (2 ^ 32)).map UInt32.ofNat).Nodup := by
    apply List.Nodup.map_on _ List.nodup_range
    intro a ha b hb hab
    rw [List.mem_range] at ha hb
    have htoNat := congrArg UInt32.toNat hab
    rwa [UInt32.toNat_ofNat_of_lt' ha, UInt32.toNat_ofNat_of_lt' hb] at htoNat
  have hlen := (List.subperm_of_subset hnodup fun c _ => h c).length_le
  rwa [List.length_map, List.length_range] at hlen

/-- Some target is missing among the point's edges, or the reservoirs hold fewer than all. -/
def DegreeFits (lMax : Nat) (edges : List PendingEdge) (point : Nat) : Prop :=
  lMax < 2 ^ 32 ∨ ∃ c, ∀ edge ∈ arrivals edges point, edge.c ≠ c

theorem degreeFits_iff {lMax : Nat} (h : 0 < lMax) (edges : List PendingEdge) (point : Nat) :
    (reservoirOf lMax h edges point).neighbors.length < 2 ^ 32 ↔ DegreeFits lMax edges point := by
  have hnew := HashPruneReservoir.new_valid h
  have hvalid : (reservoirOf lMax h edges point).Valid :=
    HashPruneReservoir.insertAll_valid hnew _
  have hlMax : (reservoirOf lMax h edges point).lMax = lMax :=
    HashPruneReservoir.insertAll_lMax _ _
  have hlen : (reservoirOf lMax h edges point).neighbors.length =
      (reservoirOf lMax h edges point).slots.length := List.length_map _
  constructor
  · intro hsmall
    by_contra hbig
    unfold DegreeFits at hbig
    push Not at hbig
    obtain ⟨hlarge, hall⟩ := hbig
    have hsettled : ∀ c, (reservoirOf lMax h edges point).Settled c := by
      intro c
      obtain ⟨edge, hedge, rfl⟩ := hall c
      exact HashPruneReservoir.settled_insertAll hnew (List.mem_map_of_mem hedge)
    have hmem : ∀ c, c ∈ (reservoirOf lMax h edges point).neighbors := by
      intro c
      rcases hsettled c with hfull | ⟨slot, hslot, rfl⟩
      · omega
      · exact List.mem_map_of_mem hslot
    exact absurd (le_length_of_forall_mem hmem) (Nat.not_le.mpr hsmall)
  · rintro (hsmall | ⟨c, hmissing⟩)
    · have := hvalid.fits
      omega
    · have hnot : c ∉ (reservoirOf lMax h edges point).neighbors := by
        intro hmem
        obtain ⟨slot, hslot, htarget⟩ := List.mem_map.mp hmem
        rcases HashPruneReservoir.mem_insertAll hnew hslot with hold | ⟨o, ho, rfl⟩
        · simp at hold
        · obtain ⟨edge, hedge, rfl⟩ := List.mem_map.mp ho
          exact hmissing edge hedge htarget
      exact length_le_of_nodup (List.nodup_cons.mpr ⟨hnot, hvalid.nodup⟩)

/-! ## One group -/

/-- All segments are read to their ends, and no edge lies past the group. -/
def SegmentGroup.Clean (group : SegmentGroup) (artifacts : SpillArtifacts) : Prop :=
  (readSegments artifacts group.segments).2 = none ∧
    ∀ edge ∈ (readSegments artifacts group.segments).1, edge.p < group.pointEnd

/-- A segment cannot be read, and no edge before it lies past the group. -/
def SegmentGroup.Unreadable (group : SegmentGroup) (artifacts : SpillArtifacts) : Prop :=
  (readSegments artifacts group.segments).2 ≠ none ∧
    ∀ edge ∈ (readSegments artifacts group.segments).1, edge.p < group.pointEnd

namespace GroupRange

variable {r : GroupRange} {artifacts : SpillArtifacts} {segments : List SpillSegmentDesc}

private theorem takeWhile_inside {l : List PendingEdge} (h : ∀ edge ∈ l, r.inside edge = true) :
    l.takeWhile r.inside = l ∧ l.find? (fun edge => !r.inside edge) = none := by
  refine ⟨List.takeWhile_eq_self_iff.mpr h, List.find?_eq_none.mpr fun edge hedge => ?_⟩
  simp [h edge hedge]

/-- Without edges past the range a part is written from what the serial reducer reads. -/
theorem insideEdges_eq
    (h : ∀ edge ∈ (readSegments artifacts segments).1, r.inside edge = true) :
    r.insideEdges artifacts segments =
      match (readSegments artifacts segments).2 with
      | none => .ok (readSegments artifacts segments).1
      | some err => .error err := by
  induction segments with
  | nil => rfl
  | cons segment segments ih =>
      rw [insideEdges]
      rw [readSegments] at h ⊢
      cases hopen : openSegment artifacts segment with
      | error err => rfl
      | ok reader =>
          simp only [hopen] at h ⊢
          rw [ok_bind]
          cases hended : reader.edges.2 with
          | some err =>
              simp only [hended] at h ⊢
              rw [(takeWhile_inside h).2]
          | none =>
              simp only [hended] at h ⊢
              obtain ⟨htake, hfind⟩ := takeWhile_inside fun edge hedge =>
                h edge (List.mem_append_left _ hedge)
              rw [hfind, htake, ih fun edge hedge => h edge (List.mem_append_right _ hedge)]
              cases (readSegments artifacts segments).2 with
              | none => rfl
              | some err => rfl

end GroupRange

/-- Where the reduction of a group starts. -/
def SegmentGroup.start (pointStart : Nat) (group : SegmentGroup) : Nat :=
  max group.pointStart pointStart

section

variable (pointStart lMax pointsPerShard : Nat) (artifacts : SpillArtifacts) (group : SegmentGroup)

def SegmentGroup.chunk : Nat :=
  min (max pointsPerShard 1) (max (group.pointEnd - group.start pointStart) 1)

def SegmentGroup.reduceSerial : Reduction Unit :=
  reduceSegmentGroupInRange (group.start pointStart) group.pointEnd lMax
    (group.chunk pointStart pointsPerShard) group.segments artifacts

def SegmentGroup.toPart : AnnResult NeighborPart :=
  reduceSegmentGroupToNeighborPart (group.start pointStart) group.pointEnd lMax
    (group.chunk pointStart pointsPerShard) group.segments artifacts

end

/-- The rows of a group once the edges have arrived. -/
def SegmentGroup.rows (group : SegmentGroup) (pointStart : Nat) {lMax : Nat} (hl : 0 < lMax)
    (edges : List PendingEdge) : List (List UInt32) :=
  (List.range (group.pointEnd - group.start pointStart)).map fun i =>
    (reservoirOf lMax hl edges (group.start pointStart + i)).neighbors

@[simp] theorem SegmentGroup.rows_length (group : SegmentGroup) (pointStart : Nat) {lMax : Nat}
    (hl : 0 < lMax) (edges : List PendingEdge) :
    (group.rows pointStart hl edges).length = group.pointEnd - group.start pointStart := by
  simp [rows]

/-- A group that is reduced, and fits into one chunk. -/
structure SegmentGroup.Active (pointStart pointsPerShard : Nat) (group : SegmentGroup) : Prop where
  ahead : pointStart < group.pointEnd
  fits : group.pointEnd ≤ group.pointStart + max pointsPerShard 1

namespace SegmentGroup.Active

variable {pointStart lMax pointsPerShard : Nat} {artifacts : SpillArtifacts} {group : SegmentGroup}

theorem start_lt (h : group.Active pointStart pointsPerShard) :
    group.start pointStart < group.pointEnd :=
  Nat.max_lt.mpr ⟨group.pointStart_lt, h.ahead⟩

def range (_h : group.Active pointStart pointsPerShard) (hl : 0 < lMax) : GroupRange :=
  ⟨group.start pointStart, group.pointEnd, max (group.chunk pointStart pointsPerShard) 1,
    Nat.lt_of_lt_of_le Nat.one_pos (Nat.le_max_right ..), lMax, hl⟩

theorem oneChunk (h : group.Active pointStart pointsPerShard) (hl : 0 < lMax) :
    (h.range hl).OneChunk := by
  refine ⟨h.start_lt, ?_⟩
  have hlt := h.start_lt
  have hfits := h.fits
  simp only [range, SegmentGroup.chunk, SegmentGroup.start] at hlt ⊢
  omega

theorem reduceSerial_eq (h : group.Active pointStart pointsPerShard) (hl : 0 < lMax) :
    group.reduceSerial pointStart lMax pointsPerShard artifacts =
      (h.range hl).reduce artifacts group.segments := by
  rw [SegmentGroup.reduceSerial, reduceSegmentGroupInRange, if_neg (Nat.not_le.mpr h.start_lt),
    dif_pos hl]
  rfl

theorem toPart_eq (h : group.Active pointStart pointsPerShard) (hl : 0 < lMax) :
    group.toPart pointStart lMax pointsPerShard artifacts =
      ((h.range hl).insideEdges artifacts group.segments).map fun edges =>
        ⟨group.start pointStart, group.pointEnd,
          ((h.range hl).callbacks edges).flatMap fun callback => neighborBytes callback.2⟩ := by
  have hwrite := (h.oneChunk hl).writePart_eq artifacts group.segments
  rw [SegmentGroup.toPart, reduceSegmentGroupToNeighborPart, if_neg (Nat.not_le.mpr h.start_lt),
    dif_pos hl]
  change ((h.range hl).writePart artifacts group.segments).result.map
    (fun _ => NeighborPart.mk _ _ ((h.range hl).writePart artifacts group.segments).emitted) = _
  rw [hwrite]
  cases (h.range hl).insideEdges artifacts group.segments with
  | error err => rfl
  | ok edges => rfl

theorem callbacks_length (h : group.Active pointStart pointsPerShard) (hl : 0 < lMax)
    (edges : List PendingEdge) :
    ((h.range hl).callbacks edges).length = group.pointEnd - group.start pointStart := by
  simp [GroupRange.callbacks, range]

theorem callbacks_eq_numbered (h : group.Active pointStart pointsPerShard) (hl : 0 < lMax)
    (edges : List PendingEdge) :
    (h.range hl).callbacks edges = numbered (group.start pointStart) (group.rows pointStart hl edges) :=
  map_range_eq_numbered (fun point => (reservoirOf lMax hl edges point).neighbors) _ _

theorem partBytes_eq (h : group.Active pointStart pointsPerShard) (hl : 0 < lMax)
    (edges : List PendingEdge) :
    (((h.range hl).callbacks edges).flatMap fun callback => neighborBytes callback.2) =
      (group.rows pointStart hl edges).flatMap neighborBytes := by
  rw [GroupRange.callbacks, List.flatMap_map, SegmentGroup.rows, List.flatMap_map]
  rfl

/-! ### Its outcomes -/

theorem clean_inside (h : group.Active pointStart pointsPerShard) (hl : 0 < lMax)
    (hall : ∀ edge ∈ (readSegments artifacts group.segments).1, edge.p < group.pointEnd) :
    ∀ edge ∈ (readSegments artifacts group.segments).1, (h.range hl).inside edge = true :=
  fun edge hedge => decide_eq_true (hall edge hedge)

theorem find?_of_all (h : group.Active pointStart pointsPerShard) (hl : 0 < lMax)
    (hall : ∀ edge ∈ (readSegments artifacts group.segments).1, edge.p < group.pointEnd) :
    (readSegments artifacts group.segments).1.find? (fun edge => !(h.range hl).inside edge) =
      none :=
  List.find?_eq_none.mpr fun edge hedge => by simp [h.clean_inside hl hall edge hedge]

theorem reduceSerial_of_clean (h : group.Active pointStart pointsPerShard) (hl : 0 < lMax)
    (hclean : group.Clean artifacts) :
    group.reduceSerial pointStart lMax pointsPerShard artifacts =
      Emission.emit ((h.range hl).callbacks (readSegments artifacts group.segments).1) := by
  rw [h.reduceSerial_eq hl, (h.oneChunk hl).reduce_eq, h.find?_of_all hl hclean.2]
  simp only [hclean.1]

theorem reduceSerial_of_unreadable (h : group.Active pointStart pointsPerShard) (hl : 0 < lMax)
    (hbad : group.Unreadable artifacts) :
    ∃ err, group.reduceSerial pointStart lMax pointsPerShard artifacts = .fail err := by
  obtain ⟨err, herr⟩ := Option.ne_none_iff_exists'.mp hbad.1
  refine ⟨err, ?_⟩
  rw [h.reduceSerial_eq hl, (h.oneChunk hl).reduce_eq, h.find?_of_all hl hbad.2]
  simp only [herr]

/-- An edge past the group: the serial reducer fails behind the group's callbacks. -/
theorem reduceSerial_of_stray (h : group.Active pointStart pointsPerShard) (hl : 0 < lMax)
    (hstray : ¬ ∀ edge ∈ (readSegments artifacts group.segments).1, edge.p < group.pointEnd) :
    (group.reduceSerial pointStart lMax pointsPerShard artifacts).emitted.length =
        group.pointEnd - group.start pointStart ∧
      ∃ err, (group.reduceSerial pointStart lMax pointsPerShard artifacts).result = .error err := by
  have hfind : ((readSegments artifacts group.segments).1.find?
      fun edge => !(h.range hl).inside edge).isSome := by
    rw [List.find?_isSome]
    push Not at hstray
    obtain ⟨edge, hedge, hge⟩ := hstray
    refine ⟨edge, hedge, ?_⟩
    have hinside : (h.range hl).inside edge = false := decide_eq_false (Nat.not_lt.mpr hge)
    simp [hinside]
  obtain ⟨stray, hfind⟩ := Option.isSome_iff_exists.mp hfind
  rw [h.reduceSerial_eq hl, (h.oneChunk hl).reduce_eq, hfind]
  exact ⟨h.callbacks_length hl _, _, rfl⟩

theorem toPart_of_clean (h : group.Active pointStart pointsPerShard) (hl : 0 < lMax)
    (hclean : group.Clean artifacts) :
    group.toPart pointStart lMax pointsPerShard artifacts = .ok ⟨group.start pointStart,
      group.pointEnd, (group.rows pointStart hl (readSegments artifacts group.segments).1).flatMap
        neighborBytes⟩ := by
  rw [h.toPart_eq hl, GroupRange.insideEdges_eq (h.clean_inside hl hclean.2)]
  simp only [hclean.1]
  rw [Except.map, h.partBytes_eq hl]

theorem toPart_of_unreadable (h : group.Active pointStart pointsPerShard) (hl : 0 < lMax)
    (hbad : group.Unreadable artifacts) :
    ∃ err, group.toPart pointStart lMax pointsPerShard artifacts = .error err := by
  obtain ⟨err, herr⟩ := Option.ne_none_iff_exists'.mp hbad.1
  refine ⟨err, ?_⟩
  rw [h.toPart_eq hl, GroupRange.insideEdges_eq (h.clean_inside hl hbad.2)]
  simp only [herr]
  rfl

/-- What a part that is written looks like. -/
theorem toPart_ok (h : group.Active pointStart pointsPerShard) (hl : 0 < lMax)
    {part : NeighborPart}
    (hpart : group.toPart pointStart lMax pointsPerShard artifacts = .ok part) :
    ∃ edges, part = ⟨group.start pointStart, group.pointEnd,
      (group.rows pointStart hl edges).flatMap neighborBytes⟩ := by
  rw [h.toPart_eq hl] at hpart
  cases hinside : (h.range hl).insideEdges artifacts group.segments with
  | error err =>
      rw [hinside] at hpart
      cases hpart
  | ok edges =>
      rw [hinside] at hpart
      refine ⟨edges, ?_⟩
      rw [← h.partBytes_eq hl]
      exact (Except.ok.inj hpart).symm

end SegmentGroup.Active
end ForgeANN
