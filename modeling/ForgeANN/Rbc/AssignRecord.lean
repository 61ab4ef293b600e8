-- SUMMARY: Fixed-width assignment records: encoding, decoding, and the contiguous and segmented sources.
import ForgeANN.Storage.BufReader

/-!
# Assignment records

The external partition writes one record per point: how many leaders the point
went to, and that many `u16` slots, padded to a fixed width. Records are read
back from one spool file or, segment by segment, from parts of it.
-/
namespace ForgeANN

open Lib

/-! ## Records -/

def assignRecordFanout (localFanout : Nat) : Nat := min (max localFanout 1) 32

def assignRecordWidth (recordCap : Nat) : Nat := 1 + 2 * assignRecordFanout recordCap

theorem assignRecordFanout_bounds (n : Nat) : 1 ≤ assignRecordFanout n ∧ assignRecordFanout n ≤ 32 := by
  unfold assignRecordFanout; omega

@[simp] theorem assignRecordFanout_idem (n : Nat) :
    assignRecordFanout (assignRecordFanout n) = assignRecordFanout n := by
  unfold assignRecordFanout; omega

/-- The bytes of a record of at most `cap` leaders. -/
def recordBytes (cap : Nat) (leaders : List UInt16) : Bytes :=
  UInt8.ofNat leaders.length ::
    (leaders ++ List.replicate (cap - leaders.length) 0).flatMap fun leader : UInt16 => toLe 2 leader.toNat

def appendAssignRecordBytes (buf : Bytes) (leaders : List UInt16) (recordCap : Nat) :
    AnnResult Bytes :=
  let recordCap := assignRecordFanout recordCap
  if recordCap < leaders.length then
    .error (.index s!"Assignment record contains {leaders.length} leaders above cap {recordCap}")
  else .ok (buf ++ recordBytes recordCap leaders)

/-- The same record, written to the spool file instead of a buffer. -/
def writeAssignRecord (writer : Bytes) (leaders : List UInt16) (recordCap : Nat) :
    AnnResult Bytes :=
  appendAssignRecordBytes writer leaders recordCap

/-- The filled slots and the number of leaders among them. -/
def readAssignRecord (reader : BufReader) (outLen : Nat) :
    AnnResult ((List UInt16 × Nat) × BufReader) := do
  let (countBuf, reader) ← reader.readExact 1
  let count := ofLe countBuf
  if outLen < count then
    .error (.index s!"Assignment record count {count} exceeds record cap {outLen}")
  else
    let (slots, reader) ← reader.readMany 2 (fun buf => UInt16.ofNat (ofLe buf)) outLen
    .ok ((slots, count), reader)

theorem ofLe_toLe_uint16 (leader : UInt16) : UInt16.ofNat (ofLe (toLe 2 leader.toNat)) = leader := by
  have hlt : leader.toNat < 256 ^ 2 := leader.toNat_lt
  rw [ofLe_toLe, Nat.mod_eq_of_lt hlt, UInt16.ofNat_toNat]

theorem recordBytes_length {cap : Nat} {leaders : List UInt16} (h : leaders.length ≤ cap) :
    (recordBytes cap leaders).length = 1 + 2 * cap := by
  simp [recordBytes, List.length_flatMap]
  omega

/-- A record reads back as it was written. -/
theorem readAssignRecord_encode {cap : Nat} {leaders : List UInt16} {reader : BufReader}
    {tail : Bytes} (hcap : cap ≤ 32) (hlen : leaders.length ≤ cap)
    (h : reader.rest = recordBytes cap leaders ++ tail) :
    readAssignRecord reader cap =
      .ok ((leaders ++ List.replicate (cap - leaders.length) 0, leaders.length),
        reader.advance (1 + 2 * cap)) := by
  have hcount : ofLe [UInt8.ofNat leaders.length] = leaders.length := by
    have hlt : leaders.length < 2 ^ 8 := by omega
    rw [ofLe, ofLe, UInt8.toNat_ofNat', Nat.mod_eq_of_lt hlt, Nat.mul_zero, Nat.add_zero]
  have hhead : reader.rest = [UInt8.ofNat leaders.length] ++
      (((leaders ++ List.replicate (cap - leaders.length) 0).flatMap fun leader : UInt16 =>
        toLe 2 leader.toNat) ++ tail) := h
  have hread := BufReader.readExact_append hhead (by simp)
  have hrest := BufReader.rest_advance hhead
  have hslots := BufReader.readMany_encode (fun buf => UInt16.ofNat (ofLe buf))
    (fun leader : UInt16 => toLe_length 2 leader.toNat) (by decide) ofLe_toLe_uint16 hrest
  have hn : (leaders ++ List.replicate (cap - leaders.length) 0).length = cap := by
    rw [List.length_append, List.length_replicate]; omega
  rw [hn] at hslots
  rw [List.length_singleton] at hread hslots
  rw [readAssignRecord, hread]
  simp only [bind, Except.bind, hcount]
  rw [if_neg (Nat.not_lt.mpr hlen), hslots]
  simp

/-! ## Sources of records -/

/-- `AssignmentRecordSource`: something that delivers one record after the other. -/
class AssignmentRecordSource (σ : Type) where
  readRecord : σ → Nat → AnnResult ((List UInt16 × Nat) × σ)

structure ContiguousAssignmentRecordSource where
  reader : BufReader

instance : AssignmentRecordSource ContiguousAssignmentRecordSource where
  readRecord source outLen := do
    let (record, reader) ← readAssignRecord source.reader outLen
    .ok (record, ⟨reader⟩)

structure AssignmentSpoolSegment where
  offset : Nat
  len : Nat
deriving DecidableEq, Repr

/-- Reads the segments in turn; `segments` are those not begun. -/
structure SegmentedAssignmentRecordSource where
  reader : BufReader
  segments : List AssignmentSpoolSegment
  remainingBytes : Nat
  recordWidth : Nat

namespace SegmentedAssignmentRecordSource

def new (spool : Bytes) (segments : List AssignmentSpoolSegment) (recordCap : Nat) :
    SegmentedAssignmentRecordSource :=
  ⟨⟨spool, 0⟩, segments, 0, assignRecordWidth recordCap⟩

/-- The loop of `seek_next_segment` while nothing remains: empty segments are skipped. -/
def beginSegment (source : SegmentedAssignmentRecordSource) :
    List AssignmentSpoolSegment → AnnResult (Bool × SegmentedAssignmentRecordSource)
  | [] => .ok (false, { source with segments := [] })
  | segment :: segments =>
      if segment.len = 0 then beginSegment source segments
      else if segment.len % source.recordWidth ≠ 0 then
        .error (.index (s!"Assignment spool segment length {segment.len} is not aligned " ++
          s!"to record width {source.recordWidth}"))
      else
        .ok (true, { source with
          reader := source.reader.seek segment.offset
          segments
          remainingBytes := segment.len })

def seekNextSegment (source : SegmentedAssignmentRecordSource) :
    AnnResult (Bool × SegmentedAssignmentRecordSource) :=
  if source.remainingBytes ≠ 0 then .ok (true, source)
  else source.beginSegment source.segments

def readRecord (source : SegmentedAssignmentRecordSource) (outLen : Nat) :
    AnnResult ((List UInt16 × Nat) × SegmentedAssignmentRecordSource) := do
  let (more, source) ← source.seekNextSegment
  if !more then
    .error (.index "Assignment spool segments ended before all points were materialized")
  else
    let (record, reader) ← readAssignRecord source.reader outLen
    .ok (record, { source with
      reader
      remainingBytes := source.remainingBytes - source.recordWidth })

end SegmentedAssignmentRecordSource

instance : AssignmentRecordSource SegmentedAssignmentRecordSource where
  readRecord := SegmentedAssignmentRecordSource.readRecord

/-- Record after record, the source delivers these lists of leaders. -/
inductive Delivers {σ : Type} [AssignmentRecordSource σ] (cap : Nat) :
    σ → List (List UInt16) → Prop
  | nil (source : σ) : Delivers cap source []
  | cons {source source' : σ} {slots leaders : List UInt16} {assignment : List (List UInt16)}
      (hread : AssignmentRecordSource.readRecord source cap =
        .ok ((slots, leaders.length), source'))
      (hslots : slots.take leaders.length = leaders)
      (hrest : Delivers cap source' assignment) : Delivers cap source (leaders :: assignment)

/-- A spool that holds the records one after the other delivers them. -/
theorem ContiguousAssignmentRecordSource.delivers {cap : Nat} (hcap : cap ≤ 32)
    {assignment : List (List UInt16)} (hlen : ∀ leaders ∈ assignment, leaders.length ≤ cap)
    {reader : BufReader} {tail : Bytes}
    (h : reader.rest = assignment.flatMap (recordBytes cap) ++ tail) :
    Delivers cap (⟨reader⟩ : ContiguousAssignmentRecordSource) assignment := by
  induction assignment generalizing reader with
  | nil => exact .nil _
  | cons leaders assignment ih =>
      rw [List.flatMap_cons, List.append_assoc] at h
      have hle := hlen leaders List.mem_cons_self
      have hrest := BufReader.rest_advance h
      rw [recordBytes_length hle] at hrest
      have hread : AssignmentRecordSource.readRecord
          (⟨reader⟩ : ContiguousAssignmentRecordSource) cap =
            .ok ((leaders ++ List.replicate (cap - leaders.length) 0, leaders.length),
              ⟨reader.advance (1 + 2 * cap)⟩) := by
        simp only [AssignmentRecordSource.readRecord, readAssignRecord_encode hcap hle h, bind,
          Except.bind]
      exact .cons hread (List.take_left ..)
        (ih (fun l hl => hlen l (List.mem_cons_of_mem _ hl)) hrest)

/-! ### Segments -/

/-- The segments lie in the spool, cut between records, and make up `bytes` in their order. -/
structure SplitsInto (spool : Bytes) (width : Nat) (segments : List AssignmentSpoolSegment)
    (bytes : Bytes) : Prop where
  aligned : ∀ segment ∈ segments, segment.len % width = 0
  inside : ∀ segment ∈ segments, segment.offset + segment.len ≤ spool.length
  bytes_eq : segments.flatMap (fun segment => spool.readAt segment.offset segment.len) = bytes

namespace SegmentedAssignmentRecordSource

variable {source : SegmentedAssignmentRecordSource} {bytes : Bytes}

/-- What the source still has to deliver: the rest of its segment, then the segments not begun. -/
structure Pending (source : SegmentedAssignmentRecordSource) (bytes : Bytes) : Prop where
  remaining_aligned : source.remainingBytes % source.recordWidth = 0
  remaining_inside : source.reader.pos + source.remainingBytes ≤ source.reader.file.length
  aligned : ∀ segment ∈ source.segments, segment.len % source.recordWidth = 0
  inside : ∀ segment ∈ source.segments,
    segment.offset + segment.len ≤ source.reader.file.length
  bytes_eq : source.reader.file.readAt source.reader.pos source.remainingBytes ++
    source.segments.flatMap (fun segment => source.reader.file.readAt segment.offset segment.len) =
      bytes

theorem new_pending {spool : Bytes} {segments : List AssignmentSpoolSegment} {recordCap : Nat}
    (h : SplitsInto spool (assignRecordWidth recordCap) segments bytes) :
    (new spool segments recordCap).Pending bytes where
  remaining_aligned := Nat.zero_mod _
  remaining_inside := Nat.zero_le _
  aligned := h.aligned
  inside := h.inside
  bytes_eq := h.bytes_eq

/-- With bytes pending, there is a segment to read them from, and it has some left. -/
theorem Pending.seekNextSegment (h : source.Pending bytes) (hne : bytes ≠ []) :
    ∃ source', source.seekNextSegment = .ok (true, source') ∧ source'.Pending bytes ∧
      source'.remainingBytes ≠ 0 ∧ source'.recordWidth = source.recordWidth := by
  rw [SegmentedAssignmentRecordSource.seekNextSegment]
  split_ifs with hrem
  · exact ⟨source, rfl, h, hrem, rfl⟩
  obtain ⟨-, -, haligned, hinside, hbytes⟩ := h
  rw [not_not] at hrem
  rw [hrem] at hbytes
  -- the segments to skip are empty, so they hold none of the bytes
  generalize hs : source.segments = segments at haligned hinside hbytes
  clear hs
  induction segments with
  | nil => exact absurd hbytes.symm hne
  | cons segment segments ih =>
      rw [List.flatMap_cons] at hbytes
      simp only [beginSegment]
      by_cases hzero : segment.len = 0
      · rw [if_pos hzero]
        refine ih (fun s hs => haligned s (List.mem_cons_of_mem _ hs))
          (fun s hs => hinside s (List.mem_cons_of_mem _ hs)) ?_
        rw [hzero] at hbytes
        exact hbytes
      · rw [if_neg hzero, if_neg (not_not.mpr (haligned segment List.mem_cons_self))]
        refine ⟨_, rfl, ⟨haligned segment List.mem_cons_self,
          hinside segment List.mem_cons_self, fun s hs => haligned s (List.mem_cons_of_mem _ hs),
          fun s hs => hinside s (List.mem_cons_of_mem _ hs), hbytes⟩, hzero, rfl⟩

/-- Reading a record takes its bytes off what is pending. -/
theorem Pending.readRecord {cap : Nat} (hcap : cap ≤ 32) (hwidth : source.recordWidth = 1 + 2 * cap)
    {leaders : List UInt16} (hle : leaders.length ≤ cap) {more : Bytes}
    (h : source.Pending (recordBytes cap leaders ++ more)) :
    ∃ source', source.readRecord cap =
        .ok ((leaders ++ List.replicate (cap - leaders.length) 0, leaders.length), source') ∧
      source'.Pending more ∧ source'.recordWidth = source.recordWidth := by
  obtain ⟨s, hseek, ⟨hmod, hin, haligned, hinside, hbytes⟩, hrem, hsw⟩ :=
    h.seekNextSegment (by simp [recordBytes])
  have hw : s.recordWidth = (recordBytes cap leaders).length := by
    rw [hsw, hwidth, recordBytes_length hle]
  have hwle : s.recordWidth ≤ s.remainingBytes :=
    Nat.le_of_dvd (Nat.pos_of_ne_zero hrem) (Nat.dvd_of_mod_eq_zero hmod)
  -- the record is the first `recordWidth` bytes of the segment
  obtain ⟨r, hr⟩ := Nat.exists_eq_add_of_le hwle
  rw [hr, Bytes.readAt_add, List.append_assoc] at hbytes
  obtain ⟨hrecord, hmore⟩ := List.append_inj hbytes (by rw [Bytes.readAt_length, hw])
  have hholds : s.reader.file.Holds s.reader.pos (recordBytes cap leaders) :=
    .of_readAt (by omega) (by rw [← hw, hrecord])
  have hread := readAssignRecord_encode hcap hle hholds.drop
  rw [SegmentedAssignmentRecordSource.readRecord, hseek]
  simp only [bind, Except.bind, Bool.not_true, Bool.false_eq_true, ↓reduceIte, hread]
  have hadv : s.recordWidth = 1 + 2 * cap := hsw.trans hwidth
  refine ⟨_, rfl, ⟨?_, ?_, haligned, hinside, ?_⟩, hsw⟩
  · rw [hr, Nat.add_sub_cancel_left]
    simpa [hr] using hmod
  · simp only [BufReader.advance_pos, BufReader.advance_file]
    omega
  · simp only [BufReader.advance_pos, BufReader.advance_file, hr, Nat.add_sub_cancel_left, ← hadv]
    exact hmore

/-- Segments that make up the records deliver them. -/
theorem delivers {cap : Nat} (hcap : cap ≤ 32)
    {assignment : List (List UInt16)} (hlen : ∀ leaders ∈ assignment, leaders.length ≤ cap)
    (hwidth : source.recordWidth = 1 + 2 * cap)
    (h : source.Pending (assignment.flatMap (recordBytes cap))) :
    Delivers cap source assignment := by
  induction assignment generalizing source with
  | nil => exact .nil _
  | cons leaders assignment ih =>
      rw [List.flatMap_cons] at h
      obtain ⟨source', hread, hpending, hw⟩ := h.readRecord hcap hwidth (hlen leaders List.mem_cons_self)
      exact .cons hread (List.take_left ..)
        (ih (fun l hl => hlen l (List.mem_cons_of_mem _ hl)) (hw.trans hwidth) hpending)

end SegmentedAssignmentRecordSource
end ForgeANN
