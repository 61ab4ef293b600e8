-- SUMMARY: Reading a segment of any part file, buffered or with direct I/O: when a truncated part goes unnoticed.
import ForgeANN.Spill.Reduce
import ForgeANN.Storage.DirectRead

/-!
# Reading segments of arbitrary files

The buffered reader takes the end of the file for the end of the segment; the
direct reader delivers zeros there. Neither looks at the record count.
-/
namespace ForgeANN

open Lib

/-- The record at `offset`, with zeros past the end of the file. -/
def recordAt (file : Bytes) (offset : Nat) : PendingEdge :=
  (SpillRecord16.ofBytes (file.readAt offset RUN_RECORD_BYTES)).toPendingEdge

/-- `count` records from `offset` on. -/
def recordsAt (file : Bytes) (offset count : Nat) : List PendingEdge :=
  (List.range count).map fun i => recordAt file (offset + i * RUN_RECORD_BYTES)

@[simp] theorem recordsAt_length (file : Bytes) (offset count : Nat) :
    (recordsAt file offset count).length = count := by
  simp [recordsAt]

theorem recordsAt_succ (file : Bytes) (offset count : Nat) :
    recordsAt file offset (count + 1) =
      recordAt file offset :: recordsAt file (offset + RUN_RECORD_BYTES) count := by
  simp only [recordsAt, List.range_succ_eq_map, List.map_cons, List.map_map, Nat.zero_mul,
    Nat.add_zero]
  congr 1
  apply List.map_congr_left
  intro i _
  simp only [Function.comp_apply, Nat.succ_mul]
  congr 1
  omega

/-! ## The direct reader -/

/-- A segment reader with direct I/O; `len` is where the segment ends. -/
structure DirectSegmentReader (file : Bytes) where
  reads : ReadAt file
  cfg : DirectIoConfig
  path : String
  offset : Nat
  len : Nat

namespace DirectSegmentReader

variable {file : Bytes}

/-- `SegmentReader::open` with direct I/O enabled. -/
def openDirect (reads : ReadAt file) (alignment : Nat) (path : String) (segment : SpillSegmentDesc) :
    DirectSegmentReader file :=
  ⟨reads, ⟨true, alignment⟩, path, segment.byteOffset, segment.byteOffset + segment.byteLen⟩

def readEdge (r : DirectSegmentReader file) :
    AnnResult (Option (PendingEdge × DirectSegmentReader file)) :=
  if r.len ≤ r.offset then .ok none
  else if r.len < r.offset + RUN_RECORD_BYTES then
    .error (.index
      s!"Candidate run has trailing partial record at offset {r.offset} of length {r.len}")
  else do
    let bytes ← r.reads.readExactAt r.cfg r.path r.offset RUN_RECORD_BYTES
    .ok (some ((SpillRecord16.ofBytes bytes).toPendingEdge,
      { r with offset := r.offset + RUN_RECORD_BYTES }))

theorem readEdge_offset {r next : DirectSegmentReader file} {edge : PendingEdge}
    (h : r.readEdge = .ok (some (edge, next))) : next.len - next.offset < r.len - r.offset := by
  unfold readEdge at h
  split_ifs at h with hend hpart
  · cases h
  · cases hread : r.reads.readExactAt r.cfg r.path r.offset RUN_RECORD_BYTES with
    | error err =>
        rw [hread] at h
        cases h
    | ok bytes =>
        rw [hread] at h
        cases h
        simp only [RUN_RECORD_BYTES] at hpart ⊢
        omega

/-- What `while let Some(edge) = reader.read_edge()?` goes over, and the error it ends on. -/
def edges (r : DirectSegmentReader file) : List PendingEdge × Option AnnError :=
  match h : r.readEdge with
  | .error err => ([], some err)
  | .ok none => ([], none)
  | .ok (some (edge, next)) =>
      have := readEdge_offset h
      let rest := next.edges
      (edge :: rest.1, rest.2)
termination_by r.len - r.offset

section

variable {r next : DirectSegmentReader file} {edge : PendingEdge}

theorem edges_of_none (h : r.readEdge = .ok none) : r.edges = ([], none) := by
  rw [edges]
  split <;> simp_all

theorem edges_of_error {err : AnnError} (h : r.readEdge = .error err) :
    r.edges = ([], some err) := by
  rw [edges]
  split <;> simp_all

theorem edges_of_some (h : r.readEdge = .ok (some (edge, next))) :
    r.edges = (edge :: next.edges.1, next.edges.2) := by
  rw [edges]
  split <;> simp_all

end

/-- A direct reader goes over all whole records of its range, whether the file has them or not, and
fails only on a partial one. -/
theorem edges_eq (r : DirectSegmentReader file) (hdirect : r.cfg.enabled = true) {byteLen : Nat}
    (hlen : r.len = r.offset + byteLen) :
    r.edges.1 = recordsAt file r.offset (byteLen / RUN_RECORD_BYTES) ∧
      (r.edges.2 = none ↔ byteLen % RUN_RECORD_BYTES = 0) := by
  induction byteLen using Nat.strong_induction_on generalizing r with
  | h byteLen ih =>
      by_cases hzero : byteLen = 0
      · have hread : r.readEdge = .ok none := by
          rw [readEdge, if_pos (by omega)]
        rw [edges_of_none hread, hzero]
        exact ⟨rfl, by simp⟩
      · by_cases hpart : byteLen < RUN_RECORD_BYTES
        · have hread : r.readEdge = .error (.index
              s!"Candidate run has trailing partial record at offset {r.offset} of length {r.len}") := by
            rw [readEdge, if_neg (by omega), if_pos (by omega)]
          rw [edges_of_error hread, Nat.div_eq_of_lt hpart, Nat.mod_eq_of_lt hpart]
          exact ⟨rfl, by simp [hzero]⟩
        · let next : DirectSegmentReader file := { r with offset := r.offset + RUN_RECORD_BYTES }
          have hread : r.readEdge = .ok (some (recordAt file r.offset, next)) := by
            rw [readEdge, if_neg (by omega), if_neg (by omega), ReadAt.readExactAt_eq,
              if_pos (.inl hdirect)]
            rfl
          have hpos : 0 < RUN_RECORD_BYTES := Nat.succ_pos 15
          obtain ⟨hedges, hend⟩ := ih (byteLen - RUN_RECORD_BYTES) (by omega) next hdirect
            (by change r.len = r.offset + RUN_RECORD_BYTES + _; omega)
          have hdiv : byteLen / RUN_RECORD_BYTES = (byteLen - RUN_RECORD_BYTES) / RUN_RECORD_BYTES + 1 :=
            Nat.div_eq_sub_div hpos (by omega)
          rw [edges_of_some hread, hdiv, recordsAt_succ, hedges, hend,
            ← Nat.mod_eq_sub_mod (by omega)]
          exact ⟨rfl, Iff.rfl⟩

end DirectSegmentReader

/-! ## The buffered reader -/

theorem SegmentReader.readEdge_new (file : Bytes) (offset byteLen : Nat) :
    (new file offset byteLen).readEdge =
      if byteLen = 0 then .ok none
      else if byteLen < RUN_RECORD_BYTES then
        .error (.index
          s!"Candidate segment has trailing partial record with {byteLen} bytes remaining")
      else if offset + RUN_RECORD_BYTES ≤ file.length then
        .ok (some (recordAt file offset,
          new file (offset + RUN_RECORD_BYTES) (byteLen - RUN_RECORD_BYTES)))
      else .ok none := by
  have hread : BufReader.readExact ⟨file, offset⟩ RUN_RECORD_BYTES =
      if offset + RUN_RECORD_BYTES ≤ file.length then
        .ok (file.readAt offset RUN_RECORD_BYTES, ⟨file, offset + RUN_RECORD_BYTES⟩)
      else .error (.io .unexpectedEof) := by
    unfold BufReader.readExact
    split_ifs with hfits
    · rw [Bytes.readAt_eq_take_drop hfits]
      rfl
    · rfl
  unfold readEdge new
  dsimp only
  rw [hread]
  by_cases hfits : offset + RUN_RECORD_BYTES ≤ file.length
  · simp only [if_pos hfits]
    rfl
  · simp only [if_neg hfits]

/-- A buffered reader goes over the whole records of its range that the file has; it fails on a
partial one only if the file has all whole ones. -/
theorem SegmentReader.edges_eq (file : Bytes) (offset byteLen : Nat) :
    (new file offset byteLen).edges.1 =
        recordsAt file offset (min byteLen (file.length - offset) / RUN_RECORD_BYTES) ∧
      ((new file offset byteLen).edges.2 = none ↔
        byteLen % RUN_RECORD_BYTES = 0 ∨
          file.length - offset < byteLen / RUN_RECORD_BYTES * RUN_RECORD_BYTES) := by
  have hpos : 0 < RUN_RECORD_BYTES := Nat.succ_pos 15
  induction byteLen using Nat.strong_induction_on generalizing offset with
  | h byteLen ih =>
      have hread := readEdge_new file offset byteLen
      by_cases hzero : byteLen = 0
      · rw [if_pos hzero] at hread
        rw [edges_of_none hread, hzero]
        simp [recordsAt]
      · by_cases hpart : byteLen < RUN_RECORD_BYTES
        · rw [if_neg hzero, if_pos hpart] at hread
          rw [edges_of_error hread, Nat.mod_eq_of_lt hpart, Nat.div_eq_of_lt hpart,
            Nat.div_eq_of_lt (by omega)]
          simp [recordsAt, hzero]
        · rw [if_neg hzero, if_neg hpart] at hread
          by_cases hfits : offset + RUN_RECORD_BYTES ≤ file.length
          · rw [if_pos hfits] at hread
            obtain ⟨hedges, hend⟩ := ih (byteLen - RUN_RECORD_BYTES) (by omega)
              (offset + RUN_RECORD_BYTES)
            have hdiv : byteLen / RUN_RECORD_BYTES =
                (byteLen - RUN_RECORD_BYTES) / RUN_RECORD_BYTES + 1 :=
              Nat.div_eq_sub_div hpos (by omega)
            have hmin : min byteLen (file.length - offset) / RUN_RECORD_BYTES =
                min (byteLen - RUN_RECORD_BYTES) (file.length - (offset + RUN_RECORD_BYTES)) /
                  RUN_RECORD_BYTES + 1 := by
              rw [Nat.div_eq_sub_div hpos (by omega)]
              congr 2
              omega
            rw [edges_of_some hread, hmin, recordsAt_succ, hedges, hend, hdiv,
              ← Nat.mod_eq_sub_mod (by omega), Nat.succ_mul]
            refine ⟨rfl, ?_⟩
            omega
          · have hone : 1 ≤ byteLen / RUN_RECORD_BYTES := (Nat.one_le_div_iff hpos).mpr (by omega)
            have hmul := Nat.mul_le_mul_right RUN_RECORD_BYTES hone
            rw [if_neg hfits] at hread
            rw [edges_of_none hread, Nat.div_eq_of_lt (by omega)]
            exact ⟨rfl, iff_of_true rfl (.inr (by omega))⟩

/-! ## Truncated parts -/

/-- An iteration ends in an error, or has delivered the descriptor's records, all of them in its
range and in the file. -/
def ReadsExactly (file : Bytes) (segment : SpillSegmentDesc)
    (outcome : List PendingEdge × Option AnnError) : Prop :=
  outcome.2 = none →
    outcome.1 = recordsAt file segment.byteOffset segment.recordCount.toNat ∧
      segment.recordCount.toNat * RUN_RECORD_BYTES ≤
        min segment.byteLen (file.length - segment.byteOffset)

def SameOutcome (a b : List PendingEdge × Option AnnError) : Prop :=
  a.1 = b.1 ∧ (a.2 = none ↔ b.2 = none)

/-- Both readers of a segment, and what is expected of them. -/
def SegmentReadsSafely {file : Bytes} (reads : ReadAt file) (alignment : Nat) (path : String)
    (segment : SpillSegmentDesc) : Prop :=
  let buffered := (SegmentReader.new file segment.byteOffset segment.byteLen).edges
  let direct := (DirectSegmentReader.openDirect reads alignment path segment).edges
  ReadsExactly file segment buffered ∧ ReadsExactly file segment direct ∧
    SameOutcome buffered direct

theorem segmentReadsSafely_iff {file : Bytes} (reads : ReadAt file) (alignment : Nat)
    (path : String) (segment : SpillSegmentDesc) :
    SegmentReadsSafely reads alignment path segment ↔
      segment.byteLen / RUN_RECORD_BYTES * RUN_RECORD_BYTES ≤ file.length - segment.byteOffset ∧
        (segment.byteLen % RUN_RECORD_BYTES ≠ 0 ∨
          segment.byteLen = segment.recordCount.toNat * RUN_RECORD_BYTES) := by
  obtain ⟨hbuffered, hbufferedEnd⟩ :=
    SegmentReader.edges_eq file segment.byteOffset segment.byteLen
  have hlen : (DirectSegmentReader.openDirect reads alignment path segment).len =
      segment.byteOffset + segment.byteLen := rfl
  obtain ⟨hdirect, hdirectEnd⟩ := DirectSegmentReader.edges_eq
    (.openDirect reads alignment path segment) rfl hlen
  have hpos : 0 < RUN_RECORD_BYTES := Nat.succ_pos 15
  unfold SegmentReadsSafely ReadsExactly SameOutcome
  dsimp only
  rw [hbuffered, hbufferedEnd, hdirect, hdirectEnd]
  constructor
  · rintro ⟨-, hexact, hsame, hend⟩
    have hcount := congrArg List.length hsame
    rw [recordsAt_length, recordsAt_length] at hcount
    have hfits : segment.byteLen / RUN_RECORD_BYTES * RUN_RECORD_BYTES ≤
        file.length - segment.byteOffset := by
      rw [← hcount]
      exact (Nat.div_mul_le_self ..).trans (Nat.min_le_right ..)
    refine ⟨hfits, or_iff_not_imp_left.mpr fun hwhole => ?_⟩
    have hwhole : segment.byteLen % RUN_RECORD_BYTES = 0 := not_not.mp hwhole
    have hrecords := congrArg List.length (hexact hwhole).1
    rw [recordsAt_length, recordsAt_length] at hrecords
    rw [← hrecords, Nat.div_mul_cancel (Nat.dvd_of_mod_eq_zero hwhole)]
  · rintro ⟨hfits, hlen⟩
    have hmin : min segment.byteLen (file.length - segment.byteOffset) / RUN_RECORD_BYTES =
        segment.byteLen / RUN_RECORD_BYTES := by
      apply Nat.le_antisymm
      · exact Nat.div_le_div_right (Nat.min_le_left ..)
      · rw [Nat.le_div_iff_mul_le hpos]
        exact Nat.le_min.mpr ⟨Nat.div_mul_le_self .., hfits⟩
    have hexact : segment.byteLen % RUN_RECORD_BYTES = 0 →
        recordsAt file segment.byteOffset (segment.byteLen / RUN_RECORD_BYTES) =
            recordsAt file segment.byteOffset segment.recordCount.toNat ∧
          segment.recordCount.toNat * RUN_RECORD_BYTES ≤
            min segment.byteLen (file.length - segment.byteOffset) := by
      intro hwhole
      have hcount := hlen.resolve_left (not_not.mpr hwhole)
      rw [hcount, Nat.mul_div_cancel _ hpos] at hfits ⊢
      exact ⟨rfl, Nat.le_min.mpr ⟨Nat.le_refl _, hfits⟩⟩
    rw [hmin]
    refine ⟨fun hend => hexact (hend.resolve_right (by omega)), hexact, rfl, ?_⟩
    exact ⟨fun hend => hend.resolve_right (by omega), .inl⟩

/-- A part of which only the first of two records is left. -/
def truncatedPart : Bytes := (⟨3, 7, 1, 0, ⟨0⟩⟩ : SpillRecord16).toBytes

def twoRecordSegment : SpillSegmentDesc := ⟨0, 0, 0, 32, 2, 3, 3, true⟩

theorem truncatedPart_not_noticed :
    ¬ SegmentReadsSafely (ReadAt.full truncatedPart) 4096 "part.log" twoRecordSegment := by
  have hlen : truncatedPart.length = 16 := SpillRecord16.toBytes_length _
  obtain ⟨-, hend⟩ := SegmentReader.edges_eq truncatedPart 0 32
  rintro ⟨hbuffered, -⟩
  obtain ⟨-, hle⟩ := hbuffered (hend.mpr (.inl rfl))
  have hle : 32 ≤ min 32 (truncatedPart.length - 0) := hle
  omega

end ForgeANN
