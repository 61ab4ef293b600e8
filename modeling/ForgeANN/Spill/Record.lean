-- SUMMARY: Spilled edges: the 16-byte record, the writer of a part file, and the reader of a segment.
import ForgeANN.Common.Float
import ForgeANN.Storage.BufReader
import ForgeANN.Storage.DirectIo

/-!
# Spill records

An edge is spilled as a fixed record of 16 bytes. A part file is written by
appending records, buffered or with direct I/O; a segment of it is read back
record by record.
-/
namespace ForgeANN

open Lib

def PENDING_EDGE_DIRECT : UInt8 := 1
def SPILL_FLAG_MANDATORY : UInt16 := 1
def RUN_RECORD_BYTES : Nat := 16
def DIRECT_CANDIDATE_BUFFER_BYTES : Nat := 1024 * 1024

structure PendingEdge where
  p : Nat
  c : UInt32
  hash : UInt16
  dist : F32
  mandatory : Bool
  localRank : UInt8
  flags : UInt8
deriving DecidableEq, Repr

structure SpillRecord16 where
  src : UInt32
  dst : UInt32
  hash : UInt16
  flags : UInt16
  dist : F32
deriving DecidableEq, Repr

namespace SpillRecord16

def fromPendingEdge (edge : PendingEdge) : AnnResult SpillRecord16 :=
  if edge.p < 2 ^ 32 then .ok {
    src := UInt32.ofNat edge.p
    dst := edge.c
    hash := edge.hash
    flags := if edge.mandatory then SPILL_FLAG_MANDATORY else 0
    dist := edge.dist }
  else .error (.index s!"Spill writer only supports u32 source ids, got p={edge.p}")

def toPendingEdge (record : SpillRecord16) : PendingEdge where
  p := record.src.toNat
  c := record.dst
  hash := record.hash
  dist := record.dist
  mandatory := record.flags &&& SPILL_FLAG_MANDATORY ≠ 0
  localRank := 1
  flags := PENDING_EDGE_DIRECT

def toBytes (record : SpillRecord16) : Bytes :=
  toLe 4 record.src.toNat ++ toLe 4 record.dst.toNat ++ toLe 2 record.hash.toNat ++
    toLe 2 record.flags.toNat ++ toLe 4 record.dist.bits.toNat

def ofBytes (bytes : Bytes) : SpillRecord16 where
  src := UInt32.ofNat (ofLe (bytes.take 4))
  dst := UInt32.ofNat (ofLe ((bytes.drop 4).take 4))
  hash := UInt16.ofNat (ofLe ((bytes.drop 8).take 2))
  flags := UInt16.ofNat (ofLe ((bytes.drop 10).take 2))
  dist := ⟨UInt32.ofNat (ofLe ((bytes.drop 12).take 4))⟩

@[simp] theorem toBytes_length (record : SpillRecord16) :
    record.toBytes.length = RUN_RECORD_BYTES := by
  simp [toBytes, RUN_RECORD_BYTES]

private theorem ofNat_ofLe_uint32 (v : UInt32) : UInt32.ofNat (ofLe (toLe 4 v.toNat)) = v := by
  have hlt : v.toNat < 256 ^ 4 := v.toNat_lt
  rw [ofLe_toLe, Nat.mod_eq_of_lt hlt, UInt32.ofNat_toNat]

private theorem ofNat_ofLe_uint16 (v : UInt16) : UInt16.ofNat (ofLe (toLe 2 v.toNat)) = v := by
  have hlt : v.toNat < 256 ^ 2 := v.toNat_lt
  rw [ofLe_toLe, Nat.mod_eq_of_lt hlt, UInt16.ofNat_toNat]

/-- A record reads back as it was written. -/
theorem ofBytes_toBytes (record : SpillRecord16) : ofBytes record.toBytes = record := by
  obtain ⟨src, dst, hash, flags, ⟨bits⟩⟩ := record
  simp only [ofBytes, toBytes, mk.injEq, F32.mk.injEq]
  refine ⟨?_, ?_, ?_, ?_, ?_⟩
  · exact ofNat_ofLe_uint32 src
  · exact ofNat_ofLe_uint32 dst
  · exact ofNat_ofLe_uint16 hash
  · exact ofNat_ofLe_uint16 flags
  · exact ofNat_ofLe_uint32 bits

end SpillRecord16

/-- What of an edge is spilled. -/
def PendingEdge.payload (edge : PendingEdge) : UInt32 × UInt16 × F32 × Bool :=
  (edge.c, edge.hash, edge.dist, edge.mandatory)

/-- An edge as it comes back from its record. -/
def PendingEdge.spilled (edge : PendingEdge) : PendingEdge :=
  { edge with localRank := 1, flags := PENDING_EDGE_DIRECT }

/-- The record of an edge whose source is a `u32`. -/
def PendingEdge.record (edge : PendingEdge) : SpillRecord16 where
  src := UInt32.ofNat edge.p
  dst := edge.c
  hash := edge.hash
  flags := if edge.mandatory then SPILL_FLAG_MANDATORY else 0
  dist := edge.dist

theorem fromPendingEdge_ok {edge : PendingEdge} (h : edge.p < 2 ^ 32) :
    SpillRecord16.fromPendingEdge edge = .ok edge.record := by
  rw [SpillRecord16.fromPendingEdge, if_pos h]
  rfl

theorem toPendingEdge_record {edge : PendingEdge} (h : edge.p < 2 ^ 32) :
    edge.record.toPendingEdge = edge.spilled := by
  obtain ⟨p, c, hash, dist, mandatory, localRank, flags⟩ := edge
  have hp : (UInt32.ofNat p).toNat = p := UInt32.toNat_ofNat_of_lt' h
  simp only [PendingEdge.record, SpillRecord16.toPendingEdge, PendingEdge.spilled, hp]
  cases mandatory with
  | false => simp [SPILL_FLAG_MANDATORY]
  | true => simp [SPILL_FLAG_MANDATORY]

/-! ## Writing a part file -/

inductive CandidateRunWriterInner where
  | buffered (file : Bytes)
  | direct (file : Bytes) (offset : Nat) (buffer : Bytes)
deriving DecidableEq, Repr

structure CandidateRunWriter where
  ioCfg : DirectIoConfig
  inner : CandidateRunWriterInner
  records : Nat
deriving DecidableEq, Repr

/-- The file with the buffer written out, and the offset behind it. -/
def flushDirectCandidateBuffer (ioCfg : DirectIoConfig) (file : Bytes) (offset : Nat)
    (buffer : Bytes) : Bytes × Nat :=
  if buffer = [] then (file, offset)
  else (DirectIoFile.writeAllAt ioCfg file buffer offset, offset + buffer.length)

namespace CandidateRunWriter

/-- The file is created, or truncated. -/
def createWithConfig (ioCfg : DirectIoConfig) : CandidateRunWriter :=
  ⟨ioCfg, if ioCfg.enabled then .direct [] 0 [] else .buffered [], 0⟩

def push (writer : CandidateRunWriter) (edge : PendingEdge) : AnnResult CandidateRunWriter := do
  let record ← SpillRecord16.fromPendingEdge edge
  let bytes := record.toBytes
  let inner :=
    match writer.inner with
    | .buffered file => .buffered (file ++ bytes)
    | .direct file offset buffer =>
        let buffer := buffer ++ bytes
        if DIRECT_CANDIDATE_BUFFER_BYTES ≤ buffer.length then
          let flushed := flushDirectCandidateBuffer writer.ioCfg file offset buffer
          .direct flushed.1 flushed.2 []
        else .direct file offset buffer
  .ok { writer with inner, records := writer.records + 1 }

/-- The finished file. -/
def finish (writer : CandidateRunWriter) : Bytes :=
  match writer.inner with
  | .buffered file => file
  | .direct file offset buffer =>
      let flushed := flushDirectCandidateBuffer writer.ioCfg file offset buffer
      flushed.1.setLen flushed.2

/-- What has been pushed, as bytes. -/
def Wrote (writer : CandidateRunWriter) (bytes : Bytes) : Prop :=
  match writer.inner with
  | .buffered file => file = bytes
  | .direct file offset buffer =>
      ∃ flushed, file.Holds 0 flushed ∧ offset = flushed.length ∧ bytes = flushed ++ buffer

theorem createWithConfig_wrote (ioCfg : DirectIoConfig) : (createWithConfig ioCfg).Wrote [] := by
  unfold createWithConfig Wrote
  cases ioCfg.enabled with
  | false => rfl
  | true => exact ⟨[], ⟨Nat.le_refl _, by simp⟩, rfl, rfl⟩

/-- Writing the buffer out moves it behind what has been written before. -/
theorem flush_holds (ioCfg : DirectIoConfig) {file flushed : Bytes} (buffer : Bytes)
    (h : file.Holds 0 flushed) :
    (flushDirectCandidateBuffer ioCfg file flushed.length buffer).1.Holds 0 (flushed ++ buffer) ∧
      (flushDirectCandidateBuffer ioCfg file flushed.length buffer).2 =
        (flushed ++ buffer).length := by
  unfold flushDirectCandidateBuffer
  split_ifs with hnil
  · rw [hnil, List.append_nil]
    exact ⟨h, rfl⟩
  · refine ⟨?_, List.length_append.symm⟩
    apply Bytes.Holds.both
    · exact DirectIoFile.holds_writeAllAt_of_le ioCfg file buffer _ h hnil (by omega)
    · rw [Nat.zero_add]
      exact DirectIoFile.holds_writeAllAt ioCfg file buffer _ hnil

theorem push_wrote {writer : CandidateRunWriter} {bytes : Bytes} {edge : PendingEdge}
    (h : writer.Wrote bytes) (hp : edge.p < 2 ^ 32) :
    ∃ writer', writer.push edge = .ok writer' ∧ writer'.Wrote (bytes ++ edge.record.toBytes) := by
  obtain ⟨ioCfg, inner, records⟩ := writer
  refine ⟨_, by rw [push, fromPendingEdge_ok hp]; rfl, ?_⟩
  cases inner with
  | buffered file => exact congrArg (· ++ edge.record.toBytes) h
  | direct file offset buffer =>
      obtain ⟨flushed, hholds, rfl, rfl⟩ := h
      simp only [Wrote, List.append_assoc]
      split_ifs with hfull
      · obtain ⟨hnew, hoffset⟩ := flush_holds ioCfg (buffer ++ edge.record.toBytes) hholds
        exact ⟨_, hnew, hoffset, (List.append_nil _).symm⟩
      · exact ⟨flushed, hholds, rfl, rfl⟩

/-- Whichever way it was written, the finished file is what was pushed. -/
theorem finish_of_wrote {writer : CandidateRunWriter} {bytes : Bytes} (h : writer.Wrote bytes) :
    writer.finish = bytes := by
  obtain ⟨ioCfg, inner, records⟩ := writer
  cases inner with
  | buffered file => exact h
  | direct file offset buffer =>
      obtain ⟨flushed, hholds, rfl, rfl⟩ := h
      obtain ⟨hnew, hoffset⟩ := flush_holds ioCfg buffer hholds
      simp only [finish]
      rw [hoffset]
      exact hnew.readAt

/-- All of a segment's edges pushed one after the other. -/
def pushAll (writer : CandidateRunWriter) (edges : List PendingEdge) :
    AnnResult CandidateRunWriter :=
  edges.foldlM push writer

theorem pushAll_wrote {edges : List PendingEdge} (hp : ∀ edge ∈ edges, edge.p < 2 ^ 32)
    {writer : CandidateRunWriter} {bytes : Bytes} (h : writer.Wrote bytes) :
    ∃ writer', writer.pushAll edges = .ok writer' ∧
      writer'.Wrote (bytes ++ edges.flatMap fun edge => edge.record.toBytes) := by
  induction edges generalizing writer bytes with
  | nil => exact ⟨writer, rfl, by simpa using h⟩
  | cons edge edges ih =>
      obtain ⟨next, hnext, hwrote⟩ := push_wrote h (hp edge List.mem_cons_self)
      obtain ⟨last, hlast, hwrote⟩ := ih (fun e he => hp e (List.mem_cons_of_mem _ he)) hwrote
      refine ⟨last, ?_, by simpa using hwrote⟩
      rw [pushAll, List.foldlM_cons, hnext]
      exact hlast

end CandidateRunWriter

/-! ## Reading a segment -/

structure SegmentReader where
  reader : BufReader
  remaining : Nat

namespace SegmentReader

/-- File offsets fit the `i64` of `seek_relative`. -/
def new (file : Bytes) (byteOffset byteLen : Nat) : SegmentReader := ⟨⟨file, byteOffset⟩, byteLen⟩

def readEdge (r : SegmentReader) : AnnResult (Option (PendingEdge × SegmentReader)) :=
  if r.remaining = 0 then .ok none
  else if r.remaining < RUN_RECORD_BYTES then
    .error (.index
      s!"Candidate segment has trailing partial record with {r.remaining} bytes remaining")
  else
    match r.reader.readExact RUN_RECORD_BYTES with
    | .error (.io .unexpectedEof) => .ok none
    | .error err => .error err
    | .ok (bytes, reader) =>
        .ok (some ((SpillRecord16.ofBytes bytes).toPendingEdge,
          ⟨reader, r.remaining - RUN_RECORD_BYTES⟩))

theorem readEdge_remaining {r next : SegmentReader} {edge : PendingEdge}
    (h : r.readEdge = .ok (some (edge, next))) : next.remaining < r.remaining := by
  unfold readEdge at h
  split_ifs at h with hzero hpart
  · cases h
  · split at h <;> cases h
    exact Nat.sub_lt (Nat.pos_of_ne_zero hzero) (Nat.succ_pos 15)

/-- What `while let Some(edge) = reader.read_edge()?` goes over, and the error it ends on. -/
def edges (r : SegmentReader) : List PendingEdge × Option AnnError :=
  match h : r.readEdge with
  | .error err => ([], some err)
  | .ok none => ([], none)
  | .ok (some (edge, next)) =>
      have := readEdge_remaining h
      let rest := next.edges
      (edge :: rest.1, rest.2)
termination_by r.remaining

section

variable {r next : SegmentReader} {edge : PendingEdge}

theorem edges_of_none (h : r.readEdge = .ok none) : r.edges = ([], none) := by
  rw [edges]
  split <;> simp_all

theorem edges_of_error {err : AnnError} (h : r.readEdge = .error err) :
    r.edges = ([], some err) := by
  rw [edges]
  split <;> simp_all

theorem edges_of_some (h : r.readEdge = .ok (some (edge, next))) :
    r.edges = (edge :: next.edges.1, next.edges.2) := by
  rw [edges]
  split <;> simp_all

end

/-- The first record of a segment. -/
theorem readEdge_of_holds {file : Bytes} {edge : PendingEdge} {off n : Nat}
    (hp : edge.p < 2 ^ 32) (h : file.Holds off edge.record.toBytes) :
    (new file off ((n + 1) * RUN_RECORD_BYTES)).readEdge =
      .ok (some (edge.spilled, new file (off + RUN_RECORD_BYTES) (n * RUN_RECORD_BYTES))) := by
  have hread : BufReader.readExact ⟨file, off⟩ RUN_RECORD_BYTES =
      .ok (edge.record.toBytes, ⟨file, off + RUN_RECORD_BYTES⟩) := by
    have hne : edge.record.toBytes ≠ [] :=
      List.ne_nil_of_length_pos (by rw [SpillRecord16.toBytes_length]; exact Nat.succ_pos 15)
    have hrest := BufReader.readExact_append (r := ⟨file, off⟩) h.drop hne
    rwa [SpillRecord16.toBytes_length] at hrest
  have hremaining : (new file off ((n + 1) * RUN_RECORD_BYTES)).remaining =
      n * RUN_RECORD_BYTES + RUN_RECORD_BYTES := Nat.succ_mul ..
  have hpos : 0 < RUN_RECORD_BYTES := Nat.succ_pos 15
  have hreader : (new file off ((n + 1) * RUN_RECORD_BYTES)).reader = ⟨file, off⟩ := rfl
  rw [readEdge, if_neg (by omega), if_neg (by omega), hreader, hread, hremaining,
    Nat.add_sub_cancel]
  simp only [SpillRecord16.ofBytes_toBytes, toPendingEdge_record hp, new]

/-- A segment of pushed edges gives them back. -/
theorem edges_of_holds {file : Bytes} {pushed : List PendingEdge} {off : Nat}
    (hp : ∀ edge ∈ pushed, edge.p < 2 ^ 32)
    (h : file.Holds off (pushed.flatMap fun edge => edge.record.toBytes)) :
    (new file off (pushed.length * RUN_RECORD_BYTES)).edges =
      (pushed.map PendingEdge.spilled, none) := by
  induction pushed generalizing off with
  | nil =>
      rw [edges]
      simp [new, readEdge]
  | cons edge pushed ih =>
      rw [List.flatMap_cons] at h
      have hnext := h.right
      rw [SpillRecord16.toBytes_length] at hnext
      have hread := readEdge_of_holds (n := pushed.length) (hp edge List.mem_cons_self) h.left
      rw [List.length_cons, edges_of_some hread,
        ih (fun e he => hp e (List.mem_cons_of_mem _ he)) hnext, List.map_cons]

end SegmentReader
end ForgeANN
