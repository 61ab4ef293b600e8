-- SUMMARY: The graph file of fixed-size records: rows written in any order, each the last of its node.
import ForgeANN.Graph.MemIndex
import ForgeANN.Lib.Except
import ForgeANN.Lib.Slots

/-!
# The fixed-degree graph file

Every node has a record of `max_degree + 1` numbers: its degree, its neighbors,
and zeros. The file has its full size from the start, so that the records can be
written in any order and more than once.
-/
namespace ForgeANN

open Lib

/-! ## The writer -/

structure FixedDegreeMemGraphWriter where
  file : Bytes
  numPoints : Nat
  maxDegree : Nat
  recordBytes : Nat

/-- The bytes of a record, in the checked arithmetic of a `usize`. -/
def fixedRecordBytes (maxDegree : Nat) : AnnResult Nat :=
  if 2 ^ 64 ≤ maxDegree + 1 then .error (.index "fixed graph record overflow")
  else if 2 ^ 64 ≤ (maxDegree + 1) * 4 then .error (.index "fixed graph record overflow")
  else .ok ((maxDegree + 1) * 4)

namespace FixedDegreeMemGraphWriter

def create (numPoints maxDegree : Nat) : AnnResult FixedDegreeMemGraphWriter := do
  let recordBytes ← fixedRecordBytes maxDegree
  if 2 ^ 64 ≤ numPoints * recordBytes then .error (.index "fixed graph file overflow")
  else .ok { file := Bytes.setLen [] (numPoints * recordBytes), numPoints, maxDegree, recordBytes }

/-- The record of a row: `degree` of its neighbors behind the degree. -/
def record (recordBytes degree : Nat) (neighbors : List UInt32) : Bytes :=
  (neighbors.take degree).zipIdx.foldl
    (fun record entry => record.writeAt ((entry.2 + 1) * 4) (leU32 entry.1))
    (Bytes.writeAt (List.replicate recordBytes 0) 0 (leU32 (UInt32.ofNat degree)))

/-- The result of a call, and the writer behind it. -/
def writeNode (writer : FixedDegreeMemGraphWriter) (uid : UInt32) (neighbors : List UInt32) :
    AnnResult Unit × FixedDegreeMemGraphWriter :=
  if writer.numPoints ≤ uid.toNat then
    (.error (.index s!"fixed graph node id {uid.toNat} is out of range {writer.numPoints}"), writer)
  else
    let degree := min neighbors.length writer.maxDegree
    let offset := min (uid.toNat * writer.recordBytes) (2 ^ 64 - 1)
    (.ok (), { writer with
      file := writer.file.writeAt offset (record writer.recordBytes degree neighbors) })

/-- One call after the other, whatever the results. -/
def writeNodes (writer : FixedDegreeMemGraphWriter) (calls : List (UInt32 × List UInt32)) :
    FixedDegreeMemGraphWriter :=
  calls.foldl (fun writer call => (writer.writeNode call.1 call.2).2) writer

end FixedDegreeMemGraphWriter

/-! ## The loader -/

/-- The row in the record of `vid`. -/
def decodeRecord (maxDegree vid : Nat) (record : Bytes) : AnnResult (List UInt32) :=
  let degree := (u32OfLe (record.take 4)).toNat
  if maxDegree < degree then
    .error (.index s!"fixed graph node {vid} degree {degree} exceeds max degree {maxDegree}")
  else .ok ((List.range degree).map fun slot => u32OfLe ((record.drop ((slot + 1) * 4)).take 4))

/-- The `left` records from `vid` on. -/
def readRecords (maxDegree recordBytes : Nat) : Nat → Nat → BufReader → AnnResult (List (List UInt32))
  | 0, _, _ => .ok []
  | left + 1, vid, r => do
      let (record, r) ← r.readExact recordBytes
      let row ← decodeRecord maxDegree vid record
      let rows ← readRecords maxDegree recordBytes left (vid + 1) r
      .ok (row :: rows)

def loadFixedDegreeMemGraph (file : Bytes) (expectedNumPoints maxDegree : Nat) :
    AnnResult (List (List UInt32)) := do
  let recordBytes ← fixedRecordBytes maxDegree
  readRecords maxDegree recordBytes expectedNumPoints 0 ⟨file, 0⟩

/-! ## Records -/

/-- What the record of a row comes to. -/
def fixedRecord (recordBytes : Nat) (row : List UInt32) : Bytes :=
  leU32 (degreeOf row) ++ row.flatMap leU32 ++ List.replicate (recordBytes - (row.length + 1) * 4) 0

section

variable {recordBytes maxDegree numPoints uid vid left n : Nat} {row neighbors : List UInt32}

theorem fixedRecord_length (h : (row.length + 1) * 4 ≤ recordBytes) :
    (fixedRecord recordBytes row).length = recordBytes := by
  rw [fixedRecord, List.length_append, List.length_append, leU32_length, flatMap_leU32_length,
    List.length_replicate]
  omega

theorem fixedRecord_nil (h : 4 ≤ recordBytes) :
    fixedRecord recordBytes [] = List.replicate recordBytes 0 := by
  have hzero : leU32 (degreeOf []) = List.replicate 4 0 := by decide
  rw [fixedRecord, hzero, List.flatMap_nil, List.append_nil, List.replicate_append_replicate]
  congr 1
  rw [List.length_nil]
  omega

/-- The neighbors fill the zeros from the front. -/
theorem fill_slots (row : List UInt32) (front : Bytes) {slot zeros : Nat}
    (hfront : front.length = (slot + 1) * 4) (hzeros : row.length * 4 ≤ zeros) :
    (row.zipIdx slot).foldl (fun record entry => record.writeAt ((entry.2 + 1) * 4) (leU32 entry.1))
        (front ++ List.replicate zeros 0) =
      front ++ row.flatMap leU32 ++ List.replicate (zeros - row.length * 4) 0 := by
  induction row generalizing front slot zeros with
  | nil => simp
  | cons v row ih =>
      rw [List.length_cons] at hzeros
      have hsplit : List.replicate zeros (0 : UInt8) =
          List.replicate 4 0 ++ List.replicate (zeros - 4) 0 := by
        rw [List.replicate_append_replicate]
        congr 1
        omega
      have hwrite : Bytes.writeAt (front ++ List.replicate zeros 0) ((slot + 1) * 4) (leU32 v) =
          (front ++ leU32 v) ++ List.replicate (zeros - 4) 0 := by
        rw [hsplit, ← List.append_assoc, ← hfront]
        exact Bytes.writeAt_middle front _ (leU32 v) _ (by rw [leU32_length]; rfl)
          (List.ne_nil_of_length_pos (by rw [leU32_length]; omega))
      have hnext : (front ++ leU32 v).length = (slot + 1 + 1) * 4 := by
        rw [List.length_append, leU32_length, hfront]
        omega
      rw [List.zipIdx_cons, List.foldl_cons, hwrite, ih _ hnext (by omega), List.flatMap_cons,
        List.length_cons, List.append_assoc front]
      congr 2
      omega

theorem record_eq_fixedRecord (h : (min neighbors.length maxDegree + 1) * 4 ≤ recordBytes) :
    FixedDegreeMemGraphWriter.record recordBytes (min neighbors.length maxDegree) neighbors =
      fixedRecord recordBytes (neighbors.take maxDegree) := by
  have htake : neighbors.take (min neighbors.length maxDegree) = neighbors.take maxDegree := by
    rw [List.take_eq_take_iff]
    omega
  have hlen : (neighbors.take maxDegree).length = min neighbors.length maxDegree := by
    rw [List.length_take, Nat.min_comm]
  have hsplit : List.replicate recordBytes (0 : UInt8) =
      List.replicate 4 0 ++ List.replicate (recordBytes - 4) 0 := by
    rw [List.replicate_append_replicate]
    congr 1
    omega
  rw [FixedDegreeMemGraphWriter.record, htake, hsplit, ← hlen]
  rw [Bytes.writeAt_zero_append _ _ _ (by rw [leU32_length]; rfl)
    (List.ne_nil_of_length_pos (by rw [leU32_length]; omega))]
  rw [fill_slots _ _ (by rw [leU32_length]) (by omega), fixedRecord, degreeOf]
  congr 2
  omega

/-- A neighbor stands where the record's order puts it. -/
theorem fixedRecord_slot {i : Nat} (hi : i < row.length) :
    ((fixedRecord recordBytes row).drop ((i + 1) * 4)).take 4 = leU32 row[i] := by
  have hfront : ((row.take i).flatMap leU32).length = i * 4 := by
    rw [flatMap_leU32_length, List.length_take_of_le (Nat.le_of_lt hi)]
  have hsplit : row = row.take i ++ row[i] :: row.drop (i + 1) := by
    rw [← List.drop_eq_getElem_cons hi, List.take_append_drop]
  have hrecord : fixedRecord recordBytes row = (leU32 (degreeOf row) ++ (row.take i).flatMap leU32) ++
      (leU32 row[i] ++ ((row.drop (i + 1)).flatMap leU32 ++
        List.replicate (recordBytes - (row.length + 1) * 4) 0)) := by
    have hflat : row.flatMap leU32 =
        (row.take i).flatMap leU32 ++ (leU32 row[i] ++ (row.drop (i + 1)).flatMap leU32) := by
      rw [← List.flatMap_cons, ← List.flatMap_append, ← hsplit]
    rw [fixedRecord, hflat]
    simp only [List.append_assoc]
  rw [hrecord, List.drop_left' (by rw [List.length_append, leU32_length, hfront]; omega),
    List.take_left' (leU32_length _)]

/-- The loader takes as many neighbors as the 32 bits of the degree say. -/
theorem decodeRecord_fixedRecord (hfit : row.length ≤ maxDegree) :
    decodeRecord maxDegree vid (fixedRecord recordBytes row) =
      .ok (row.take (row.length % 2 ^ 32)) := by
  have hdegree : (u32OfLe ((fixedRecord recordBytes row).take 4)).toNat = row.length % 2 ^ 32 := by
    rw [fixedRecord, List.append_assoc, List.take_left' (leU32_length _), u32OfLe_leU32, degreeOf,
      UInt32.toNat_ofNat']
  have hle : row.length % 2 ^ 32 ≤ row.length := Nat.mod_le ..
  rw [decodeRecord, hdegree, if_neg (by omega)]
  congr 1
  apply List.ext_getElem
  · rw [List.length_map, List.length_range, List.length_take_of_le hle]
  · intro i hi hi'
    rw [List.length_take_of_le hle] at hi'
    rw [List.getElem_map, List.getElem_range, fixedRecord_slot (by omega), u32OfLe_leU32,
      List.getElem_take]

/-! ## Reading all records -/

theorem readRecords_eq {file : Bytes} {rowOf : Nat → List UInt32}
    (hsize : file.length = n * recordBytes)
    (hrows : ∀ uid < n, decodeRecord maxDegree uid (slot recordBytes file uid) = .ok (rowOf uid))
    (hleft : vid + left = n) :
    readRecords maxDegree recordBytes left vid ⟨file, vid * recordBytes⟩ =
      .ok ((List.range' vid left).map rowOf) := by
  induction left generalizing vid with
  | zero => rfl
  | succ left ih =>
      have hbound : vid * recordBytes + recordBytes ≤ file.length := by
        rw [hsize]
        exact slot_bound recordBytes (by omega)
      have hnext : BufReader.advance ⟨file, vid * recordBytes⟩ recordBytes =
          ⟨file, (vid + 1) * recordBytes⟩ := by
        rw [BufReader.advance, Nat.succ_mul]
      have hread : BufReader.readExact ⟨file, vid * recordBytes⟩ recordBytes =
          .ok (slot recordBytes file vid, ⟨file, (vid + 1) * recordBytes⟩) := by
        rw [BufReader.readExact, if_pos hbound, hnext]
        rfl
      rw [readRecords, hread, ok_bind]
      simp only [hrows vid (by omega), ok_bind, ih (show vid + 1 + left = n by omega), List.range'_succ,
        List.map_cons]

end

/-! ## The last write of a node -/

/-- What the last call for a node gave, cut to `max_degree`; nothing where there was no call. -/
def lastWritten (maxDegree : Nat) (calls : List (UInt32 × List UInt32)) (uid : Nat) : List UInt32 :=
  (calls.reverse.find? fun call => call.1.toNat = uid).elim [] fun call => call.2.take maxDegree

theorem lastWritten_concat (maxDegree : Nat) (calls : List (UInt32 × List UInt32))
    (call : UInt32 × List UInt32) (uid : Nat) :
    lastWritten maxDegree (calls ++ [call]) uid =
      if call.1.toNat = uid then call.2.take maxDegree else lastWritten maxDegree calls uid := by
  rw [lastWritten, List.reverse_concat, List.find?_cons]
  by_cases h : call.1.toNat = uid
  · rw [if_pos h, decide_eq_true h]
    rfl
  · rw [if_neg h, decide_eq_false h]
    rfl

theorem lastWritten_length_le (maxDegree : Nat) (calls : List (UInt32 × List UInt32)) (uid : Nat) :
    (lastWritten maxDegree calls uid).length ≤ maxDegree := by
  rw [lastWritten]
  cases calls.reverse.find? fun call => call.1.toNat = uid with
  | none => exact Nat.zero_le _
  | some call => exact List.length_take_le ..

namespace FixedDegreeMemGraphWriter

/-- A file whose records are those of the given rows. -/
structure Stores (writer : FixedDegreeMemGraphWriter) (rowOf : Nat → List UInt32) : Prop where
  record_bytes : writer.recordBytes = (writer.maxDegree + 1) * 4
  size : writer.file.length = writer.numPoints * writer.recordBytes
  addressable : writer.numPoints * writer.recordBytes < 2 ^ 64
  records : ∀ uid < writer.numPoints,
    slot writer.recordBytes writer.file uid = fixedRecord writer.recordBytes (rowOf uid)

variable {writer : FixedDegreeMemGraphWriter} {numPoints maxDegree : Nat}

theorem create_eq (h : create numPoints maxDegree = .ok writer) :
    fixedRecordBytes maxDegree = .ok ((maxDegree + 1) * 4) ∧
      numPoints * ((maxDegree + 1) * 4) < 2 ^ 64 ∧
      writer = ⟨List.replicate (numPoints * ((maxDegree + 1) * 4)) 0, numPoints, maxDegree,
        (maxDegree + 1) * 4⟩ := by
  rw [create, fixedRecordBytes] at h
  split_ifs at h with hadd hmul
  · cases h
  · cases h
  · rw [ok_bind] at h
    split_ifs at h with htotal
    refine ⟨by rw [fixedRecordBytes, if_neg hadd, if_neg hmul], by omega, ?_⟩
    have hzeros : Bytes.setLen [] (numPoints * ((maxDegree + 1) * 4)) =
        List.replicate (numPoints * ((maxDegree + 1) * 4)) 0 := by
      simp [Bytes.setLen, Bytes.readAt, Bytes.at']
    rw [← Except.ok.inj h, hzeros]

theorem create_stores (h : create numPoints maxDegree = .ok writer) :
    writer.Stores fun _ => [] := by
  obtain ⟨-, htotal, rfl⟩ := create_eq h
  refine ⟨rfl, List.length_replicate, htotal, fun uid huid => ?_⟩
  change uid < numPoints at huid
  have hbound := slot_bound ((maxDegree + 1) * 4) huid
  show slot ((maxDegree + 1) * 4) (List.replicate _ 0) uid = fixedRecord ((maxDegree + 1) * 4) []
  rw [fixedRecord_nil (by omega), slot, List.drop_replicate, List.take_replicate]
  congr 1
  omega

/-- A call for a node outside the file fails, and changes nothing. -/
theorem writeNode_out_of_range {uid : UInt32} (h : writer.numPoints ≤ uid.toNat)
    (neighbors : List UInt32) :
    writer.writeNode uid neighbors =
      (.error (.index s!"fixed graph node id {uid.toNat} is out of range {writer.numPoints}"), writer) :=
  if_pos h

theorem Stores.record_eq {rowOf : Nat → List UInt32} (hw : writer.Stores rowOf)
    (neighbors : List UInt32) :
    record writer.recordBytes (min neighbors.length writer.maxDegree) neighbors =
      fixedRecord writer.recordBytes (neighbors.take writer.maxDegree) := by
  have hbytes := hw.record_bytes
  exact record_eq_fixedRecord (by omega)

theorem Stores.fixedRecord_length {rowOf : Nat → List UInt32} (hw : writer.Stores rowOf)
    (neighbors : List UInt32) :
    (fixedRecord writer.recordBytes (neighbors.take writer.maxDegree)).length =
      writer.recordBytes := by
  apply ForgeANN.fixedRecord_length
  rw [List.length_take, hw.record_bytes]
  omega

/-- A call puts the record of its row into the node's slot. -/
theorem Stores.writeNode_eq {rowOf : Nat → List UInt32} (hw : writer.Stores rowOf) {uid : UInt32}
    (h : uid.toNat < writer.numPoints) (neighbors : List UInt32) :
    writer.writeNode uid neighbors = (.ok (), { writer with
      file := setSlot writer.recordBytes writer.file uid.toNat
        (fixedRecord writer.recordBytes (neighbors.take writer.maxDegree)) }) := by
  have hbytes := hw.record_bytes
  have hoffset : min (uid.toNat * writer.recordBytes) (2 ^ 64 - 1) =
      uid.toNat * writer.recordBytes := by
    have hbound := slot_bound writer.recordBytes h
    have haddr := hw.addressable
    omega
  have hlen := hw.fixedRecord_length neighbors
  rw [writeNode, if_neg (Nat.not_le_of_lt h)]
  have hrecord := hw.record_eq neighbors
  simp only [hoffset, hrecord]
  rw [writeAt_slot hw.size h hlen (by omega)]

theorem Stores.writeNode {rowOf : Nat → List UInt32} (hw : writer.Stores rowOf) (uid : UInt32)
    (neighbors : List UInt32) :
    (writer.writeNode uid neighbors).2.Stores fun node =>
      if uid.toNat = node then neighbors.take writer.maxDegree else rowOf node := by
  by_cases h : uid.toNat < writer.numPoints
  · have hlen := hw.fixedRecord_length neighbors
    rw [hw.writeNode_eq h]
    refine ⟨hw.record_bytes, setSlot_length hw.size h hlen, hw.addressable, fun node hnode => ?_⟩
    show slot writer.recordBytes (setSlot writer.recordBytes writer.file uid.toNat _) node = _
    by_cases hself : uid.toNat = node
    · rw [if_pos hself, ← hself, slot_setSlot_self hw.size h hlen]
    · rw [if_neg hself, slot_setSlot_of_ne hw.size h hlen (Ne.symm hself), hw.records node hnode]
  · rw [writeNode_out_of_range (Nat.le_of_not_lt h)]
    refine ⟨hw.record_bytes, hw.size, hw.addressable, fun node hnode => ?_⟩
    have hne : uid.toNat ≠ node := fun heq => h (heq ▸ hnode)
    rw [if_neg hne, hw.records node hnode]

@[simp] theorem writeNode_numPoints (writer : FixedDegreeMemGraphWriter) (uid : UInt32)
    (neighbors : List UInt32) : (writer.writeNode uid neighbors).2.numPoints = writer.numPoints := by
  rw [FixedDegreeMemGraphWriter.writeNode]
  split_ifs <;> rfl

@[simp] theorem writeNode_maxDegree (writer : FixedDegreeMemGraphWriter) (uid : UInt32)
    (neighbors : List UInt32) : (writer.writeNode uid neighbors).2.maxDegree = writer.maxDegree := by
  rw [FixedDegreeMemGraphWriter.writeNode]
  split_ifs <;> rfl

theorem writeNodes_concat (writer : FixedDegreeMemGraphWriter) (calls : List (UInt32 × List UInt32))
    (call : UInt32 × List UInt32) :
    writer.writeNodes (calls ++ [call]) = ((writer.writeNodes calls).writeNode call.1 call.2).2 := by
  rw [writeNodes, List.foldl_concat]
  rfl

@[simp] theorem writeNodes_numPoints (writer : FixedDegreeMemGraphWriter)
    (calls : List (UInt32 × List UInt32)) : (writer.writeNodes calls).numPoints = writer.numPoints := by
  induction calls using List.reverseRecOn with
  | nil => rfl
  | append_singleton calls call ih => rw [writeNodes_concat, writeNode_numPoints, ih]

@[simp] theorem writeNodes_maxDegree (writer : FixedDegreeMemGraphWriter)
    (calls : List (UInt32 × List UInt32)) : (writer.writeNodes calls).maxDegree = writer.maxDegree := by
  induction calls using List.reverseRecOn with
  | nil => rfl
  | append_singleton calls call ih => rw [writeNodes_concat, writeNode_maxDegree, ih]

/-- After any calls the file stores the last row of every node. -/
theorem Stores.writeNodes (hw : writer.Stores fun _ => []) (calls : List (UInt32 × List UInt32)) :
    (writer.writeNodes calls).Stores (lastWritten writer.maxDegree calls) := by
  induction calls using List.reverseRecOn with
  | nil => exact hw
  | append_singleton calls call ih =>
      rw [writeNodes_concat]
      have hstep := ih.writeNode call.1 call.2
      rw [writeNodes_maxDegree] at hstep
      have hrows : lastWritten writer.maxDegree (calls ++ [call]) = fun node =>
          if call.1.toNat = node then call.2.take writer.maxDegree
          else lastWritten writer.maxDegree calls node :=
        funext (lastWritten_concat writer.maxDegree calls call)
      rw [hrows]
      exact hstep

/-- Where the degree does not fit 32 bits, the loader cuts the row at the bits that are left. -/
theorem load_writeNodes (h : create numPoints maxDegree = .ok writer)
    (calls : List (UInt32 × List UInt32)) :
    loadFixedDegreeMemGraph (writer.writeNodes calls).file numPoints maxDegree =
      .ok ((List.range numPoints).map fun uid => (lastWritten maxDegree calls uid).take
        ((lastWritten maxDegree calls uid).length % 2 ^ 32)) := by
  have hstores := (create_stores h).writeNodes calls
  obtain ⟨hbytes, -, hwriter⟩ := create_eq h
  have hpoints : (writer.writeNodes calls).numPoints = numPoints := by
    rw [writeNodes_numPoints, hwriter]
  have hmax : writer.maxDegree = maxDegree := by
    rw [hwriter]
  have hsize := hstores.size
  have hrecords := hstores.records
  rw [hstores.record_bytes, writeNodes_maxDegree, hmax, hpoints] at hsize hrecords
  have hdecode : ∀ uid < numPoints, decodeRecord maxDegree uid
      (slot ((maxDegree + 1) * 4) (writer.writeNodes calls).file uid) =
        .ok ((lastWritten maxDegree calls uid).take
          ((lastWritten maxDegree calls uid).length % 2 ^ 32)) := by
    intro uid huid
    rw [hrecords uid huid]
    exact decodeRecord_fixedRecord (lastWritten_length_le maxDegree calls uid)
  have hread := readRecords_eq hsize hdecode (Nat.zero_add numPoints)
  rw [Nat.zero_mul, ← List.range_eq_range'] at hread
  rw [loadFixedDegreeMemGraph, hbytes, ok_bind, hread]

end FixedDegreeMemGraphWriter

/-! ## The file as a map of last writes -/

/-- The loader finds the last row of every node, and the calls for other nodes fail and change
nothing. -/
def LastWriteMap (numPoints maxDegree : Nat) (writer : FixedDegreeMemGraphWriter)
    (calls : List (UInt32 × List UInt32)) : Prop :=
  loadFixedDegreeMemGraph (writer.writeNodes calls).file numPoints maxDegree =
      .ok ((List.range numPoints).map (lastWritten maxDegree calls)) ∧
    ∀ uid neighbors, numPoints ≤ uid.toNat →
      (writer.writeNodes calls).writeNode uid neighbors =
        (.error (.index s!"fixed graph node id {uid.toNat} is out of range {numPoints}"),
          writer.writeNodes calls)

section

variable {numPoints maxDegree : Nat} {writer : FixedDegreeMemGraphWriter}

theorem LastWriteMap.length_lt (h : FixedDegreeMemGraphWriter.create numPoints maxDegree = .ok writer)
    {calls : List (UInt32 × List UInt32)} (hmap : LastWriteMap numPoints maxDegree writer calls)
    {uid : Nat} (huid : uid < numPoints) : (lastWritten maxDegree calls uid).length < 2 ^ 32 := by
  have hload := hmap.1
  rw [FixedDegreeMemGraphWriter.load_writeNodes h calls] at hload
  have hrow := List.map_inj_left.mp (Except.ok.inj hload) uid (List.mem_range.mpr huid)
  have hlen := congrArg List.length hrow
  rw [List.length_take_of_le (Nat.mod_le ..)] at hlen
  rw [← hlen]
  exact Nat.mod_lt _ (by omega)

/-- The file is such a map for just the calls that leave every degree below 2^32. -/
theorem lastWriteMap_iff (h : FixedDegreeMemGraphWriter.create numPoints maxDegree = .ok writer)
    (calls : List (UInt32 × List UInt32)) :
    LastWriteMap numPoints maxDegree writer calls ↔
      ∀ uid < numPoints, (lastWritten maxDegree calls uid).length < 2 ^ 32 := by
  refine ⟨fun hmap uid huid => hmap.length_lt h huid, fun hfit => ⟨?_, ?_⟩⟩
  · rw [FixedDegreeMemGraphWriter.load_writeNodes h calls]
    congr 1
    apply List.map_congr_left
    intro uid huid
    rw [Nat.mod_eq_of_lt (hfit uid (List.mem_range.mp huid)), List.take_length]
  · intro uid neighbors huid
    obtain ⟨-, -, hwriter⟩ := FixedDegreeMemGraphWriter.create_eq h
    have hpoints : (writer.writeNodes calls).numPoints = numPoints := by
      rw [FixedDegreeMemGraphWriter.writeNodes_numPoints, hwriter]
    have hout := FixedDegreeMemGraphWriter.writeNode_out_of_range (hpoints.symm ▸ huid) neighbors
    rw [hpoints] at hout
    exact hout

/-- A node written twice, one never written, and one outside the file. -/
theorem lastWriteMap_iff_two_points :
    ∃ writer, FixedDegreeMemGraphWriter.create 2 1 = .ok writer ∧
      (LastWriteMap 2 1 writer [(1, [5, 6]), (7, [1]), (1, [4])] ↔
        ∀ uid < 2, (lastWritten 1 [(1, [5, 6]), (7, [1]), (1, [4])] uid).length < 2 ^ 32) :=
  ⟨_, rfl, lastWriteMap_iff rfl _⟩

/-- A node of 2^32 neighbors gets the degree 0. -/
theorem wideNode_not_read_back :
    ∃ writer, FixedDegreeMemGraphWriter.create 1 (2 ^ 32) = .ok writer ∧
      ¬ LastWriteMap 1 (2 ^ 32) writer [(0, List.replicate (2 ^ 32) 0)] := by
  have hcreate : FixedDegreeMemGraphWriter.create 1 (2 ^ 32) =
      .ok ⟨Bytes.setLen [] (1 * ((2 ^ 32 + 1) * 4)), 1, 2 ^ 32, (2 ^ 32 + 1) * 4⟩ := by
    rw [FixedDegreeMemGraphWriter.create, fixedRecordBytes, if_neg (by omega), if_neg (by omega),
      ok_bind, if_neg (by omega)]
  refine ⟨_, hcreate, fun hmap => ?_⟩
  have hlt := hmap.length_lt hcreate Nat.zero_lt_one
  have hlast : lastWritten (2 ^ 32) [(0, List.replicate (2 ^ 32) 0)] 0 =
      (List.replicate (2 ^ 32) 0).take (2 ^ 32) :=
    lastWritten_concat (2 ^ 32) [] (0, List.replicate (2 ^ 32) 0) 0
  rw [hlast, List.length_take_of_le (Nat.le_of_eq List.length_replicate.symm)] at hlt
  exact Nat.lt_irrefl _ hlt

end

end ForgeANN
