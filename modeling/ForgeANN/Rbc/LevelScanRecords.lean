-- SUMMARY: What a batch of the level scan leaves of each run: the records of the run's share, in order, and their counts.
import ForgeANN.Lib.Except
import ForgeANN.Rbc.LeaderIndex
import ForgeANN.Rbc.LevelScanBatches

/-!
# Records of a level scan

The outputs of a batch are sorted by their run and where they start in it. For
one run these are the chunks of its share, in order; so its segments, read in
order, are the records of its points, in order.
-/
namespace ForgeANN

open Lib

variable {Row : Type} {scan : LevelScan Row} {run : D1LevelScanRun Row}

/-! ## Records and counts -/

/-- The leaders of the points of some entries, assigned by themselves. -/
def Assigned (scan : LevelScan Row) (run : D1LevelScanRun Row)
    (entries : List (UInt32 × D1LevelScanOccurrence)) (assignment : List (List Nat)) : Prop :=
  List.Forall₂ (fun entry leaders => run.assign (scan.row entry.1) = .ok leaders) entries assignment

def runRecords (fanout : Nat) (assignment : List (List Nat)) : Bytes :=
  (encodeLeaders assignment).flatMap (recordBytes (assignRecordFanout fanout))

theorem runRecords_append (fanout : Nat) (a b : List (List Nat)) :
    runRecords fanout (a ++ b) = runRecords fanout a ++ runRecords fanout b := by
  rw [runRecords, encodeLeaders, List.map_append, List.flatMap_append]
  rfl

/-- The counts of two parts add up. -/
theorem leaderCounts_append (n : Nat) (a b : List (List Nat)) :
    leaderCounts n (a ++ b) = (leaderCounts n a).zipWith (· + ·) (leaderCounts n b) := by
  rw [leaderCounts_eq, leaderCounts_eq, leaderCounts_eq, List.zipWith_map, List.zipWith_self]
  apply List.map_congr_left
  intro i _
  rw [List.flatten_append, List.count_append]

/-- Every record is one that fits, and names leaders there are. -/
def Fits (run : D1LevelScanRun Row) (assignment : List (List Nat)) : Prop :=
  ∀ leaders ∈ assignment, leaders.length ≤ assignRecordFanout run.fanout ∧
    ∀ lid ∈ leaders, lid < run.leaders

theorem runRecords_length {assignment : List (List Nat)} (h : Fits run assignment) :
    (runRecords run.fanout assignment).length =
      assignment.length * assignRecordWidth run.fanout := by
  induction assignment with
  | nil => exact (Nat.zero_mul _).symm
  | cons leaders assignment ih =>
      have hrest := ih fun l hl => h l (List.mem_cons_of_mem _ hl)
      have hle : (leaders.map UInt16.ofNat).length ≤ assignRecordFanout run.fanout := by
        rw [List.length_map]
        exact (h leaders List.mem_cons_self).1
      have hcons : runRecords run.fanout (leaders :: assignment) =
          recordBytes (assignRecordFanout run.fanout) (leaders.map UInt16.ofNat) ++
            runRecords run.fanout assignment := rfl
      have hsucc : (leaders :: assignment).length * assignRecordWidth run.fanout =
          assignment.length * assignRecordWidth run.fanout + assignRecordWidth run.fanout :=
        Nat.succ_mul ..
      rw [hcons, List.length_append, recordBytes_length hle, hrest, hsucc, Nat.add_comm]
      rfl

theorem addRecord_ok {acc acc' : Bytes × List Nat} {leaders : List Nat}
    (h : addRecord run acc leaders = .ok acc') : Fits run [leaders] ∧
      acc' = (acc.1 ++ runRecords run.fanout [leaders], countLids acc.2 leaders) := by
  rw [addRecord] at h
  split_ifs at h with hrange
  simp only [appendAssignRecordBytes, List.length_map] at h
  split_ifs at h with hcap
  · cases h
  rw [ok_bind] at h
  cases h
  refine ⟨fun l hl => ?_, ?_⟩
  · rw [List.mem_singleton.mp hl]
    exact ⟨Nat.le_of_not_lt hcap, fun lid hlid => by simpa using List.all_eq_true.mp hrange.1 lid hlid⟩
  · simp [runRecords, encodeLeaders]

theorem foldlM_addRecord_ok {acc acc' : Bytes × List Nat} {assignment : List (List Nat)}
    (h : assignment.foldlM (addRecord run) acc = .ok acc') : Fits run assignment ∧
      acc' = (acc.1 ++ runRecords run.fanout assignment, assignment.foldl countLids acc.2) := by
  refine foldlM_induction (P := fun added acc' => Fits run added ∧
    acc' = (acc.1 ++ runRecords run.fanout added, added.foldl countLids acc.2)) ?_ ?_ h
  · rintro added leaders - _ acc' ⟨hfits, rfl⟩ hadd
    obtain ⟨hfit, rfl⟩ := addRecord_ok hadd
    refine ⟨fun l hl => ?_, ?_⟩
    · rcases List.mem_append.mp hl with hl | hl
      · exact hfits l hl
      · exact hfit l hl
    · rw [List.append_assoc, ← runRecords_append, List.foldl_append]
      rfl
  · exact ⟨fun l hl => absurd hl List.not_mem_nil, by simp [runRecords, encodeLeaders]⟩

/-- An output of the scan holds the records of these entries of its run. -/
structure Encodes (scan : LevelScan Row) (entries : List (UInt32 × D1LevelScanOccurrence))
    (run : D1LevelScanRun Row) (assignment : List (List Nat))
    (output : D1LevelScanRunBatchOutput) : Prop where
  run_eq : scan.runs[output.runIdx]? = some run
  assigned : Assigned scan run entries assignment
  fits : Fits run assignment
  bytes : output.assignmentBytes = runRecords run.fanout assignment
  counts : output.rawCounts = leaderCounts run.leaders assignment

theorem buildOutput_encodes {entries : List (UInt32 × D1LevelScanOccurrence)} {r start : Nat}
    {assignment : List (List Nat)} {output : D1LevelScanRunBatchOutput}
    (hrun : scan.runs[r]? = some run) (hassigned : Assigned scan run entries assignment)
    (h : buildD1LevelScanOutput run r start assignment = .ok output) :
    Encodes scan entries run assignment output ∧ output.runIdx = r ∧
      output.runPointStart = start := by
  rw [buildD1LevelScanOutput] at h
  cases hfold : assignment.foldlM (addRecord run) ([], List.replicate run.leaders 0) with
  | error e =>
      rw [hfold] at h
      cases h
  | ok acc =>
      rw [hfold] at h
      cases h
      obtain ⟨hfits, rfl⟩ := foldlM_addRecord_ok hfold
      exact ⟨⟨hrun, hassigned, hfits, rfl, rfl⟩, rfl, rfl⟩

/-! ## The spool -/

theorem SplitsInto.append_spool {spool bytes : Bytes} {width : Nat}
    {segments : List AssignmentSpoolSegment} (h : SplitsInto spool width segments bytes)
    (more : Bytes) : SplitsInto (spool ++ more) width segments bytes where
  aligned := h.aligned
  inside segment hsegment := by
    rw [List.length_append]
    exact (h.inside segment hsegment).trans (Nat.le_add_right ..)
  bytes_eq := by
    rw [← h.bytes_eq]
    refine List.flatMap_congr fun segment hsegment => ?_
    have hinside := h.inside segment hsegment
    have hlonger : segment.offset + segment.len ≤ (spool ++ more).length := by
      rw [List.length_append]
      exact hinside.trans (Nat.le_add_right ..)
    rw [Bytes.readAt_eq_take_drop hlonger, Bytes.readAt_eq_take_drop hinside, List.drop_append,
      List.take_append_of_le_length]
    rw [List.length_drop]
    exact Nat.le_sub_of_add_le (Nat.add_comm .. ▸ hinside)

/-- The bytes just written become the last segment. -/
theorem SplitsInto.push {spool bytes more : Bytes} {width : Nat}
    {segments : List AssignmentSpoolSegment} (h : SplitsInto spool width segments bytes)
    (haligned : more.length % width = 0) :
    SplitsInto (spool ++ more) width (segments ++ [⟨spool.length, more.length⟩])
      (bytes ++ more) where
  aligned segment hsegment := by
    rcases List.mem_append.mp hsegment with hsegment | hsegment
    · exact h.aligned segment hsegment
    · rw [List.mem_singleton.mp hsegment]
      exact haligned
  inside segment hsegment := by
    rcases List.mem_append.mp hsegment with hsegment | hsegment
    · exact (h.append_spool more).inside segment hsegment
    · rw [List.mem_singleton.mp hsegment, List.length_append]
  bytes_eq := by
    have hlast : (spool ++ more).readAt spool.length more.length = more := by
      rw [Bytes.readAt_eq_take_drop (by rw [List.length_append]), List.drop_left, List.take_length]
    rw [List.flatMap_append, (h.append_spool more).bytes_eq, List.flatMap_cons, List.flatMap_nil,
      List.append_nil, hlast]

/-- What the scan has left of a run after these entries of it. -/
structure Recorded (scan : LevelScan Row) (result : D1LevelScanResult) (r : Nat)
    (run : D1LevelScanRun Row) (entries : List (UInt32 × D1LevelScanOccurrence)) : Prop where
  spooled : result.assignmentSpool.writeOffset = result.assignmentSpool.spool.length
  work : ∃ work assignment, result.workRuns[r]? = some work ∧ Assigned scan run entries assignment ∧
    Fits run assignment ∧ work.rawCounts = leaderCounts run.leaders assignment ∧
    SplitsInto result.assignmentSpool.spool (assignRecordWidth run.fanout) work.assignmentSegments
      (runRecords run.fanout assignment)

theorem start_recorded {r : Nat} (hr : scan.runs[r]? = some run) :
    Recorded scan scan.start r run [] where
  spooled := rfl
  work := by
    refine ⟨⟨List.replicate run.leaders 0, []⟩, [], ?_, .nil, fun l hl => absurd hl List.not_mem_nil,
      rfl, ⟨?_, ?_, rfl⟩⟩
    · rw [LevelScan.start, List.getElem?_map, hr]
      rfl
    · exact fun segment hsegment => absurd hsegment List.not_mem_nil
    · exact fun segment hsegment => absurd hsegment List.not_mem_nil

/-- An output is appended to its own run, and leaves the others alone. -/
theorem Recorded.applyOutput {result : D1LevelScanResult} {r : Nat} {run' : D1LevelScanRun Row}
    {entries part : List (UInt32 × D1LevelScanOccurrence)} {assignment : List (List Nat)}
    {output : D1LevelScanRunBatchOutput} (h : Recorded scan result r run entries)
    (hr : scan.runs[r]? = some run) (houtput : Encodes scan part run' assignment output) :
    Recorded scan (result.applyOutput output) r run
      (entries ++ if output.runIdx = r then part else []) := by
  obtain ⟨hspooled, work, before, hwork, hassigned, hfits, hcounts, hsplits⟩ := h
  have hspool : (result.applyOutput output).assignmentSpool.spool =
      result.assignmentSpool.spool ++ output.assignmentBytes := by
    rw [D1LevelScanResult.applyOutput, D1LevelScanAssignmentSpool.append]
    split_ifs with hnil
    · rw [hnil, List.append_nil]
    · rfl
  refine ⟨?_, ?_⟩
  · rw [hspool, D1LevelScanResult.applyOutput, D1LevelScanAssignmentSpool.append]
    split_ifs with hnil
    · rw [hnil, List.append_nil]
      exact hspooled
    · rw [List.length_append, ← hspooled]
  rw [hspool]
  have hruns : (result.applyOutput output).workRuns = result.workRuns.modify output.runIdx fun work =>
      { rawCounts := work.rawCounts.zipWith (· + ·) output.rawCounts
        assignmentSegments := work.assignmentSegments ++
          (result.assignmentSpool.append output.assignmentBytes).1.toList } := rfl
  rw [hruns, List.getElem?_modify, hwork]
  split_ifs with hidx
  · have hrun : run' = run := by
      rw [← hidx, houtput.run_eq, Option.some.injEq] at hr
      exact hr
    subst hrun
    refine ⟨_, before ++ assignment, rfl, List.rel_append hassigned houtput.assigned, ?_, ?_, ?_⟩
    · intro leaders hleaders
      rcases List.mem_append.mp hleaders with hleaders | hleaders
      · exact hfits leaders hleaders
      · exact houtput.fits leaders hleaders
    · rw [leaderCounts_append, ← hcounts, ← houtput.counts]
    · rw [runRecords_append, ← houtput.bytes, D1LevelScanAssignmentSpool.append, hspooled]
      split_ifs with hnil
      · rw [hnil, List.append_nil, List.append_nil]
        simp only [Option.toList_none, List.append_nil]
        exact hsplits
      · refine hsplits.push ?_
        rw [houtput.bytes, runRecords_length houtput.fits]
        exact Nat.mul_mod_left ..
  · rw [List.append_nil]
    exact ⟨work, before, rfl, hassigned, hfits, hcounts, hsplits.append_spool _⟩

theorem Recorded.applyOutputs {result : D1LevelScanResult} {r : Nat}
    {entries : List (UInt32 × D1LevelScanOccurrence)}
    {parts : List (List (UInt32 × D1LevelScanOccurrence))}
    {outputs : List D1LevelScanRunBatchOutput} (h : Recorded scan result r run entries)
    (hr : scan.runs[r]? = some run)
    (houtputs : List.Forall₂ (fun part output => ∃ run' assignment,
      Encodes scan part run' assignment output) parts outputs) :
    Recorded scan (result.applyD1LevelScanComputedBatch outputs) r run
      (entries ++ (parts.zip outputs).flatMap fun p => if p.2.runIdx = r then p.1 else []) := by
  induction houtputs generalizing result entries with
  | nil =>
      rw [List.zip_nil_left, List.flatMap_nil, List.append_nil]
      exact h
  | cons houtput _ ih =>
      obtain ⟨run', assignment, houtput⟩ := houtput
      have hrest := ih (h.applyOutput hr houtput)
      rw [List.append_assoc] at hrest
      exact hrest

end ForgeANN
