-- SUMMARY: The level scan leaves each run the records of its points in run order, batch by batch or from a resident buffer.
import ForgeANN.Rbc.LevelScanGroups

/-!
# Routing of a level scan

Whether the runs are scanned batch by batch or assigned from rows in memory,
each run ends up with the records it would get if it were assigned on its own.
-/
namespace ForgeANN

open Lib

variable {Row : Type} {scan : LevelScan Row} {run : D1LevelScanRun Row}

/-- Each run has the records of its points in their order, and for every leader the number of them
that name it: its segments make up the records, and reading them in order delivers them. -/
def Routed (scan : LevelScan Row) (result : D1LevelScanResult) : Prop :=
  ∀ (r : Nat) (run : D1LevelScanRun Row), scan.runs[r]? = some run →
    ∃ (work : D1LevelScanRunWork) (assignment : List (List Nat)), result.workRuns[r]? = some work ∧
    List.Forall₂ (fun point leaders => run.assign (scan.row point) = .ok leaders) run.points
      assignment ∧
    work.rawCounts = (List.range run.leaders).map (fun lid => assignment.flatten.count lid) ∧
    SplitsInto result.assignmentSpool.spool (assignRecordWidth run.fanout) work.assignmentSegments
      ((encodeLeaders assignment).flatMap (recordBytes (assignRecordFanout run.fanout))) ∧
    Delivers (assignRecordFanout run.fanout) (SegmentedAssignmentRecordSource.new
      result.assignmentSpool.spool work.assignmentSegments (assignRecordFanout run.fanout))
      (encodeLeaders assignment)

theorem assigned_runEntries {r : Nat} {points : List UInt32} {assignment : List (List Nat)} :
    Assigned scan run (runEntries r points) assignment ↔
      List.Forall₂ (fun point leaders => run.assign (scan.row point) = .ok leaders) points
        assignment := by
  have hpoints : points = (runEntries r points).map Prod.fst := by
    rw [runEntries, List.map_map]
    exact (List.zipIdx_map_fst 0 points).symm
  conv_rhs => rw [hpoints, List.forall₂_map_left_iff]
  rfl

theorem Recorded.routed {result : D1LevelScanResult}
    (h : ∀ r run, scan.runs[r]? = some run → Recorded scan result r run (runEntries r run.points)) :
    Routed scan result := by
  intro r run hr
  obtain ⟨work, assignment, hwork, hassigned, hfits, hcounts, hsplits⟩ := (h r run hr).work
  refine ⟨work, assignment, hwork, assigned_runEntries.mp hassigned,
    hcounts.trans leaderCounts_eq, hsplits, ?_⟩
  have hcap := (assignRecordFanout_bounds run.fanout).2
  have hwidth : assignRecordWidth (assignRecordFanout run.fanout) =
      1 + 2 * assignRecordFanout run.fanout := by
    rw [assignRecordWidth, assignRecordFanout_idem]
  refine SegmentedAssignmentRecordSource.delivers hcap ?_ hwidth ?_
  · intro leaders hleaders
    obtain ⟨lids, hlids, rfl⟩ := List.mem_map.mp hleaders
    rw [List.length_map]
    exact (hfits lids hlids).1
  · refine SegmentedAssignmentRecordSource.new_pending ?_
    rw [hwidth]
    exact hsplits

/-! ## Batch by batch -/

variable {runs : List (List UInt32)} {maxUniquePoints : Nat} {heap : D1LevelScanHeap}
  {plans : List D1LevelScanBatchPlan}

/-- Within a batch too, a run's points are in their order. -/
theorem PlansTo.share_increasing (h : PlansTo runs maxUniquePoints (startHeap runs) plans heap)
    {plan : D1LevelScanBatchPlan} (hplan : plan ∈ plans) (r : Nat) :
    (runShare r plan.entries).Pairwise fun a b => a.2.localIdx < b.2.localIdx := by
  have hall : (runShare r (plans.flatMap D1LevelScanBatchPlan.entries)).Pairwise
      fun a b => a.2.localIdx < b.2.localIdx := by
    have hrange := (h.frontier startHeap_frontier).inOrder r
    rw [List.nil_append] at hrange
    rw [← List.pairwise_map (f := fun entry : UInt32 × D1LevelScanOccurrence => entry.2.localIdx)
      (R := (· < ·)), hrange]
    exact List.pairwise_lt_range
  refine hall.sublist ((List.sublist_flatten_of_mem ?_).filter _)
  exact List.mem_map_of_mem hplan

theorem recorded_foldlM {result result' : D1LevelScanResult} {r : Nat}
    {entries : List (UInt32 × D1LevelScanOccurrence)} (hr : scan.runs[r]? = some run)
    (hshare : ∀ plan ∈ plans, ∀ r, (runShare r plan.entries).Pairwise
      fun a b => a.2.localIdx < b.2.localIdx)
    (h : Recorded scan result r run entries)
    (hscan : plans.foldlM (fun result plan => do
      let outputs ← scan.processPlan plan
      .ok (result.applyD1LevelScanComputedBatch outputs)) result = .ok result') :
    Recorded scan result' r run
      (entries ++ runShare r (plans.flatMap D1LevelScanBatchPlan.entries)) := by
  refine foldlM_induction (P := fun done result => Recorded scan result r run
    (entries ++ runShare r (done.flatMap D1LevelScanBatchPlan.entries))) ?_ ?_ hscan
  · intro done plan hplan result next hrecorded hstep
    obtain ⟨outputs, hprocess, happlied⟩ := bind_eq_ok.mp hstep
    cases happlied
    obtain ⟨size, hsize, hcomputes⟩ := processPlan_computes (hshare plan hplan) hprocess
    rw [List.flatMap_append, List.flatMap_singleton, runShare_append, ← List.append_assoc]
    exact hrecorded.applyTasks hr hcomputes hsize
  · rw [List.flatMap_nil, runShare, List.filter_nil, List.append_nil]
    exact h

theorem points_getElem? {r : Nat} (hr : scan.runs[r]? = some run) :
    scan.points[r]? = some run.points := by
  rw [LevelScan.points, List.getElem?_map, hr, Option.map_some]

/-- Batches of any size, read, computed and applied one after the other, route every record. -/
theorem sequentialScan_routed {result : D1LevelScanResult}
    (hplans : PlansTo scan.points maxUniquePoints (startHeap scan.points) plans [])
    (h : scan.sequentialScan plans = .ok result) : Routed scan result := by
  refine Recorded.routed fun r run hr => ?_
  have hrecorded := recorded_foldlM hr (fun plan hplan => hplans.share_increasing hplan)
    (start_recorded hr) h
  rw [List.nil_append, hplans.runShare_eq (points_getElem? hr)] at hrecorded
  exact hrecorded

/-! ## From the resident buffer -/

section

variable {ids pointIds : List UInt32} {offsets : List Nat}

theorem cursorOffsets_ok {cursor : Nat} (h : cursorOffsets ids cursor pointIds = .ok offsets) :
    List.Forall₂ (fun pid offset => ids[offset]? = some pid) pointIds offsets := by
  induction pointIds generalizing cursor offsets with
  | nil =>
      cases h
      exact .nil
  | cons pid pointIds ih =>
      simp only [cursorOffsets] at h
      split_ifs at h with hpid
      cases hrest : cursorOffsets ids (cursor +
          ((ids.drop cursor).takeWhile (· < pid)).length) pointIds with
      | error e =>
          rw [hrest] at h
          cases h
      | ok rest =>
          rw [hrest] at h
          cases h
          exact .cons hpid (ih hrest)

theorem searchOffsets_ok (h : searchOffsets ids pointIds = .ok offsets) :
    List.Forall₂ (fun pid offset => ids[offset]? = some pid) pointIds offsets := by
  refine (forall₂_of_mapM h).imp fun pid offset hfind => ?_
  cases hidx : ids.findIdx? (· = pid) with
  | none =>
      rw [hidx] at hfind
      cases hfind
  | some i =>
      rw [hidx] at hfind
      cases hfind
      obtain ⟨hlt, hpid, -⟩ := List.findIdx?_eq_some_iff_getElem.mp hidx
      rw [List.getElem?_eq_getElem hlt, of_decide_eq_true hpid]

theorem d1ResidentSourceOffsets_ok (h : d1ResidentSourceOffsets ids pointIds = .ok offsets) :
    List.Forall₂ (fun pid offset => ids[offset]? = some pid) pointIds offsets := by
  rw [d1ResidentSourceOffsets] at h
  split_ifs at h
  · exact cursorOffsets_ok h
  · exact searchOffsets_ok h

end

def residentShares (scan : LevelScan Row) : Shares :=
  fun r => runEntries r (scan.points[r]?.getD [])

theorem runEntries_getElem? {r : Nat} {points : List UInt32} {i : Nat} :
    (runEntries r points)[i]? = points[i]?.map fun point => (point, ⟨r, i⟩) := by
  rw [runEntries, List.getElem?_map, List.getElem?_zipIdx, Option.map_map, Nat.zero_add]
  rfl

theorem buildResidentTasks_eq (chunkPoints : Nat) :
    buildD1ResidentLevelScanComputeTasks scan.points chunkPoints =
      allTasks (residentShares scan) (max chunkPoints 1) scan.points.length := by
  have hpoints : ∀ r < scan.points.length, scan.points[r]? = some (scan.points[r]?.getD []) := by
    intro r hr
    rw [List.getElem?_eq_getElem hr, Option.getD_some]
  have hsize : 0 < max chunkPoints 1 := Nat.lt_of_lt_of_le Nat.one_pos (Nat.le_max_right ..)
  rw [buildD1ResidentLevelScanComputeTasks, zipIdx_eq_map_range hpoints, List.flatMap_map, allTasks]
  refine List.flatMap_congr fun r _ => ?_
  have hlen : (residentShares scan r).length = (scan.points[r]?.getD []).length := by
    rw [residentShares, runEntries, List.length_map, List.length_zipIdx]
  have hlast : ∀ p ∈ stepBy (max chunkPoints 1) (scan.points[r]?.getD []).length,
      ((residentShares scan r)[p.1]?.map fun entry =>
        (⟨r, p.1, p.2, entry.2.localIdx⟩ : D1LevelScanComputeTask)) = some ⟨r, p.1, p.2, p.1⟩ := by
    intro p hp
    rw [residentShares, runEntries_getElem?, List.getElem?_eq_getElem (stepBy_lt hsize hp)]
    rfl
  rw [tasksOf, hlen, List.filterMap_congr hlast, List.filterMap_eq_map']

theorem residentShares_increasing (r : Nat) :
    (residentShares scan r).Pairwise fun a b => a.2.localIdx < b.2.localIdx := by
  rw [List.pairwise_iff_getElem]
  intro i j hi hj hij
  have hget : ∀ k (hk : k < (residentShares scan r).length),
      (residentShares scan r)[k].2.localIdx = k := by
    intro k hk
    have hk' : (runEntries r (scan.points[r]?.getD []))[k]? = some (residentShares scan r)[k] :=
      List.getElem?_eq_getElem hk
    rw [runEntries_getElem?] at hk'
    obtain ⟨point, -, hpoint⟩ := Option.map_eq_some_iff.mp hk'
    exact (congrArg (fun entry => entry.2.localIdx) hpoint).symm
  rw [hget i hi, hget j hj]
  exact hij

/-- Offsets that find each point's row assign the points as they are by themselves. -/
theorem assigned_of_offsets {resident : scan.ResidentRows} {pointIds : List UInt32}
    {offsets : List Nat} {assignment : List (List Nat)}
    (hoffsets : List.Forall₂ (fun pid offset => resident.ids[offset]? = some pid) pointIds offsets)
    (h : assignLoadedPointIndexedAdsamplingLayout run pointIds resident.data offsets =
      .ok assignment) :
    List.Forall₂ (fun point leaders => run.assign (scan.row point) = .ok leaders) pointIds
      assignment := by
  have hrows := forall₂_of_mapM (assignLoaded_ok h)
  clear h
  induction hoffsets generalizing assignment with
  | nil =>
      cases hrows
      exact .nil
  | cons hoffset _ ih =>
      cases hrows with
      | cons hrow hrest =>
          refine .cons ?_ (ih hrest)
          rw [resident.data_eq, List.getElem?_map, hoffset] at hrow
          exact hrow

theorem residentTask_encodes {resident : scan.ResidentRows} {task : D1LevelScanComputeTask}
    {output : D1LevelScanRunBatchOutput} (h : scan.residentTask resident task = .ok output) :
    (∃ run assignment, Encodes scan (taskEntries (residentShares scan) task) run assignment output) ∧
      output.key = toLex (task.runIdx, task.runPointStart) := by
  rw [LevelScan.residentTask] at h
  cases hrun : scan.runs[task.runIdx]? with
  | none =>
      rw [hrun] at h
      cases h
  | some run =>
      rw [hrun] at h
      simp only at h
      cases hoffsets : d1ResidentSourceOffsets resident.ids
          (subslice run.points task.pointStart task.pointEnd) with
      | error e =>
          rw [hoffsets] at h
          cases h
      | ok offsets =>
          rw [hoffsets, ok_bind] at h
          cases hassign : assignLoadedPointIndexedAdsamplingLayout run
              (subslice run.points task.pointStart task.pointEnd) resident.data offsets with
          | error e =>
              rw [hassign] at h
              cases h
          | ok assignment =>
              rw [hassign, ok_bind] at h
              have hpoints := assigned_of_offsets (d1ResidentSourceOffsets_ok hoffsets) hassign
              have hentries : (taskEntries (residentShares scan) task).map Prod.fst =
                  subslice run.points task.pointStart task.pointEnd := by
                have hfst : (runEntries task.runIdx run.points).map Prod.fst = run.points := by
                  rw [runEntries, List.map_map]
                  exact List.zipIdx_map_fst 0 run.points
                rw [taskEntries, ← subslice_map, residentShares, points_getElem? hrun,
                  Option.getD_some, hfst]
              rw [← hentries, List.forall₂_map_left_iff] at hpoints
              obtain ⟨hencodes, hidx, hstart⟩ := buildOutput_encodes hrun hpoints h
              refine ⟨⟨_, _, hencodes⟩, ?_⟩
              rw [D1LevelScanRunBatchOutput.key, hidx, hstart]

/-- The rows in memory, in chunks of any size, route every record. -/
theorem residentScan_routed {resident : scan.ResidentRows} {result : D1LevelScanResult}
    (h : scan.runD1ResidentAdsBufferPipeline resident = .ok result) : Routed scan result := by
  rw [LevelScan.runD1ResidentAdsBufferPipeline] at h
  split_ifs at h
  simp only [buildResidentTasks_eq] at h
  generalize hsize : max (scan.chunkPoints (scan.points.map List.length).sum) 1 = size at h
  have hpos : 0 < size := hsize ▸ Nat.lt_of_lt_of_le Nat.one_pos (Nat.le_max_right ..)
  have hlen : scan.points.length = scan.runs.length := List.length_map _
  rw [hlen] at h
  cases htasks : (allTasks (residentShares scan) size scan.runs.length).mapM
      (scan.residentTask resident) with
  | error e =>
      rw [htasks] at h
      cases h
  | ok outputs =>
      rw [htasks, ok_bind] at h
      have hcomputes : Computes scan (residentShares scan)
          (allTasks (residentShares scan) size scan.runs.length) outputs :=
        (forall₂_of_mapM htasks).imp fun _ _ htask => residentTask_encodes htask
      rw [hcomputes.sort_eq hpos residentShares_increasing] at h
      cases h
      refine Recorded.routed fun r run hr => ?_
      have hrecorded := (start_recorded hr).applyTasks hr hcomputes hpos
      rw [List.nil_append, residentShares, points_getElem? hr, Option.getD_some] at hrecorded
      exact hrecorded

end ForgeANN
