-- SUMMARY: Reading and computing a batch of the level scan: its tasks are the chunks of each run's share.
import ForgeANN.Rbc.LevelScanTasks
import Mathlib.Data.List.Induction

/-!
# Groups of a level scan

Grouping a batch by runs keeps the order of its occurrences, with the place of
each point's row beside it.
-/
namespace ForgeANN

open Lib

variable {Row : Type} {scan : LevelScan Row} {run : D1LevelScanRun Row}
  {plan : D1LevelScanBatchPlan}

/-! ## What a run gets of a batch -/

abbrev PlacedOccurrence := UInt32 × Nat × D1LevelScanOccurrence

def pushPlaced (input : Option D1LevelScanRunBatchInput) (placed : PlacedOccurrence) :
    Option D1LevelScanRunBatchInput :=
  some (.push input placed.1 placed.2.1 placed.2.2.localIdx)

def inputOf (share : List PlacedOccurrence) : Option D1LevelScanRunBatchInput :=
  share.foldl pushPlaced none

def placedShare (r : Nat) (plan : D1LevelScanBatchPlan) : List PlacedOccurrence :=
  plan.occurrences.filter fun placed => placed.2.2.runIdx = r

theorem inputOf_eq {share : List PlacedOccurrence} (h : share ≠ []) :
    inputOf share = some ⟨share.map fun placed => placed.1, share.map fun placed => placed.2.1,
      share.map fun placed => placed.2.2.localIdx⟩ := by
  induction share using List.reverseRecOn with
  | nil => exact absurd rfl h
  | append_singleton share placed ih =>
      rw [inputOf, List.foldl_append, List.foldl_cons, List.foldl_nil, ← inputOf]
      by_cases hnil : share = []
      · subst hnil
        rfl
      · rw [ih hnil]
        simp [pushPlaced, D1LevelScanRunBatchInput.push]

theorem foldl_group_getElem? (placed : List PlacedOccurrence)
    (grouped : List (Option D1LevelScanRunBatchInput)) (r : Nat) :
    (placed.foldl (fun grouped (placed : PlacedOccurrence) => grouped.modify placed.2.2.runIdx
      fun input => some (.push input placed.1 placed.2.1 placed.2.2.localIdx)) grouped)[r]? =
    grouped[r]?.map fun input =>
      (placed.filter fun placed => placed.2.2.runIdx = r).foldl pushPlaced input := by
  induction placed generalizing grouped with
  | nil => simp
  | cons first placed ih =>
      rw [List.foldl_cons, ih, List.getElem?_modify]
      by_cases hr : first.2.2.runIdx = r
      · rw [List.filter_cons_of_pos (by simpa using hr)]
        cases grouped[r]? with
        | none => rfl
        | some input =>
            simp only [Option.map_eq_map, Option.map_some, if_pos hr]
            rfl
      · rw [List.filter_cons_of_neg (by simpa using hr)]
        cases grouped[r]? with
        | none => rfl
        | some input => simp only [Option.map_eq_map, Option.map_some, if_neg hr]

theorem group_getElem? {n r : Nat} (hr : r < n) :
    (groupD1LevelScanBatch n plan)[r]? = some (inputOf (placedShare r plan)) := by
  refine (foldl_group_getElem? plan.occurrences (List.replicate n none) r).trans ?_
  rw [List.getElem?_replicate, if_pos hr]
  rfl

theorem group_length (n : Nat) : (groupD1LevelScanBatch n plan).length = n := by
  have hfold : ∀ (placed : List PlacedOccurrence) (grouped : List (Option D1LevelScanRunBatchInput)),
      (placed.foldl (fun grouped (placed : PlacedOccurrence) => grouped.modify placed.2.2.runIdx
        fun input => some (.push input placed.1 placed.2.1 placed.2.2.localIdx)) grouped).length =
      grouped.length := by
    intro placed
    induction placed with
    | nil => exact fun _ => rfl
    | cons first placed ih =>
        intro grouped
        rw [List.foldl_cons, ih, List.length_modify]
  exact (hfold _ _).trans List.length_replicate

/-! ## Placed occurrences and entries -/

def PlacedOccurrence.entry (placed : PlacedOccurrence) : UInt32 × D1LevelScanOccurrence :=
  (placed.1, placed.2.2)

theorem occurrences_entries (plan : D1LevelScanBatchPlan) :
    plan.occurrences.map PlacedOccurrence.entry = plan.entries := by
  have hfst : plan = plan.zipIdx.map Prod.fst := (List.zipIdx_map_fst 0 plan).symm
  conv_rhs => rw [hfst, D1LevelScanBatchPlan.entries, List.flatMap_map]
  rw [D1LevelScanBatchPlan.occurrences, List.map_flatMap]
  refine List.flatMap_congr fun entry _ => ?_
  rw [List.map_map]
  rfl

theorem placedShare_entries (r : Nat) (plan : D1LevelScanBatchPlan) :
    (placedShare r plan).map PlacedOccurrence.entry = runShare r plan.entries := by
  rw [← occurrences_entries, runShare, List.filter_map]
  rfl

/-- The row of an occurrence is where its point is in the batch. -/
theorem placed_row (row : UInt32 → Row) {placed : PlacedOccurrence}
    (h : placed ∈ plan.occurrences) :
    ((plan.map Prod.fst).map row)[placed.2.1]? = some (row placed.1) := by
  obtain ⟨⟨⟨point, occurrences⟩, offset⟩, hmem, hplaced⟩ := List.mem_flatMap.mp h
  obtain ⟨occurrence, -, rfl⟩ := List.mem_map.mp hplaced
  rw [List.getElem?_map, List.getElem?_map, List.mem_zipIdx_iff_getElem?.mp hmem]
  rfl

/-! ## Tasks -/

def batchShares (plan : D1LevelScanBatchPlan) : Shares := fun r => runShare r plan.entries

theorem subslice_map {α β : Type} (f : α → β) (l : List α) (first last : Nat) :
    subslice (l.map f) first last = (subslice l first last).map f := by
  rw [subslice, subslice, List.map_take, List.map_drop]

theorem buildTasks_eq (n chunkPoints : Nat) :
    buildD1LevelScanComputeTasks (groupD1LevelScanBatch n plan) chunkPoints =
      allTasks (batchShares plan) (max chunkPoints 1) n := by
  have hgroup : ∀ r < (groupD1LevelScanBatch n plan).length,
      (groupD1LevelScanBatch n plan)[r]? = some (inputOf (placedShare r plan)) := by
    intro r hr
    rw [group_length] at hr
    exact group_getElem? hr
  rw [buildD1LevelScanComputeTasks, zipIdx_eq_map_range hgroup, group_length, List.flatMap_map,
    allTasks]
  refine List.flatMap_congr fun r _ => ?_
  rw [tasksOf, batchShares, ← placedShare_entries]
  by_cases hnil : placedShare r plan = []
  · rw [hnil]
    simp [inputOf]
  · simp only [inputOf_eq hnil, List.length_map, List.getElem?_map, Option.map_map]
    rfl

theorem inputOf_isSome_of_task {n chunkSize : Nat} {task : D1LevelScanComputeTask}
    (h : task ∈ allTasks (batchShares plan) chunkSize n) :
    task.runIdx < n ∧ placedShare task.runIdx plan ≠ [] := by
  obtain ⟨r, hr, htask⟩ := List.mem_flatMap.mp h
  have hrun := mem_tasksOf htask
  subst hrun
  refine ⟨List.mem_range.mp hr, fun hnil => ?_⟩
  obtain ⟨p, -, hp⟩ := List.mem_filterMap.mp htask
  have hempty : batchShares plan task.runIdx = [] := by
    rw [batchShares, ← placedShare_entries, hnil, List.map_nil]
  rw [hempty] at hp
  cases hp

theorem assignLoaded_ok {pointIds : List UInt32} {data : List Row} {sourceOffsets : List Nat}
    {assignment : List (List Nat)}
    (h : assignLoadedPointIndexedAdsamplingLayout run pointIds data sourceOffsets = .ok assignment) :
    sourceOffsets.mapM (fun sourceOffset =>
      match data[sourceOffset]? with
      | some row => run.assign row
      | none => .error (.index (s!"ADSampling indexed source offset {sourceOffset} exceeds " ++
          s!"source rows {data.length}"))) = .ok assignment := by
  rw [assignLoadedPointIndexedAdsamplingLayout] at h
  split_ifs at h
  exact h

/-- A chunk is assigned as its points are by themselves. -/
theorem assigned_of_loaded {placed : List PlacedOccurrence} {pointIds : List UInt32}
    {assignment : List (List Nat)} (hplaced : ∀ p ∈ placed, p ∈ plan.occurrences)
    (h : assignLoadedPointIndexedAdsamplingLayout run pointIds ((plan.map Prod.fst).map scan.row)
      (placed.map fun p => p.2.1) = .ok assignment) :
    Assigned scan run (placed.map PlacedOccurrence.entry) assignment := by
  have hrows := assignLoaded_ok h
  rw [mapM_map_congr (k := fun p : PlacedOccurrence => run.assign (scan.row p.1))] at hrows
  · rw [Assigned, List.forall₂_map_left_iff]
    exact forall₂_of_mapM hrows
  · intro p hp
    rw [placed_row scan.row (hplaced p hp)]

/-- A task's output holds the records of its chunk. -/
theorem computeTask_encodes {task : D1LevelScanComputeTask} {output : D1LevelScanRunBatchOutput}
    (hrun : task.runIdx < scan.runs.length) (hnil : placedShare task.runIdx plan ≠ [])
    (h : scan.computeTask (groupD1LevelScanBatch scan.runs.length plan)
      ((plan.map Prod.fst).map scan.row) task = .ok output) :
    (∃ run assignment, Encodes scan (taskEntries (batchShares plan) task) run assignment output) ∧
      output.key = toLex (task.runIdx, task.runPointStart) := by
  have hget := List.getElem?_eq_getElem hrun
  rw [LevelScan.computeTask, hget, group_getElem? hrun, inputOf_eq hnil] at h
  simp only at h
  cases hassign : assignLoadedPointIndexedAdsamplingLayout scan.runs[task.runIdx]
      (subslice ((placedShare task.runIdx plan).map fun p => p.1) task.pointStart task.pointEnd)
      ((plan.map Prod.fst).map scan.row)
      (subslice ((placedShare task.runIdx plan).map fun p => p.2.1) task.pointStart task.pointEnd) with
  | error e =>
      rw [hassign] at h
      cases h
  | ok assignment =>
      rw [hassign, ok_bind] at h
      rw [subslice_map, subslice_map] at hassign
      have hplaced : ∀ p ∈ subslice (placedShare task.runIdx plan) task.pointStart task.pointEnd,
          p ∈ plan.occurrences :=
        fun p hp => (List.mem_filter.mp (List.mem_of_mem_drop (List.mem_of_mem_take hp))).1
      have hassigned := assigned_of_loaded hplaced hassign
      rw [← subslice_map, placedShare_entries] at hassigned
      obtain ⟨hencodes, hidx, hstart⟩ := buildOutput_encodes hget hassigned h
      refine ⟨⟨_, _, hencodes⟩, ?_⟩
      rw [D1LevelScanRunBatchOutput.key, hidx, hstart]

/-- A batch that is read and computed holds, for each run, the records of its share. -/
theorem processPlan_computes {outputs : List D1LevelScanRunBatchOutput}
    (hshare : ∀ r, (runShare r plan.entries).Pairwise fun a b => a.2.localIdx < b.2.localIdx)
    (h : scan.processPlan plan = .ok outputs) :
    ∃ size, 0 < size ∧
      Computes scan (batchShares plan) (allTasks (batchShares plan) size scan.runs.length) outputs := by
  rw [LevelScan.processPlan] at h
  cases hread : scan.readPoints (plan.map Prod.fst) with
  | error e =>
      rw [hread] at h
      cases h
  | ok data =>
      rw [hread, ok_bind, scan.reads _ _ hread, LevelScan.computeD1LevelScanLoadedBatch] at h
      simp only [buildTasks_eq] at h
      generalize hsize : max (scan.chunkPoints (LevelScan.inputPoints
        (groupD1LevelScanBatch scan.runs.length plan))) 1 = size at h
      have hpos : 0 < size := hsize ▸ Nat.lt_of_lt_of_le Nat.one_pos (Nat.le_max_right ..)
      cases htasks : (allTasks (batchShares plan) size scan.runs.length).mapM
          (scan.computeTask (groupD1LevelScanBatch scan.runs.length plan)
            ((plan.map Prod.fst).map scan.row)) with
      | error e =>
          rw [htasks] at h
          cases h
      | ok unsorted =>
          rw [htasks, ok_bind] at h
          have hcomputes : Computes scan (batchShares plan)
              (allTasks (batchShares plan) size scan.runs.length) unsorted := by
            have hforall := forall₂_of_mapM htasks
            refine forall₂_imp_mem hforall fun task htask output houtput => ?_
            obtain ⟨hrun, hnil⟩ := inputOf_isSome_of_task htask
            exact computeTask_encodes hrun hnil houtput
          rw [hcomputes.sort_eq hpos hshare] at h
          cases h
          exact ⟨size, hpos, hcomputes⟩

end ForgeANN
