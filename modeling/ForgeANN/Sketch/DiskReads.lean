-- SUMMARY: The reads of a sketch file against the rows in memory, each with the condition it needs.
import ForgeANN.Sketch.Covered

/-!
# Reads of a sketch file

Each way to read many rows is compared with reading the rows one by one from the
matrix in memory.
-/
namespace ForgeANN

open Lib

/-- Reading each row by itself. -/
def rowByRow (row : Nat → AnnResult (List F32)) (ids : List UInt32) : AnnResult (List F32) := do
  let rows ← ids.mapM fun id => row id.toNat
  .ok rows.flatten

/-- Whatever the sketches: where the rows can be read from memory, `read` gets the same matrix from
the file, into any buffer. -/
def Agrees (shape : SketchShape) (cfg : DirectIoConfig) (ids : List UInt32)
    (read : DiskSketchStore → List F32 → AnnResult (List F32)) : Prop :=
  ∀ (m : SketchMatrix shape) (path : String) (reads : ReadAt m.file) (ring : RingReads m.file)
    (disk : DiskSketchStore) (out matrix : List F32),
    DiskSketchStore.openWithConfig path m.file cfg reads ring = .ok disk →
    out.length = ids.length * shape.width → rowByRow m.store.row ids = .ok matrix →
    read disk out = .ok matrix

/-- All ids are ids of rows. -/
def InStore (shape : SketchShape) (ids : List UInt32) : Prop := ∀ id ∈ ids, id.toNat < shape.rows

def RingReads.full (file : Bytes) : RingReads file where
  count offset len := min (min len MAX_RW_COUNT) (file.length - offset)
  count_eq _ _ := rfl

section

variable {shape : SketchShape} (m : SketchMatrix shape) {ids : List UInt32}

/-- The rows of the ids. -/
def SketchMatrix.rowsOf (m : SketchMatrix shape) (ids : List UInt32) : List F32 :=
  ids.flatMap fun id => m.row id.toNat

theorem rowsFrom_one (i : Nat) : m.rowsFrom i 1 = m.row i := by
  rw [SketchMatrix.rowsFrom, List.range_one, List.flatMap_singleton, Nat.add_zero]

theorem prefixStore_row (prefixRows i : Nat) : (m.prefixStore prefixRows).row i =
    if i < prefixRows then .ok (m.row i)
    else .error (.panic "range end index out of range for slice") := by
  rw [SketchStore.row, SketchMatrix.prefixStore_slice, rowsFrom_one]
  rfl

theorem rowByRow_eq {row : Nat → AnnResult (List F32)}
    (h : ∀ id ∈ ids, row id.toNat = .ok (m.row id.toNat)) : rowByRow row ids = .ok (m.rowsOf ids) := by
  have hmap : ids.mapM (fun id => row id.toNat) = .ok (ids.map fun id => m.row id.toNat) :=
    mapM_eq_ok_map h
  rw [rowByRow, hmap, ok_bind, SketchMatrix.rowsOf, List.flatMap_def]

theorem rowByRow_of_inStore (h : InStore shape ids) :
    rowByRow m.store.row ids = .ok (m.rowsOf ids) := by
  apply rowByRow_eq
  intro id hid
  rw [m.store_eq, prefixStore_row, if_pos (h id hid)]

theorem inStore_of_rowByRow {matrix : List F32} (h : rowByRow m.store.row ids = .ok matrix) :
    InStore shape ids := by
  intro id hid
  by_contra hpast
  have hrow : ∃ err, m.store.row id.toNat = .error err := by
    rw [m.store_eq, prefixStore_row, if_neg hpast]
    exact ⟨_, rfl⟩
  obtain ⟨err, herr⟩ := hrow
  have hfails : ∃ err, ids.mapM (fun id => m.store.row id.toNat) = .error err :=
    mapM_error_of_mem hid herr
  obtain ⟨err, herr⟩ := hfails
  rw [rowByRow, herr] at h
  cases h

variable {cfg : DirectIoConfig} {read : DiskSketchStore → List F32 → AnnResult (List F32)}

/-- A read gets the rows of the ids under a condition, which the matrix that tells rows apart needs. -/
structure ReadsWhen (shape : SketchShape) (cfg : DirectIoConfig) (ids : List UInt32)
    (read : DiskSketchStore → List F32 → AnnResult (List F32)) (cond : Prop) : Prop where
  ok : InStore shape ids → cond → ∀ (m : SketchMatrix shape) path reads ring out,
    out.length = ids.length * shape.width →
      read (m.disk path cfg reads ring) out = .ok (m.rowsOf ids)
  told : InStore shape ids → ∀ path reads ring out, out.length = ids.length * shape.width →
    read ((tellingMatrix shape).disk path cfg reads ring) out =
      .ok ((tellingMatrix shape).rowsOf ids) → cond

theorem ReadsWhen.agrees_iff {cond : Prop} (h : ReadsWhen shape cfg ids read cond) :
    Agrees shape cfg ids read ↔ (InStore shape ids → cond) := by
  constructor
  · intro hagrees hids
    refine h.told hids "" (.full _) (.full _) (List.replicate (ids.length * shape.width) F32.zero)
      (List.length_replicate ..) ?_
    exact hagrees _ _ _ _ _ _ _ (SketchMatrix.openWithConfig_file ..) (List.length_replicate ..)
      (rowByRow_of_inStore _ hids)
  · intro hcond m path reads ring disk out matrix hopen hout hrows
    have hids := inStore_of_rowByRow m hrows
    rw [rowByRow_of_inStore m hids] at hrows
    rw [m.openWithConfig_file] at hopen
    rw [← Except.ok.inj hrows, ← Except.ok.inj hopen]
    exact h.ok hids (hcond hids) m path reads ring out hout

/-! ## Row by row -/

variable (path : String) (reads : ReadAt m.file) (ring : RingReads m.file)

theorem disk_rowCopyInto {idx : Nat} (hidx : idx < shape.rows) {dst : List F32}
    (hdst : dst.length = shape.width) :
    (m.disk path cfg reads ring).rowCopyInto idx dst = .ok (m.row idx) := by
  have hread := m.readBytes_rows path cfg reads ring
    (.index s!"Sketch row {idx} byte range is out of bounds for mapped file") idx 1
  rw [Nat.one_mul, if_pos (.inr hidx), rowsFrom_one] at hread
  have hwidth : ¬ dst.length ≠ (m.disk path cfg reads ring).width := fun hne => hne hdst
  have hrow : ¬ (m.disk path cfg reads ring).rows ≤ idx := Nat.not_le_of_lt hidx
  unfold DiskSketchStore.rowCopyInto
  rw [if_neg hwidth, if_neg hrow]
  exact hread

theorem diskRow_reads : ReadsWhen shape cfg ids (fun disk _ => rowByRow disk.row ids) True where
  ok hids _ m path reads ring _ _ := by
    apply rowByRow_eq
    intro id hid
    exact disk_rowCopyInto m path reads ring (hids id hid) (List.length_replicate ..)
  told _ _ _ _ _ _ _ := trivial

/-! ## Planned reads -/

theorem windowedParts_nil (sort : RowSort) (options : WindowedGatherOptions) :
    windowedParts shape sort [] options = [] := by
  have harrange : options.arrange sort [] = [] := List.perm_nil.mp (options.arrange_perm sort [])
  rw [windowedParts, WindowedGatherOptions.runs, harrange, greedyRuns, List.map_nil]

theorem disk_checkMatrix {out : List F32} (hout : out.length = ids.length * shape.width) :
    (m.disk path cfg reads ring).checkMatrix ids out = .ok () := by
  have hlen : ¬ out.length ≠ ids.length * (m.disk path cfg reads ring).width := fun hne => hne hout
  rw [DiskSketchStore.checkMatrix, if_neg hlen]

theorem disk_windowed (sort : RowSort) (options : WindowedGatherOptions)
    (stats : WindowedGatherStats) {out : List F32} (hout : out.length = ids.length * shape.width) :
    ((m.disk path cfg reads ring).readRowsWindowedIntoStats sort ids out options stats).map Prod.fst =
      readParts (readingWindow (m.disk path cfg reads ring).readSketchRangeInto) shape.width
        (windowedParts shape sort ids options) out := by
  unfold DiskSketchStore.readRowsWindowedIntoStats
  by_cases hids : ids = []
  · subst hids
    rw [if_pos rfl, windowedParts_nil]
    rfl
  · have hplan : readWindows (m.disk path cfg reads ring).readSketchRangeInto
        (buildGatherPlan sort ids (shape.width * F32_BYTES) options stats).1 shape.width out =
      readParts (readingWindow (m.disk path cfg reads ring).readSketchRangeInto) shape.width
        (windowedParts shape sort ids options) out := readWindows_gatherPlan ..
    rw [if_neg hids, disk_checkMatrix m path reads ring hout, ok_bind, ← hplan]
    simp only [SketchMatrix.disk_width, SketchMatrix.disk_rowBytes]
    cases readWindows _ _ _ _ with
    | error err => rfl
    | ok filled => rfl

theorem disk_reads (window : ReadWindow)
    (h : window.startRow.toNat + window.rowCount.toNat ≤ shape.rows) :
    ∃ values, readingWindow (m.disk path cfg reads ring).readSketchRangeInto window = .ok values := by
  rw [readingWindow, m.readSketchRangeInto_eq, if_pos (.inr h)]
  exact ⟨_, rfl⟩

theorem diskWindowed_reads (sort : RowSort) (options : WindowedGatherOptions)
    (stats : WindowedGatherStats) :
    ReadsWhen shape cfg ids (fun disk out =>
        (disk.readRowsWindowedIntoStats sort ids out options stats).map Prod.fst)
      (options.WindowsSpan ids (shape.width * F32_BYTES)) where
  ok hids hspans m path reads ring out hout := by
    rw [disk_windowed m path reads ring sort options stats hout]
    exact readParts_windowed m hout (m.serves_disk path cfg reads ring) hids
      (disk_reads m path reads ring) hspans
  told hids path reads ring out hout h := by
    rw [disk_windowed _ path reads ring sort options stats hout] at h
    exact windowsSpan_of_readParts hout
      ((tellingMatrix shape).serves_disk path cfg reads ring) hids h

/-! ## Bounded reads -/

/-- The plan of a bounded read of the file. -/
def boundedSketchPlan (cfg : DirectIoConfig) (sort : RowSort) (ids : List UInt32)
    (planner : BoundedReadPlanner) : BoundedReadPlan :=
  if cfg.enabled then
    planner.planWithAlignedReadCost cfg.effectiveAlignment HEADER_BYTES sort ids
  else planner.plan sort ids

/-- No window has all `2 ^ 32` rows, and each one that is read through the ring fits. -/
def BoundedSafe (rowBytes : Nat) (cfg : DirectIoConfig) (plan : BoundedReadPlan) : Prop :=
  ∀ window ∈ plan.windows, ¬ window.WholeRange ∧
    (cfg.enabled = true → SKETCH_URING_WINDOW_GATHER_MIN_WINDOWS ≤ plan.windows.length →
      RingFits rowBytes cfg window)

variable {σ : Type} {planner : BoundedReadPlanner} {runs : List (GreedyRun GatherRow σ)}
  {windowBytes : GreedyRun GatherRow σ → Nat} {out filled : List F32}

theorem chunks_size_pos (n : Nat) :
    0 < max (min SKETCH_URING_WINDOW_GATHER_QUEUE_DEPTH n) 1 :=
  Nat.lt_of_lt_of_le Nat.one_pos (Nat.le_max_right ..)

/-- A batch read ahead comes to the same as its windows one by one. -/
theorem readRingBatch_ok_iff (disk : DiskSketchStore) (cfg : DirectIoConfig)
    (ring : RingReads disk.file) (out : List F32) (batch : List (ReadWindow × List ReadScatter))
    (filled : List F32) : disk.readRingBatch cfg ring out batch = .ok filled ↔
      batch.foldlM (fun out part => do
        let values ← disk.ringRead cfg ring part.1
        scatterBoundedSketchWindow part.2 disk.width values out) out = .ok filled := by
  have h := foldlM_zip_mapM_ok_iff
    (fun part : ReadWindow × List ReadScatter => disk.ringRead cfg ring part.1)
    (fun out part values => scatterBoundedSketchWindow part.2 disk.width values out)
    batch out filled
  unfold DiskSketchStore.readRingBatch
  exact h

theorem readBoundedWindowsWithUring_ok_iff (disk : DiskSketchStore) (cfg : DirectIoConfig)
    (ring : RingReads disk.file) (out filled : List F32) :
    disk.readBoundedWindowsWithUring cfg ring (planner.planOf ids runs windowBytes) out =
        .ok filled ↔
      readParts (disk.ringRead cfg ring) disk.width (runs.map (windowPart boundedWindow)) out =
        .ok filled := by
  have hruns : runs.map (windowPart boundedWindow) =
      runs.zipIdx.map fun run => windowPart boundedWindow run.1 := by
    conv_lhs => rw [← List.zipIdx_map_fst 0 runs, List.map_map]
    rfl
  unfold DiskSketchStore.readBoundedWindowsWithUring
  simp only
  rw [foldlM_flatten_ok_iff (readRingBatch_ok_iff disk cfg ring), chunks_flatten (chunks_size_pos _),
    planOf_parts, List.foldlM_map, readParts, hruns, List.foldlM_map]
  simp only [scatterBoundedSketchWindow_eq]
  rfl

/-- Whether the windows of a plan are read through the ring. -/
def Ringed (cfg : DirectIoConfig) (plan : BoundedReadPlan) : Prop :=
  cfg.enabled = true ∧ SKETCH_URING_WINDOW_GATHER_MIN_WINDOWS ≤ plan.windows.length

instance (plan : BoundedReadPlan) : Decidable (Ringed cfg plan) :=
  inferInstanceAs (Decidable (_ ∧ _))

variable (cfg) in
/-- How the windows of a plan are read. -/
def windowRead (plan : BoundedReadPlan) : ReadWindow → AnnResult (List F32) :=
  if Ringed cfg plan then (m.disk path cfg reads ring).ringRead cfg ring
  else readingWindow (m.disk path cfg reads ring).readSketchRangeInto

theorem serves_windowRead (plan : BoundedReadPlan) :
    Serves m.row (windowRead m cfg path reads ring plan) := by
  unfold windowRead
  split_ifs
  · exact m.serves_ring path cfg reads ring
  · exact m.serves_disk path cfg reads ring

theorem disk_backing : (m.disk path cfg reads ring).backing = m.backing cfg reads ring := rfl

/-- The two ways in which windows are read come to the same. -/
theorem disk_readBoundedPlan_ok_iff :
    (m.disk path cfg reads ring).readBoundedPlan (planner.planOf ids runs windowBytes) out =
        .ok filled ↔
      readParts (windowRead m cfg path reads ring (planner.planOf ids runs windowBytes))
        shape.width (runs.map (windowPart boundedWindow)) out = .ok filled := by
  have hring : (m.disk path cfg reads ring).readBoundedWindowsWithUring cfg ring
        (planner.planOf ids runs windowBytes) out = .ok filled ↔
      readParts ((m.disk path cfg reads ring).ringRead cfg ring) shape.width
        (runs.map (windowPart boundedWindow)) out = .ok filled :=
    readBoundedWindowsWithUring_ok_iff (m.disk path cfg reads ring) cfg ring out filled
  have hwindows : readBoundedWindows (m.disk path cfg reads ring).readSketchRangeInto
        (planner.planOf ids runs windowBytes) shape.width out =
      readParts (readingWindow (m.disk path cfg reads ring).readSketchRangeInto) shape.width
        (runs.map (windowPart boundedWindow)) out :=
    readBoundedWindows_planOf planner ids runs windowBytes out
  unfold DiskSketchStore.readBoundedPlan windowRead
  rw [disk_backing]
  by_cases hcfg : cfg.enabled = true
  · rw [SketchMatrix.backing, if_pos hcfg]
    dsimp only
    by_cases hmany : (planner.planOf ids runs windowBytes).windows.length <
        SKETCH_URING_WINDOW_GATHER_MIN_WINDOWS
    · have hone : ¬ Ringed cfg (planner.planOf ids runs windowBytes) := fun h =>
        absurd hmany (Nat.not_lt.mpr h.2)
      rw [if_pos hmany, if_neg hone, ← hwindows]
      rfl
    · have hringed : Ringed cfg (planner.planOf ids runs windowBytes) :=
        ⟨hcfg, Nat.not_lt.mp hmany⟩
      rw [if_neg hmany, if_pos hringed, ← hring]
  · have hmapped : ¬ Ringed cfg (planner.planOf ids runs windowBytes) := fun h => hcfg h.1
    rw [SketchMatrix.backing, if_neg hcfg, if_neg hmapped, ← hwindows]
    rfl

/-- What is safe to read is what covers its rows and can be read. -/
theorem bounded_delivers_iff {rowBytes : Nat}
    (hin : ∀ run ∈ runs, ¬ (boundedWindow run).WholeRange →
      (boundedWindow run).startRow.toNat + (boundedWindow run).rowCount.toNat ≤ shape.rows)
    (hrowBytes : rowBytes = shape.width * F32_BYTES) :
    BoundedSafe rowBytes cfg (planner.planOf ids runs windowBytes) ↔
      (∀ run ∈ runs, ¬ (boundedWindow run).WholeRange) ∧ ∀ run ∈ runs, ∃ values,
        windowRead m cfg path reads ring (planner.planOf ids runs windowBytes)
          (boundedWindow run) = .ok values := by
  subst hrowBytes
  have hwindows : ∀ P : ReadWindow → Prop,
      (∀ window ∈ (planner.planOf ids runs windowBytes).windows, P window) ↔
        ∀ run ∈ runs, P (boundedWindow run) := fun P => List.forall_mem_map
  rw [BoundedSafe, hwindows, ← forall₂_and]
  refine forall₂_congr fun run hrun => and_congr_right fun hwhole => ?_
  have hinside := hin run hrun hwhole
  unfold windowRead
  split_ifs with hringed
  · rw [m.ringRead_ok_iff path cfg reads ring _ hinside]
    exact ⟨fun h => h hringed.1 hringed.2, fun h _ _ => h⟩
  · exact iff_of_true (fun hcfg hmany => absurd ⟨hcfg, hmany⟩ hringed)
      (disk_reads m path reads ring _ hinside)

theorem bounded_reads_of_runs {sort : RowSort}
    (hflat : runs.flatMap GreedyRun.items = sort.sort (gatherRows ids))
    (hread : ∀ (m : SketchMatrix shape) path reads ring out filled,
      out.length = ids.length * shape.width →
      (read (m.disk path cfg reads ring) out = .ok filled ↔
        (m.disk path cfg reads ring).readBoundedPlan (planner.planOf ids runs windowBytes) out =
          .ok filled)) :
    ReadsWhen shape cfg ids read
      (BoundedSafe (shape.width * F32_BYTES) cfg (planner.planOf ids runs windowBytes)) where
  ok hids hsafe m path reads ring out hout := by
    obtain ⟨hwhole, hdelivers⟩ := (bounded_delivers_iff m path reads ring
      (fun run hrun => bounded_inside hflat hids hrun) rfl).mp hsafe
    rw [hread _ _ _ _ _ _ hout, disk_readBoundedPlan_ok_iff]
    exact readParts_of_covers m (serves_windowRead m path reads ring _) (arranged_bounded hflat) hout
      (List.forall_mem_map.mpr hdelivers) ((covers_bounded_iff hflat).mpr hwhole)
  told hids path reads ring out hout h := by
    rw [hread _ _ _ _ _ _ hout, disk_readBoundedPlan_ok_iff] at h
    have hcovers := covers_of_readParts (serves_windowRead _ path reads ring _)
      (arranged_bounded hflat) hout hids h
    exact (bounded_delivers_iff _ path reads ring
      (fun run hrun => bounded_inside hflat hids hrun) rfl).mpr
      ⟨(covers_bounded_iff hflat).mp fun part hpart => (hcovers part hpart).2,
        fun run hrun => (hcovers _ (List.mem_map_of_mem hrun)).1⟩

/-- Without ids the planned read leaves the buffer as it is, as the early return does. -/
theorem disk_bounded {sort : RowSort} {maxWindowBytes : Nat} {amplification : Float}
    (stats : WindowedGatherStats) (hout : out.length = ids.length * shape.width) :
    ((m.disk path cfg reads ring).readRowsBoundedIntoStats sort ids out maxWindowBytes amplification
        stats).map Prod.fst = .ok filled ↔
      (m.disk path cfg reads ring).readBoundedPlan (boundedSketchPlan cfg sort ids
        ⟨shape.width * F32_BYTES, maxWindowBytes, amplification⟩) out = .ok filled := by
  have hplan : (m.disk path cfg reads ring).boundedPlan sort ids maxWindowBytes amplification =
      boundedSketchPlan cfg sort ids ⟨shape.width * F32_BYTES, maxWindowBytes, amplification⟩ := by
    unfold DiskSketchStore.boundedPlan
    rw [disk_backing, SketchMatrix.backing, boundedSketchPlan]
    by_cases hcfg : cfg.enabled = true
    · rw [if_pos hcfg, if_pos hcfg]
      rfl
    · rw [if_neg hcfg, if_neg hcfg]
      rfl
  unfold DiskSketchStore.readRowsBoundedIntoStats
  by_cases hids : ids = []
  · subst hids
    have hruns : ∃ windowBytes : GreedyRun GatherRow Unit → Nat, boundedSketchPlan cfg sort []
        ⟨shape.width * F32_BYTES, maxWindowBytes, amplification⟩ =
          BoundedReadPlanner.planOf ⟨shape.width * F32_BYTES, maxWindowBytes, amplification⟩ [] []
            windowBytes := by
      refine ⟨fun _ => 0, ?_⟩
      have hsort : sort.sort (gatherRows []) = [] := List.perm_nil.mp (sort.perm _)
      unfold boundedSketchPlan BoundedReadPlanner.planWithAlignedReadCost BoundedReadPlanner.plan
        BoundedReadPlanner.alignedRuns BoundedReadPlanner.runs
      rw [hsort, greedyRuns, greedyRuns]
      split_ifs <;> rfl
    obtain ⟨windowBytes, hruns⟩ := hruns
    rw [hruns, disk_readBoundedPlan_ok_iff, if_pos rfl]
    rfl
  · rw [if_neg hids, disk_checkMatrix m path reads ring hout, ok_bind]
    dsimp only
    rw [hplan]
    cases DiskSketchStore.readBoundedPlan _ _ _ with
    | error err =>
        refine iff_of_false (fun h => ?_) (fun h => ?_)
        · cases h
        · cases h
    | ok filled => exact Iff.rfl

end

theorem diskBounded_reads {shape : SketchShape} {ids : List UInt32} {cfg : DirectIoConfig}
    (sort : RowSort) (maxWindowBytes : Nat) (amplification : Float) (stats : WindowedGatherStats) :
    ReadsWhen shape cfg ids (fun disk out =>
        (disk.readRowsBoundedIntoStats sort ids out maxWindowBytes amplification stats).map
          Prod.fst)
      (BoundedSafe (shape.width * F32_BYTES) cfg (boundedSketchPlan cfg sort ids
        ⟨shape.width * F32_BYTES, maxWindowBytes, amplification⟩)) := by
  by_cases hcfg : cfg.enabled = true
  · have hplan : ∀ planner : BoundedReadPlanner, boundedSketchPlan cfg sort ids planner =
        planner.planWithAlignedReadCost cfg.effectiveAlignment HEADER_BYTES sort ids :=
      fun planner => if_pos hcfg
    rw [hplan]
    apply bounded_reads_of_runs BoundedReadPlanner.flatMap_alignedRuns
    intro m path reads ring out filled hout
    rw [disk_bounded m path reads ring stats hout, hplan]
    rfl
  · have hplan : ∀ planner : BoundedReadPlanner, boundedSketchPlan cfg sort ids planner =
        planner.plan sort ids := fun planner => if_neg hcfg
    rw [hplan]
    apply bounded_reads_of_runs BoundedReadPlanner.flatMap_runs
    intro m path reads ring out filled hout
    rw [disk_bounded m path reads ring stats hout, hplan]
    rfl

end ForgeANN
