-- SUMMARY: Runs of all depths, extended in any interleaving, read back as their chunks in order.
import ForgeANN.Rbc.ChildRuns

/-!
# The round trip of the run store

Children are extended chunk by chunk, in any interleaving and at any depths, and
the store is finalized now and then. Whatever there was in the files before, the
chunks of a child are read back in the order in which they were appended.
-/
namespace ForgeANN

open Lib

namespace ExternalRunStore

/-! ## Finalizing -/

/-- The same store with another file at the path of the depth. -/
def setFile (store : ExternalRunStore) (depth : Nat) (file : Bytes) : ExternalRunStore :=
  { store with files := Function.update store.files (store.pathForDepth depth) (some file) }

/-- A direct appender has written whole blocks; the file is cut off behind the last run. -/
def finalizeWriter (store : ExternalRunStore) (depth : Nat) : ExternalRunStore :=
  match store.writers depth with
  | some (.direct offset) => store.setFile depth ((store.runFile depth).setLen offset)
  | _ => store

/-- `depths` are those of the writers, in the order in which the map has them. -/
def finalize (store : ExternalRunStore) (depths : List Nat) : ExternalRunStore :=
  depths.foldl finalizeWriter store

/-! ## Paths -/

theorem depthLabel_injective : Function.Injective depthLabel := by
  have hdecode : Function.LeftInverse (fun label : String => Nat.ofDigitChars 10 label.toList 0)
      depthLabel := by
    intro depth
    have hdigits : Nat.ofDigitChars 10 (Nat.toDigits 10 depth) 0 = depth :=
      Nat.ofDigitChars_toDigits (by decide) (by decide)
    unfold depthLabel
    split_ifs
    · have hlist : (s!"0{depth}").toList = '0' :: Nat.toDigits 10 depth := by simp [toString]
      exact (congrArg (Nat.ofDigitChars 10 · 0) hlist).trans hdigits
    · have hlist : (s!"{depth}").toList = Nat.toDigits 10 depth := by simp [toString]
      exact (congrArg (Nat.ofDigitChars 10 · 0) hlist).trans hdigits
  exact hdecode.injective

theorem pathForDepth_injective (store : ExternalRunStore) :
    Function.Injective store.pathForDepth := by
  intro d e h
  unfold pathForDepth at h
  simp only [toString, String.append_left_inj, String.append_right_inj] at h
  exact depthLabel_injective h

/-! ## Other depths -/

variable {store : ExternalRunStore} {depth other : Nat} {extent : RunExtent} {points : List UInt32}

theorem setRun_files_of_ne (h : other ≠ depth) (file : Bytes) (writer : RunAppender) :
    (store.setRun depth file writer).files (store.pathForDepth other) =
      store.files (store.pathForDepth other) :=
  Function.update_of_ne (fun heq => h (store.pathForDepth_injective heq)) ..

/-- What is stored depends on the file and on the append offset of its depth. -/
theorem Stored.of_same {next : ExternalRunStore} (h : store.Stored depth extent points)
    (hfile : next.files (next.pathForDepth depth) = store.files (store.pathForDepth depth))
    (hoffset : next.appendOffset depth = store.appendOffset depth) :
    next.Stored depth extent points := by
  have hrun : next.runFile depth = store.runFile depth := by rw [runFile, runFile, hfile]
  refine ⟨?_, ?_, ?_, h.fits⟩
  · rw [hfile, hrun, h.present]
  · rw [hrun]
    exact h.holds
  · rw [hoffset]
    exact h.below

theorem setRun_appendOffset_of_ne (h : other ≠ depth) (file : Bytes) (writer : RunAppender) :
    (store.setRun depth file writer).appendOffset other = store.appendOffset other := by
  have hfile : (store.setRun depth file writer).runFile other = store.runFile other := by
    unfold runFile
    exact congrArg (·.getD []) (setRun_files_of_ne h file writer)
  have hwriter : (store.setRun depth file writer).writers other = store.writers other :=
    Function.update_of_ne h ..
  have happender : (store.setRun depth file writer).appender other = store.appender other := by
    unfold appender
    rw [hwriter, hfile]
    rfl
  unfold appendOffset
  rw [happender, hfile]

theorem Stored.appendPoints_of_ne (h : store.Stored other extent points) (hne : other ≠ depth)
    (more : List UInt32) : (store.appendPoints depth more).2.Stored other extent points := by
  unfold ExternalRunStore.appendPoints
  cases store.appender depth with
  | buffered => exact h.of_same (setRun_files_of_ne hne ..) (setRun_appendOffset_of_ne hne ..)
  | direct offset => exact h.of_same (setRun_files_of_ne hne ..) (setRun_appendOffset_of_ne hne ..)

/-! ## What finalizing keeps -/

theorem setFile_files (file : Bytes) :
    (store.setFile depth file).files (store.pathForDepth depth) = some file :=
  Function.update_self ..

theorem setFile_files_of_ne (h : other ≠ depth) (file : Bytes) :
    (store.setFile depth file).files (store.pathForDepth other) =
      store.files (store.pathForDepth other) :=
  Function.update_of_ne (fun heq => h (store.pathForDepth_injective heq)) ..

theorem setFile_appendOffset_of_ne (h : other ≠ depth) (file : Bytes) :
    (store.setFile depth file).appendOffset other = store.appendOffset other := by
  have hfile : (store.setFile depth file).runFile other = store.runFile other := by
    unfold runFile
    exact congrArg (·.getD []) (setFile_files_of_ne h file)
  have happender : (store.setFile depth file).appender other = store.appender other := by
    unfold appender
    rw [hfile]
    rfl
  unfold appendOffset
  rw [happender, hfile]

theorem Stored.finalizeWriter (h : store.Stored other extent points) (depth : Nat) :
    (store.finalizeWriter depth).Stored other extent points := by
  unfold ExternalRunStore.finalizeWriter
  split
  · next offset hwriter =>
    by_cases hne : other = depth
    · subst hne
      have happender : store.appender other = .direct offset := by rw [appender, hwriter]; rfl
      have hbelow := h.below
      rw [appendOffset, happender] at hbelow
      have hfile : (store.setFile other ((store.runFile other).setLen offset)).runFile other =
          (store.runFile other).setLen offset := by
        unfold runFile
        exact congrArg (·.getD []) (setFile_files _)
      refine ⟨?_, ?_, ?_, h.fits⟩
      · rw [hfile]
        exact setFile_files _
      · rw [hfile]
        exact h.holds.setLen hbelow
      · unfold appendOffset
        have hnext : (store.setFile other ((store.runFile other).setLen offset)).appender other =
            .direct offset := by
          unfold appender setFile
          dsimp only
          rw [hwriter, Option.getD_some]
        rw [hnext]
        exact hbelow
    · exact h.of_same (setFile_files_of_ne hne _) (setFile_appendOffset_of_ne hne _)
  · exact h

theorem Stored.finalize (h : store.Stored other extent points) (depths : List Nat) :
    (store.finalize depths).Stored other extent points := by
  unfold ExternalRunStore.finalize
  induction depths generalizing store with
  | nil => exact h
  | cons depth depths ih => exact ih (h.finalizeWriter depth)

end ExternalRunStore

/-! ## Runs that are extended -/

/-- A slice of points: its length is a `usize`. -/
structure PointSlice where
  points : List UInt32
  fits : points.length < 2 ^ 64

/-- What is done with the store: a run of a depth is extended by a chunk, or the store is
finalized. -/
inductive RunOp where
  | append (depth run : Nat) (chunk : PointSlice)
  | finalize (depths : List Nat)

/-- The store, with the extents of each depth's runs as its callers keep them. -/
structure RunTable where
  store : ExternalRunStore
  extents : Nat → Nat → List RunExtent

namespace RunTable

/-- No runs yet, over the files that there are. -/
def start (baseDir : String) (ioCfg : DirectIoConfig) (files : Files) : RunTable where
  store := { baseDir, ioCfg, writers := fun _ => none, files }
  extents _ _ := []

def step (table : RunTable) : RunOp → RunTable
  | .append depth run chunk =>
      let (extent, store) := table.store.appendPoints depth chunk.points
      { store
        extents := fun d r => if d = depth ∧ r = run then table.extents d r ++ [extent]
          else table.extents d r }
  | .finalize depths => { table with store := table.store.finalize depths }

def run (table : RunTable) (ops : List RunOp) : RunTable := ops.foldl step table

def childRun (table : RunTable) (depth run : Nat) (seed : UInt64) : ChildRun where
  extents := table.extents depth run
  len := ((table.extents depth run).map RunExtent.len).sum
  seed := seed

end RunTable

/-- The chunk that an operation appends to a run. -/
def RunOp.chunkOf (depth run : Nat) : RunOp → Option (List UInt32)
  | .append d r chunk => if depth = d ∧ run = r then some chunk.points else none
  | .finalize _ => none

/-- The chunks appended to a run, in their order. -/
def appended (ops : List RunOp) (depth run : Nat) : List (List UInt32) :=
  ops.filterMap (RunOp.chunkOf depth run)

namespace RunTable

/-- Each run's chunks are stored at its extents, which lie in the file in their order. -/
structure Tracks (table : RunTable) (ops : List RunOp) : Prop where
  stored : ∀ depth run, List.Forall₂ (fun extent points =>
    table.store.Stored depth extent points ∧ extent.len = points.length)
      (table.extents depth run) (appended ops depth run)
  forward : ∀ depth run, (table.extents depth run).Pairwise fun a b => a.byteOffset < b.byteOffset

variable {table : RunTable} {ops : List RunOp}

theorem tracks_start (baseDir : String) (ioCfg : DirectIoConfig) (files : Files) :
    (start baseDir ioCfg files).Tracks [] :=
  ⟨fun _ _ => .nil, fun _ _ => .nil⟩

theorem appendPoints_extent (store : ExternalRunStore) (depth : Nat) (points : List UInt32) :
    (store.appendPoints depth points).1 = ⟨store.appendOffset depth, points.length⟩ := by
  unfold ExternalRunStore.appendPoints ExternalRunStore.appendOffset
  cases store.appender depth with
  | buffered => rfl
  | direct offset => rfl

theorem Tracks.step_append (h : table.Tracks ops) (depth run : Nat) (chunk : PointSlice) :
    (table.step (.append depth run chunk)).Tracks (ops ++ [.append depth run chunk]) := by
  have hkept : ∀ {d extent points}, table.store.Stored d extent points →
      (table.store.appendPoints depth chunk.points).2.Stored d extent points := by
    intro d extent points hstored
    by_cases hd : d = depth
    · subst hd
      exact hstored.appendPoints chunk.points
    · exact hstored.appendPoints_of_ne hd chunk.points
  have hnew : appended (ops ++ [.append depth run chunk]) = fun d r =>
      if d = depth ∧ r = run then appended ops d r ++ [chunk.points] else appended ops d r := by
    funext d r
    rw [appended, List.filterMap_append]
    split_ifs with hown
    · simp [RunOp.chunkOf, hown, appended]
    · simp [RunOp.chunkOf, hown, appended]
  constructor
  · intro d r
    have hold : List.Forall₂ (fun extent points =>
        (table.store.appendPoints depth chunk.points).2.Stored d extent points ∧
          extent.len = points.length) (table.extents d r) (appended ops d r) :=
      (h.stored d r).imp fun extent points hstored => ⟨hkept hstored.1, hstored.2⟩
    rw [hnew]
    dsimp only [step]
    split_ifs with hown
    · obtain ⟨rfl, rfl⟩ := hown
      refine List.rel_append hold (.cons ⟨ExternalRunStore.appendPoints_stored chunk.fits, ?_⟩ .nil)
      rw [appendPoints_extent]
    · exact hold
  · intro d r
    dsimp only [step]
    split_ifs with hown
    · obtain ⟨rfl, rfl⟩ := hown
      refine List.pairwise_append.mpr ⟨h.forward d r, List.pairwise_singleton .., ?_⟩
      intro a ha b hb
      obtain rfl := List.mem_singleton.mp hb
      obtain ⟨points, -, hstored, -⟩ := exists_of_mem_forall₂ (h.stored d r).flip ha
      have hbelow := hstored.below
      rw [runBytes_length, RUN_EXTENT_HEADER_BYTES] at hbelow
      rw [appendPoints_extent]
      dsimp only
      omega
    · exact h.forward d r

theorem Tracks.step (h : table.Tracks ops) (op : RunOp) : (table.step op).Tracks (ops ++ [op]) := by
  cases op with
  | append depth run chunk => exact h.step_append depth run chunk
  | finalize depths =>
      have hsame : appended (ops ++ [.finalize depths]) = appended ops := by
        funext depth run
        rw [appended, List.filterMap_append]
        exact List.append_nil _
      refine ⟨fun depth run => ?_, h.forward⟩
      rw [hsame]
      exact (h.stored depth run).imp fun extent points hstored =>
        ⟨hstored.1.finalize depths, hstored.2⟩

theorem tracks_run (baseDir : String) (ioCfg : DirectIoConfig) (files : Files) (ops : List RunOp) :
    ((start baseDir ioCfg files).run ops).Tracks ops := by
  have hrun : ∀ (table : RunTable) (done ops : List RunOp), table.Tracks done →
      (table.run ops).Tracks (done ++ ops) := by
    intro table done ops h
    induction ops generalizing table done with
    | nil => rwa [List.append_nil]
    | cons op ops ih =>
        rw [List.append_cons]
        exact ih _ _ (h.step op)
  exact hrun _ [] ops (tracks_start baseDir ioCfg files)

theorem run_baseDir (table : RunTable) (ops : List RunOp) :
    (table.run ops).store.baseDir = table.store.baseDir := by
  have hfinalize : ∀ (store : ExternalRunStore) depths,
      (store.finalize depths).baseDir = store.baseDir := by
    intro store depths
    unfold ExternalRunStore.finalize
    induction depths generalizing store with
    | nil => rfl
    | cons depth depths ih =>
        rw [List.foldl_cons, ih, ExternalRunStore.finalizeWriter]
        split <;> rfl
  have hstep : ∀ (table : RunTable) op, (table.step op).store.baseDir = table.store.baseDir := by
    intro table op
    cases op with
    | append depth run chunk =>
        change (table.store.appendPoints depth chunk.points).2.baseDir = _
        unfold ExternalRunStore.appendPoints
        cases table.store.appender depth <;> rfl
    | finalize depths => exact hfinalize ..
  unfold run
  induction ops generalizing table with
  | nil => rfl
  | cons op ops ih => exact (ih _).trans (hstep table op)

/-! ## Reading back -/

theorem readChain_of_stored {store : ExternalRunStore} {depth : Nat} {extents : List RunExtent}
    {chunks : List (List UInt32)} (h : List.Forall₂ (fun extent points =>
      store.Stored depth extent points ∧ extent.len = points.length) extents chunks) :
    store.readChildRunChain depth extents = .ok chunks.flatten := by
  induction h with
  | nil => rfl
  | cons hextent _ ih =>
      rw [ExternalRunStore.readChildRunChain, hextent.1.readChildRun, ih]
      rfl

/-- By path, a stored run is read with any configuration. -/
theorem readChainFromPath_of_stored {store : ExternalRunStore} (ioCfg : DirectIoConfig)
    {depth : Nat} {extents : List RunExtent} {chunks : List (List UInt32)}
    (h : List.Forall₂ (fun extent points =>
      store.Stored depth extent points ∧ extent.len = points.length) extents chunks) :
    readChildRunChainFromPath store.files store.baseDir ioCfg depth extents =
      .ok chunks.flatten := by
  induction h with
  | nil => rfl
  | @cons extent points extents chunks hextent _ ih =>
      have hread : readRunPointsFromPath store.files (runsPath store.baseDir depth) ioCfg extent =
          .ok points := by
        have hfile : store.files (runsPath store.baseDir depth) = some (store.runFile depth) :=
          hextent.1.present
        rw [readRunPointsFromPath, hfile]
        exact ExternalRunStore.readRunPoints_of_holds ioCfg _ hextent.1.holds hextent.1.fits
      rw [readChildRunChainFromPath, hread, ih]
      rfl

theorem Tracks.forwardRun (h : table.Tracks ops) (depth run : Nat) (seed : UInt64) :
    ForwardRun (table.store.runFile depth) (table.childRun depth run seed)
      (appended ops depth run) where
  holds := (h.stored depth run).imp fun _ _ hstored =>
    ⟨hstored.1.holds, hstored.2, hstored.1.fits⟩
  forward := h.forward depth run

/-- What is read of the runs of a depth, whichever of its runs are asked for in a batch. -/
structure ReadsBack (baseDir : String) (table : RunTable) (ops : List RunOp) : Prop where
  chain : ∀ depth run, table.store.readChildRunChain depth (table.extents depth run) =
    .ok (appended ops depth run).flatten
  chainFromPath : ∀ ioCfg depth run, readChildRunChainFromPath table.store.files baseDir ioCfg
    depth (table.extents depth run) = .ok (appended ops depth run).flatten
  batched : ∀ ioCfg sorts depth (runs : List (Nat × UInt64)), ∃ stats,
    readChildRunsBatchedFromPath table.store.files baseDir ioCfg sorts depth
        (runs.map fun run => table.childRun depth run.1 run.2) =
      .ok (runs.map fun run => (appended ops depth run.1).flatten, stats)

/-- Whatever the files were and however the runs were extended, each run reads back. -/
theorem run_readsBack (baseDir : String) (ioCfg : DirectIoConfig) (files : Files)
    (ops : List RunOp) : ReadsBack baseDir ((start baseDir ioCfg files).run ops) ops := by
  have htracks := tracks_run baseDir ioCfg files ops
  have hbase : ((start baseDir ioCfg files).run ops).store.baseDir = baseDir := run_baseDir _ ops
  generalize (start baseDir ioCfg files).run ops = table at htracks hbase
  subst hbase
  refine ⟨fun depth run => readChain_of_stored (htracks.stored depth run),
    fun ioCfg depth run => readChainFromPath_of_stored ioCfg (htracks.stored depth run), ?_⟩
  intro ioCfg sorts depth runs
  have hruns : List.Forall₂ (ForwardRun (table.store.runFile depth))
      (runs.map fun run => table.childRun depth run.1 run.2)
      (runs.map fun run => appended ops depth run.1) := by
    rw [List.forall₂_map_left_iff, List.forall₂_map_right_iff]
    exact List.forall₂_same.mpr fun run _ => htracks.forwardRun depth run.1 run.2
  have hfile : ∀ run ∈ runs.map fun run => table.childRun depth run.1 run.2, run.extents ≠ [] →
      table.store.files (runsPath table.store.baseDir depth) =
        some (table.store.runFile depth) := by
    intro run hrun hne
    obtain ⟨⟨r, seed⟩, -, rfl⟩ := List.mem_map.mp hrun
    obtain ⟨extent, hextent⟩ := List.exists_mem_of_ne_nil _ hne
    obtain ⟨points, -, hstored, -⟩ := exists_of_mem_forall₂ (htracks.stored depth r).flip hextent
    exact hstored.present
  obtain ⟨stats, hread⟩ := readChildRunsBatched_eq hfile hruns
  rw [List.map_map] at hread
  exact ⟨stats, hread⟩

theorem singlePoint_fits (p : UInt32) : [p].length < 2 ^ 64 := by
  rw [List.length_singleton]
  decide

/-- Two points one after the other into a run, one into another, and a flush between. -/
def threeAppends : List RunOp :=
  [.append 0 1 ⟨[7], singlePoint_fits 7⟩, .append 0 2 ⟨[4], singlePoint_fits 4⟩, .finalize [0],
    .append 0 1 ⟨[9], singlePoint_fits 9⟩]

theorem run_readsBack_three_appends :
    let table := (start "spill" (.enabledWithAlignment 4096) fun _ => none).run threeAppends
    table.store.readChildRunChain 0 (table.extents 0 1) = .ok [7, 9] ∧
      table.store.readChildRunChain 0 (table.extents 0 2) = .ok [4] ∧
      ReadsBack "spill" table threeAppends := by
  have hreads := run_readsBack "spill" (.enabledWithAlignment 4096) (fun _ => none) threeAppends
  exact ⟨hreads.chain 0 1, hreads.chain 0 2, hreads⟩

end RunTable

end ForgeANN
