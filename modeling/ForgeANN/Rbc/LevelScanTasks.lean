-- SUMMARY: The compute tasks of a level scan cut each run's share into chunks, in order, and each output holds its chunk's records.
import ForgeANN.Rbc.LevelScanRecords

/-!
# Compute tasks of a level scan

A task is a chunk of what a run has in the batch. Grouping the batch by runs
keeps the order of the occurrences, so the chunks of a run make up its share;
and their keys are increasing, so sorting the outputs changes nothing.
-/
namespace ForgeANN

open Lib

variable {Row : Type} {scan : LevelScan Row} {run : D1LevelScanRun Row}

/-! ## Chunks -/

theorem stepBy_slices_take {α : Type} (size : Nat) (l : List α) (n : Nat) :
    (List.range n).flatMap (fun k => subslice l (k * size) (min (k * size + size) l.length)) =
      l.take (n * size) := by
  induction n with
  | zero => simp
  | succ n ih =>
      have hslice : subslice l (n * size) (min (n * size + size) l.length) =
          (l.drop (n * size)).take size := by
        rw [subslice, Nat.min_def]
        split_ifs with hle
        · rw [Nat.add_sub_cancel_left]
        · have hall : (l.drop (n * size)).length ≤ size := by
            rw [List.length_drop]
            omega
          rw [List.take_of_length_le hall, List.take_of_length_le (Nat.le_of_eq List.length_drop)]
      rw [List.range_succ, List.flatMap_append, ih, List.flatMap_cons, List.flatMap_nil,
        List.append_nil, hslice, ← List.take_add, Nat.succ_mul]

theorem le_ceil_mul {size : Nat} (hsize : 0 < size) (len : Nat) :
    len ≤ (len + size - 1) / size * size := by
  have hdiv := Nat.div_add_mod (len + size - 1) size
  have hmod := Nat.mod_lt (len + size - 1) hsize
  rw [Nat.mul_comm] at hdiv
  omega

/-- The chunks make up the list. -/
theorem stepBy_slices {α : Type} {size : Nat} (hsize : 0 < size) (l : List α) :
    (stepBy size l.length).flatMap (fun p => subslice l p.1 p.2) = l := by
  rw [stepBy, List.flatMap_map]
  exact (stepBy_slices_take size l _).trans (List.take_of_length_le (le_ceil_mul hsize _))

theorem stepBy_lt {size len : Nat} (hsize : 0 < size) {p : Nat × Nat} (h : p ∈ stepBy size len) :
    p.1 < len := by
  obtain ⟨k, hk, rfl⟩ := List.mem_map.mp h
  have hlt : k < (len + size - 1) / size := List.mem_range.mp hk
  have hle : (k + 1) * size ≤ len + size - 1 := (Nat.le_div_iff_mul_le hsize).mp hlt
  rw [Nat.succ_mul] at hle
  omega

theorem stepBy_pairwise {size : Nat} (hsize : 0 < size) (len : Nat) :
    (stepBy size len).Pairwise fun p q => p.1 < q.1 := by
  rw [stepBy, List.pairwise_map]
  exact List.pairwise_lt_range.imp fun hlt => Nat.mul_lt_mul_of_pos_right hlt hsize

/-! ## Tasks -/

abbrev Shares := Nat → List (UInt32 × D1LevelScanOccurrence)

/-- The tasks of one run: the chunks of its share, each with the place in the run it starts at. -/
def tasksOf (share : Shares) (size r : Nat) : List D1LevelScanComputeTask :=
  (stepBy size (share r).length).filterMap fun p =>
    (share r)[p.1]?.map fun entry => ⟨r, p.1, p.2, entry.2.localIdx⟩

def taskEntries (share : Shares) (task : D1LevelScanComputeTask) :
    List (UInt32 × D1LevelScanOccurrence) :=
  subslice (share task.runIdx) task.pointStart task.pointEnd

variable {share : Shares} {size : Nat}

theorem mem_tasksOf {r : Nat} {task : D1LevelScanComputeTask} (h : task ∈ tasksOf share size r) :
    task.runIdx = r := by
  obtain ⟨p, -, hp⟩ := List.mem_filterMap.mp h
  obtain ⟨entry, -, rfl⟩ := Option.map_eq_some_iff.mp hp
  rfl

theorem tasksOf_entries (hsize : 0 < size) (r : Nat) :
    (tasksOf share size r).flatMap (taskEntries share) = share r := by
  have hpart : ∀ parts : List (Nat × Nat), (∀ p ∈ parts, p.1 < (share r).length) →
      (parts.filterMap fun p => (share r)[p.1]?.map fun entry =>
        (⟨r, p.1, p.2, entry.2.localIdx⟩ : D1LevelScanComputeTask)).flatMap (taskEntries share) =
      parts.flatMap fun p => subslice (share r) p.1 p.2 := by
    intro parts
    induction parts with
    | nil => exact fun _ => rfl
    | cons p parts ih =>
        intro hlt
        rw [List.filterMap_cons, List.getElem?_eq_getElem (hlt p List.mem_cons_self), Option.map_some]
        simp only [List.flatMap_cons]
        rw [ih fun q hq => hlt q (List.mem_cons_of_mem _ hq)]
        rfl
  rw [tasksOf, hpart _ fun p hp => stepBy_lt hsize hp]
  exact stepBy_slices hsize (share r)

/-- The tasks of all runs. -/
def allTasks (share : Shares) (size n : Nat) : List D1LevelScanComputeTask :=
  (List.range n).flatMap (tasksOf share size)

/-- What the tasks of a run are about is its share. -/
theorem allTasks_share (hsize : 0 < size) {r n : Nat} (hr : r < n) :
    (allTasks share size n).flatMap (fun task => if task.runIdx = r then taskEntries share task else []) =
      share r := by
  rw [allTasks, List.flatMap_assoc, flatMap_eq_of_unique List.nodup_range (List.mem_range.mpr hr)]
  · refine (List.flatMap_congr fun task htask => ?_).trans (tasksOf_entries hsize r)
    rw [if_pos (mem_tasksOf htask)]
  · intro other _ hother
    rw [List.flatMap_eq_nil_iff]
    intro task htask
    rw [if_neg (mem_tasksOf htask ▸ hother)]

/-- The tasks are in the order of their runs and of the places they start at. -/
theorem allTasks_pairwise (hsize : 0 < size)
    (hshare : ∀ r, (share r).Pairwise fun a b => a.2.localIdx < b.2.localIdx) (n : Nat) :
    (allTasks share size n).Pairwise fun a b =>
      toLex (a.runIdx, a.runPointStart) < toLex (b.runIdx, b.runPointStart) := by
  rw [allTasks, List.pairwise_flatMap]
  refine ⟨fun r _ => ?_, List.pairwise_lt_range.imp fun {r r'} hlt a ha b hb => ?_⟩
  · rw [tasksOf, List.pairwise_filterMap]
    refine (stepBy_pairwise hsize _).imp fun {p q} hlt a ha b hb => ?_
    obtain ⟨entry, hentry, rfl⟩ := Option.map_eq_some_iff.mp ha
    obtain ⟨entry', hentry', rfl⟩ := Option.map_eq_some_iff.mp hb
    refine Prod.Lex.toLex_lt_toLex.mpr (.inr ⟨rfl, ?_⟩)
    obtain ⟨hp, rfl⟩ := List.getElem?_eq_some_iff.mp hentry
    obtain ⟨hq, rfl⟩ := List.getElem?_eq_some_iff.mp hentry'
    exact List.pairwise_iff_getElem.mp (hshare r) _ _ hp hq hlt
  · rw [← mem_tasksOf ha, ← mem_tasksOf hb] at hlt
    exact Prod.Lex.toLex_lt_toLex.mpr (.inl hlt)

/-! ## Outputs -/

/-- What is computed for the tasks, in their order: each output holds the records of its task. -/
def Computes (scan : LevelScan Row) (share : Shares) (tasks : List D1LevelScanComputeTask)
    (outputs : List D1LevelScanRunBatchOutput) : Prop :=
  List.Forall₂ (fun task output => (∃ run assignment,
    Encodes scan (taskEntries share task) run assignment output) ∧
      output.key = toLex (task.runIdx, task.runPointStart)) tasks outputs

variable {outputs : List D1LevelScanRunBatchOutput} {n : Nat}

theorem Computes.sort_eq (h : Computes scan share (allTasks share size n) outputs)
    (hsize : 0 < size) (hshare : ∀ r, (share r).Pairwise fun a b => a.2.localIdx < b.2.localIdx) :
    scan.sortOutputs.sort outputs = outputs := by
  refine scan.sortOutputs.eq_self (pairwise_of_forall₂ h (allTasks_pairwise hsize hshare n) ?_)
  intro a a' b b' hlt hab hab'
  rw [hab.2, hab'.2]
  exact hlt

/-- A batch adds to each run the records of its share. -/
theorem Recorded.applyTasks {result : D1LevelScanResult} {r : Nat}
    {entries : List (UInt32 × D1LevelScanOccurrence)} (h : Recorded scan result r run entries)
    (hr : scan.runs[r]? = some run)
    (houtputs : Computes scan share (allTasks share size scan.runs.length) outputs)
    (hsize : 0 < size) :
    Recorded scan (result.applyD1LevelScanComputedBatch outputs) r run (entries ++ share r) := by
  have hlt : r < scan.runs.length := (List.getElem?_eq_some_iff.mp hr).1
  have hparts : List.Forall₂ (fun part output => ∃ run' assignment,
      Encodes scan part run' assignment output)
      ((allTasks share size scan.runs.length).map (taskEntries share)) outputs := by
    rw [List.forall₂_map_left_iff]
    exact houtputs.imp fun _ _ hcase => hcase.1
  have happly := h.applyOutputs hr hparts
  suffices hshare : (((allTasks share size scan.runs.length).map (taskEntries share)).zip
      outputs).flatMap (fun p => if p.2.runIdx = r then p.1 else []) = share r by
    rwa [hshare] at happly
  refine Eq.trans ?_ (allTasks_share hsize hlt)
  clear hparts happly
  generalize allTasks share size scan.runs.length = tasks at houtputs
  induction houtputs with
  | nil => rfl
  | @cons task output tasks outputs hcase _ ih =>
      have hrun : output.runIdx = task.runIdx := congrArg (fun key => (ofLex key).1) hcase.2
      rw [List.map_cons, List.zip_cons_cons, List.flatMap_cons, List.flatMap_cons, ih, hrun]

end ForgeANN
