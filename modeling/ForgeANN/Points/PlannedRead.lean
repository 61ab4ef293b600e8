-- SUMMARY: Reading the rows of a chunk by windows, through a cache that other workers share.
import ForgeANN.Gather.BoundedPlan
import ForgeANN.Points.Pipeline
import ForgeANN.Points.WindowCache

/-!
# Planned reads

The rows of a chunk are read in windows that the bounded planner has laid over
them, and copied from there to where they were asked for. Between two windows
other workers may look into the cache, and change it.
-/
namespace ForgeANN

open Lib

/-! ## Point stores -/

/-- What a point store offers the pipeline. A read that gets through gives rows of the points; a
bounded plan may be left to the caller, with the buffer in any state. -/
structure PointStore where
  dim : Nat
  row : UInt32 → List F32
  isResidentSubset : Bool
  readPointsInto : List UInt32 → List F32 → AnnResult (List F32)
  readRangeInto : UInt32 → Nat → List F32 → AnnResult (List F32)
  readBoundedPlanInto : BoundedReadPlan → List F32 → AnnResult (Bool × List F32)
  row_length : ∀ pid, (row pid).length = dim
  points_eq : ∀ {ids out data}, out.length = ids.length * dim →
    readPointsInto ids out = .ok data → data = ids.flatMap row
  range_eq : ∀ {startPid count out data}, out.length = count * dim →
    startPid.toNat + count ≤ 2 ^ 32 → readRangeInto startPid count out = .ok data →
      data = (List.range count).flatMap fun k => row (startPid + UInt32.ofNat k)
  bounded_eq : ∀ {ids plan out data}, PlanCovers ids plan → out.length = ids.length * dim →
    readBoundedPlanInto plan out = .ok (true, data) → data = ids.flatMap row
  bounded_length : ∀ {plan out done data}, readBoundedPlanInto plan out = .ok (done, data) →
    data.length = out.length

namespace PointStore

variable (store : PointStore)

/-- The rows of a window. -/
def windowRows (startPid : UInt32) (count : Nat) : List F32 :=
  (List.range count).flatMap fun k => store.row (startPid + UInt32.ofNat k)

end PointStore

namespace PointPipeline

/-! ## The steps of a read -/

/-- Where `read_points_planned_into_batch_stats` is. -/
inductive PlannedPc where
  | start (ids : List UInt32)
  /-- Before the look into the cache. -/
  | lookup (windowIdx : Nat) (windows : List ReadWindow) (scatter : List ReadScatter)
      (out : List F32)
  /-- The window is not in the cache. -/
  | load (windowIdx : Nat) (window : ReadWindow) (windows : List ReadWindow)
      (windowScatter scatter : List ReadScatter) (out : List F32)
  /-- An error, or a panic: the read does not go on. -/
  | failed (err : AnnError)

variable (store : PointStore) (config : PointPipelineConfig) (sort : RowSort)

def readPlanner : BoundedReadPlanner where
  rowBytes := max (store.dim * 4) 1
  maxWindowBytes := max config.maxWindowBytes 1
  maxReadAmplification := config.maxReadAmplification

def readPlan (ids : List UInt32) : BoundedReadPlan := (readPlanner store config).plan sort ids

/-- Rows of a window copied to where they were asked for. -/
def scatterRows (data : List F32) (windowScatter : List ReadScatter) (out : List F32) :
    AnnResult (List F32) :=
  windowScatter.foldlM (fun out scatter =>
    copySlice data (scatter.rowOffsetInWindow.toNat * store.dim) out
      (scatter.originalPos * store.dim) store.dim) out

/-- On to the next window. -/
def nextWindow (windowIdx : Nat) (windows : List ReadWindow) (scatter : List ReadScatter)
    (copied : AnnResult (List F32)) : PlannedPc :=
  match copied with
  | .ok out => .lookup (windowIdx + 1) windows scatter out
  | .error err => .failed err

def startRead (cached : Bool) (ids : List UInt32) : PlannedPc ⊕ List F32 :=
  let out := List.replicate (ids.length * store.dim) F32.zero
  if store.isResidentSubset then
    match store.readPointsInto ids out with
    | .ok data => .inr data
    | .error err => .inl (.failed err)
  else
    let plan := readPlan store config sort ids
    if cached then .inl (.lookup 0 plan.windows plan.scatter out)
    else
      match store.readBoundedPlanInto plan out with
      | .ok (true, data) => .inr data
      | .ok (false, out) => .inl (.lookup 0 plan.windows plan.scatter out)
      | .error err => .inl (.failed err)

def windowKey (window : ReadWindow) : VectorWindowKey := ⟨window.startRow, window.rowCount⟩

/-- The cache is there if it has a budget; its lock is held within a step. -/
def plannedStep (cache : Option VectorWindowCache) :
    PlannedPc → Option VectorWindowCache × (PlannedPc ⊕ List F32)
  | .start ids => (cache, startRead store config sort cache.isSome ids)
  | .lookup _ [] _ out => (cache, .inr out)
  | .lookup windowIdx (window :: windows) scatter out =>
      let windowScatter := scatter.takeWhile fun s => s.windowIdx = windowIdx
      let rest := scatter.dropWhile fun s => s.windowIdx = windowIdx
      let load := PlannedPc.load windowIdx window windows windowScatter rest out
      match cache with
      | none => (none, .inl load)
      | some vectors =>
          let (vectors, hit) := vectors.get (windowKey window)
          match hit with
          | some data =>
              (some vectors,
                .inl (nextWindow windowIdx windows rest (scatterRows store data windowScatter out)))
          | none => (some vectors, .inl load)
  | .load windowIdx window windows windowScatter scatter out =>
      let rows := window.rowCount.toNat
      match store.readRangeInto window.startRow rows (List.replicate (rows * store.dim) F32.zero) with
      | .ok data =>
          (cache.map fun vectors => vectors.insert (windowKey window) data,
            .inl (nextWindow windowIdx windows scatter (scatterRows store data windowScatter out)))
      | .error err => (cache, .inl (.failed err))
  | .failed _ => (cache, .inr [])

def plannedFuel : PlannedPc → Nat
  | .start ids => 2 * (readPlan store config sort ids).windows.length + 3
  | .lookup _ windows _ _ => 2 * windows.length + 2
  | .load _ _ windows _ _ _ => 2 * windows.length + 3
  | .failed _ => 0

theorem nextWindow_fuel {windowIdx : Nat} {windows : List ReadWindow} {scatter : List ReadScatter}
    {copied : AnnResult (List F32)} {n : Nat} (h : 2 * windows.length + 2 < n) :
    plannedFuel store config sort (nextWindow windowIdx windows scatter copied) < n := by
  cases copied with
  | ok out => exact h
  | error err => exact Nat.lt_of_le_of_lt (Nat.zero_le _) h

theorem plannedStep_fuel {cache cache' : Option VectorWindowCache} {pc pc' : PlannedPc}
    (h : plannedStep store config sort cache pc = (cache', .inl pc')) :
    plannedFuel store config sort pc' < plannedFuel store config sort pc := by
  cases pc with
  | start ids =>
      rw [plannedStep, Prod.mk.injEq] at h
      obtain ⟨-, h⟩ := h
      simp only [startRead] at h
      split_ifs at h
      · split at h <;> cases h
        exact Nat.succ_pos _
      · cases h
        exact Nat.lt_succ_self _
      · split at h <;> cases h
        · exact Nat.lt_succ_self _
        · exact Nat.succ_pos _
  | lookup windowIdx windows scatter out =>
      cases windows with
      | nil => cases h
      | cons window windows =>
          simp only [plannedStep] at h
          split at h
          · cases h
            simp only [plannedFuel, List.length_cons]
            omega
          · split at h <;> cases h
            · apply nextWindow_fuel
              simp only [plannedFuel, List.length_cons]
              omega
            · simp only [plannedFuel, List.length_cons]
              omega
  | load windowIdx window windows windowScatter scatter out =>
      simp only [plannedStep] at h
      split at h <;> cases h
      · apply nextWindow_fuel
        exact Nat.lt_succ_self _
      · exact Nat.succ_pos _
  | failed err => cases h

/-- The reader of the pipeline's workers. -/
def plannedReader : Reader (Option VectorWindowCache) PlannedPc where
  start := .start
  step := plannedStep store config sort
  fuel := plannedFuel store config sort
  fuel_lt := plannedStep_fuel store config sort

def PlannedPc.isFailed : PlannedPc → Bool
  | .failed _ => true
  | _ => false

end PointPipeline

end ForgeANN
