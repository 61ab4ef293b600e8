-- SUMMARY: The rows of some points read through the pipeline and kept: each is read as the dataset reads it.
import ForgeANN.Common.FloatArith
import ForgeANN.Points.PipelineMoves
import ForgeANN.Points.ResidentSubset

/-!
# Hydration

The ids are read in batches, which the pipeline gives back in their order, and the
rows make a resident subset.
-/
namespace ForgeANN

open Lib PointPipeline

/-- How a point store is read: a point, or the rows of a batch one behind the other, whichever
way the batch is read. -/
structure PointReads where
  dim : Nat
  readPoint : UInt32 → AnnResult (List F32)
  readPoints : List UInt32 → AnnResult (List F32)
  isResidentSubset : Bool

/-- `l2_distance_sq`. -/
def l2DistanceSq (lhs rhs : List F32) : F32 :=
  (List.zipWith (fun a b => (a.sub b).mul (a.sub b)) lhs rhs).foldl F32.add F32.zero

namespace PointReads

/-- Every metric takes the squared L2 distance. -/
def getDistance (reads : PointReads) (lhs rhs : UInt32) : AnnResult F32 := do
  let a ← reads.readPoint lhs
  let b ← reads.readPoint rhs
  .ok (l2DistanceSq a b)

/-- A batch is read as its points are, each by itself. -/
def Alike (reads : PointReads) : Prop :=
  ∀ ids data, reads.readPoints ids = .ok data →
    ∃ rows, ids.mapM reads.readPoint = .ok rows ∧ rows.flatten = data ∧
      ∀ row ∈ rows, row.length = reads.dim

/-- The reads of a resident subset, into buffers of the size asked for. -/
def ofResidentSubset (store : ResidentSubsetPointStore) : PointReads where
  dim := store.width
  readPoint pid := store.readPointInto pid (List.replicate store.width .zero)
  readPoints ids := store.readPointsInto ids (List.replicate (ids.length * store.width) .zero)
  isResidentSubset := true

/-- All ids in one batch, or in several where the budget does not allow for that. -/
def hydrationCall (config : PointPipelineConfig) (reads : PointReads) (ids : List UInt32) : Call where
  dim := reads.dim
  ids
  batchPoints := max ids.length 1
  config := { config with
    budgetBytes := if config.budgetBytes = 0 then max (ids.length * reads.dim * 4) 1
      else config.budgetBytes }

/-- `hydrate_resident_subset_with_stats`. -/
def hydrateResidentSubset (sort : TableSort) (config : PointPipelineConfig) (reads : PointReads)
    (ids : List UInt32) : AnnResult ResidentSubsetPointStore := do
  let batches ← (hydrationCall config reads ids).chunkIds.mapM reads.readPoints
  ResidentSubsetPointStore.new sort ids reads.dim batches.flatten

/-! ## What has been read -/

variable {reads : PointReads} {sort : TableSort} {config : PointPipelineConfig}
  {ids : List UInt32} {store : ResidentSubsetPointStore}

/-- The row of a point that can be read. -/
def rowOf (reads : PointReads) (pid : UInt32) : List F32 := (reads.readPoint pid).toOption.getD []

theorem readPoint_of_mapM {rows : List (List F32)} (h : ids.mapM reads.readPoint = .ok rows) :
    rows = ids.map reads.rowOf ∧ ∀ pid ∈ ids, reads.readPoint pid = .ok (reads.rowOf pid) := by
  have hrows := forall₂_of_mapM h
  clear h
  induction hrows with
  | nil => exact ⟨rfl, fun _ hpid => by cases hpid⟩
  | @cons pid row ids rows hread _ ih =>
      have hrow : reads.rowOf pid = row := by
        rw [rowOf, hread]
        rfl
      refine ⟨by rw [List.map_cons, hrow, ← ih.1], fun q hq => ?_⟩
      rcases List.mem_cons.mp hq with rfl | hq
      · rw [hrow, hread]
      · exact ih.2 q hq

/-- Batches of a chunk each are the rows of all ids. -/
theorem batches_flatten (halike : reads.Alike) (parts : List (List UInt32))
    {batches : List (List F32)} (h : parts.mapM reads.readPoints = .ok batches) :
    batches.flatten = parts.flatten.flatMap reads.rowOf ∧ ∀ pid ∈ parts.flatten,
      reads.readPoint pid = .ok (reads.rowOf pid) ∧ (reads.rowOf pid).length = reads.dim := by
  have hbatches := forall₂_of_mapM h
  clear h
  induction hbatches with
  | nil => exact ⟨rfl, fun _ hpid => by cases hpid⟩
  | @cons part batch parts batches hread _ ih =>
      obtain ⟨rows, hrows, rfl, hwidth⟩ := halike part batch hread
      obtain ⟨rfl, hpart⟩ := readPoint_of_mapM hrows
      rw [List.flatten_cons, List.flatten_cons, List.flatMap_append, ih.1, ← List.flatMap_def]
      refine ⟨rfl, fun pid hpid => ?_⟩
      rcases List.mem_append.mp hpid with hpid | hpid
      · exact ⟨hpart pid hpid, hwidth _ (List.mem_map_of_mem hpid)⟩
      · exact ih.2 pid hpid

theorem hydrateResidentSubset_of (halike : reads.Alike)
    (h : hydrateResidentSubset sort config reads ids = .ok store) :
    store.Of reads.rowOf ∧ store.globalIds = ids ∧ store.width = reads.dim ∧
      ∀ pid ∈ ids, reads.readPoint pid = .ok (reads.rowOf pid) := by
  obtain ⟨batches, hbatches, hnew⟩ := bind_eq_ok.mp h
  obtain ⟨hdata, hread⟩ := batches_flatten halike _ hbatches
  have hids : (hydrationCall config reads ids).chunkIds.flatten = ids :=
    chunks_flatten (Call.effectiveBatchPoints_pos _) ids
  rw [hids] at hdata hread
  rw [hdata, ResidentSubsetPointStore.new] at hnew
  split_ifs at hnew with hdim hsize
  cases hnew
  refine ⟨ResidentRows.new_of sort (not_not.mp hsize) fun i pid hi =>
    slot_flatMap (fun q hq => (hread q hq).2) hi, rfl, rfl, fun pid hpid => (hread pid hpid).1⟩

/-- A point is read from the subset as it is from the dataset. -/
theorem readPoint_hydrated (halike : reads.Alike)
    (h : hydrateResidentSubset sort config reads ids = .ok store) {pid : UInt32} (hpid : pid ∈ ids) :
    (ofResidentSubset store).readPoint pid = reads.readPoint pid := by
  obtain ⟨hof, hids, -, hread⟩ := hydrateResidentSubset_of halike h
  rw [hread pid hpid]
  exact ResidentSubsetPointStore.readPointInto_of_mem hof (hids ▸ hpid) List.length_replicate

/-- A resident subset is read alike. -/
theorem ofResidentSubset_alike {f : UInt32 → List F32} (h : store.Of f) :
    (ofResidentSubset store).Alike := by
  intro ids data hread
  obtain ⟨hok, herr⟩ := (ResidentSubsetPointStore.faithfulBatch h).points ids
    (List.replicate (ids.length * store.width) .zero) List.length_replicate
  by_cases hall : ∀ pid ∈ ids, pid ∈ store.globalIds
  · refine ⟨ids.map f, mapM_eq_ok_map fun pid hpid => ?_, ?_, ?_⟩
    · exact ResidentSubsetPointStore.readPointInto_of_mem h (hall pid hpid) List.length_replicate
    · have hdata : store.readPointsInto ids _ = .ok data := hread
      rw [hok hall] at hdata
      rw [← List.flatMap_def]
      exact Except.ok.inj hdata
    · intro row hrow
      obtain ⟨pid, hpid, rfl⟩ := List.mem_map.mp hrow
      exact h.row_length_of_mem (hall pid hpid)
  · push Not at hall
    obtain ⟨err, herr⟩ := herr hall
    have hdata : store.readPointsInto ids _ = .ok data := hread
    rw [herr] at hdata
    cases hdata

end PointReads

end ForgeANN
