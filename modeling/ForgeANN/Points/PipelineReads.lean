-- SUMMARY: What the consumer of the point pipeline is given: the rows of the chunks, in the order of the chunks.
import ForgeANN.Points.Hydrate
import ForgeANN.Points.MappedStore
import ForgeANN.Points.PipelineRuns
import ForgeANN.Points.PlannedRows

/-!
# The rows the pipeline gives

Workers read chunks in any order, through windows that they share. What comes to
the consumer is of the chunk it is said to be, and the consumer puts the chunks
in order.
-/
namespace ForgeANN

open Lib

namespace PointPipeline

variable {κ ρ : Type} {call : Call} {reader : Reader κ ρ} {s t : State κ ρ} {a : Action}

/-! ## Readers that give rows -/

/-- What is known of a reader whose reads, if they do not get stuck, give the rows of their ids. -/
structure ReadsRows (reader : Reader κ ρ) (stuck : ρ → Bool) (good : κ → Prop)
    (tracks : List UInt32 → ρ → Prop) (rows : List UInt32 → List F32) : Prop where
  start : ∀ ids, tracks ids (reader.start ids)
  goesOn : ∀ {ids cache cache' r r'}, good cache → tracks ids r → stuck r = false →
    reader.step cache r = (cache', .inl r') → good cache' ∧ tracks ids r'
  ends : ∀ {ids cache cache' r data}, good cache → tracks ids r → stuck r = false →
    reader.step cache r = (cache', .inr data) → good cache' ∧ data = rows ids

/-- A read that is stuck does not go on: the worker gives its error instead. -/
def readsOn (stuck : ρ → Bool) (s : State κ ρ) : Action → Bool
  | .worker j =>
      match s.workers[j]? with
      | some (.reading _ r) => !stuck r
      | _ => true
  | _ => true

theorem stuck_eq_false {stuck : ρ → Bool} {j seq : Nat} {r : ρ}
    (h : readsOn stuck s (.worker j) = true) (hj : s.workers[j]? = some (.reading seq r)) :
    stuck r = false := by
  simpa only [readsOn, hj, Bool.not_eq_true'] using h

/-! ## What is on its way -/

/-- The rows of a chunk. -/
def chunkRows (call : Call) (rows : List UInt32 → List F32) (seq : Nat) : List F32 :=
  rows (call.chunk seq)

/-- A worker is at its chunk, or has read it. -/
def WorkerPc.Carries (call : Call) (tracks : List UInt32 → ρ → Prop)
    (rows : List UInt32 → List F32) : WorkerPc ρ → Prop
  | .reading seq r => tracks (call.chunk seq) r
  | .sending (.ok (seq, data)) => data = chunkRows call rows seq
  | _ => True

/-- How many chunks the consumer has been given, and that it was given the first ones. -/
structure Given (call : Call) (rows : List UInt32 → List F32) (consumer : ConsumerPc)
    (consumed : List (List F32)) (n : Nat) : Prop where
  le : n ≤ call.batchCount
  consumed : consumed = (List.range n).map (chunkRows call rows)
  receiving : ∀ expected, consumer = .receiving expected → n = expected
  finished : consumer = .finished (.ok ()) → n = call.batchCount

structure Delivers (call : Call) (good : κ → Prop) (tracks : List UInt32 → ρ → Prop)
    (rows : List UInt32 → List F32) (s : State κ ρ) : Prop where
  cache : good s.cache
  workers : ∀ pc ∈ s.workers, pc.Carries call tracks rows
  ready : ∀ seq data, .ok (seq, data) ∈ s.ready → data = chunkRows call rows seq
  pending : ∀ entry ∈ s.pending, entry.2 = chunkRows call rows entry.1
  given : ∃ n, Given call rows s.consumer s.consumed n

variable {stuck : ρ → Bool} {good : κ → Prop} {tracks : List UInt32 → ρ → Prop}
  {rows : List UInt32 → List F32}

/-- On the way out with an error, nothing more is given. -/
theorem Given.stop {consumer consumer' : ConsumerPc} {consumed : List (List F32)} {n : Nat}
    (h : Given call rows consumer consumed n) (hreceiving : ∀ expected, consumer' ≠ .receiving expected)
    (hfinished : consumer' ≠ .finished (.ok ())) : Given call rows consumer' consumed n where
  le := h.le
  consumed := h.consumed
  receiving expected hc := absurd hc (hreceiving expected)
  finished hc := absurd hc hfinished

namespace Delivers

theorem initial {cache : κ} (hgood : good cache) :
    Delivers call good tracks rows (PointPipeline.initial (ρ := ρ) call cache) where
  cache := hgood
  workers pc hpc := by
    rw [List.eq_of_mem_replicate hpc]
    exact trivial
  ready _ _ h := by cases h
  pending _ h := by cases h
  given := by
    refine ⟨0, Nat.zero_le _, rfl, fun expected hc => ?_, fun hc => ?_⟩
    · cases hc
      rfl
    · cases hc

/-- A worker goes on. -/
theorem setWorker (h : Delivers call good tracks rows s) {pc : WorkerPc ρ} {j : Nat}
    (hpc : pc.Carries call tracks rows) : Delivers call good tracks rows (s.setWorker j pc) where
  cache := h.cache
  workers other hother := by
    rcases List.mem_or_eq_of_mem_set hother with hother | rfl
    · exact h.workers other hother
    · exact hpc
  ready := h.ready
  pending := h.pending
  given := h.given

/-- Bytes are given back. -/
theorem releases (h : Delivers call good tracks rows s) {bytes : Nat} (hrelease : Releases s bytes t) :
    Delivers call good tracks rows t := by
  cases hrelease with
  | alone => exact ⟨h.cache, h.workers, h.ready, h.pending, h.given⟩
  | wakes hj =>
      have hreleased : Delivers call good tracks rows { s with used := s.used - bytes } :=
        ⟨h.cache, h.workers, h.ready, h.pending, h.given⟩
      exact hreleased.setWorker trivial

/-- What a step of the pipeline keeps. -/
theorem move (hreads : ReadsRows reader stuck good tracks rows)
    (h : Delivers call good tracks rows s) (hmove : Move call reader s a t)
    (hon : readsOn stuck s a = true) : Delivers call good tracks rows t := by
  obtain ⟨n, hgiven⟩ := h.given
  cases hmove with
  | produce => exact ⟨h.cache, h.workers, h.ready, h.pending, h.given⟩
  | @take j seq jobs hj hjobs =>
      have htaken : Delivers call good tracks rows { s with jobs } :=
        ⟨h.cache, h.workers, h.ready, h.pending, h.given⟩
      exact htaken.setWorker trivial
  | stop hj hjobs hend => exact h.setWorker trivial
  | park hj hpc hfull => exact h.setWorker trivial
  | @acquire j seq pc hj hpc hfits =>
      have hbooked : Delivers call good tracks rows { s with used := s.used + call.bytes seq } :=
        ⟨h.cache, h.workers, h.ready, h.pending, h.given⟩
      exact hbooked.setWorker (hreads.start _)
  | @read j seq r r' cache hj hread =>
      have htracks : tracks (call.chunk seq) r := h.workers _ (List.mem_of_getElem? hj)
      obtain ⟨hgood, htracks'⟩ := hreads.goesOn h.cache htracks (stuck_eq_false hon hj) hread
      have hcache : Delivers call good tracks rows { s with cache } :=
        ⟨hgood, h.workers, h.ready, h.pending, h.given⟩
      exact hcache.setWorker htracks'
  | @loaded j seq r cache data hj hread =>
      have htracks : tracks (call.chunk seq) r := h.workers _ (List.mem_of_getElem? hj)
      obtain ⟨hgood, hdata⟩ := hreads.ends h.cache htracks (stuck_eq_false hon hj) hread
      have hcache : Delivers call good tracks rows { s with cache } :=
        ⟨hgood, h.workers, h.ready, h.pending, h.given⟩
      exact hcache.setWorker hdata
  | @send j result hj hroom =>
      have hsent : Delivers call good tracks rows { s with ready := s.ready ++ [result] } := by
        refine ⟨h.cache, h.workers, fun seq data hmem => ?_, h.pending, h.given⟩
        rcases List.mem_append.mp hmem with hold | hnew
        · exact h.ready seq data hold
        · have hcarries := h.workers _ (List.mem_of_getElem? hj)
          rw [← List.mem_singleton.mp hnew] at hcarries
          exact hcarries
      exact hsent.setWorker trivial
  | @fault j seq r err wake t hj hrelease =>
      have herr : Delivers call good tracks rows (s.setWorker j (.sending (.error err))) :=
        h.setWorker trivial
      exact herr.releases hrelease
  | finish hc =>
      refine ⟨h.cache, h.workers, h.ready, h.pending, n, hgiven.le, hgiven.consumed,
        fun expected hc' => ?_, fun _ => hgiven.receiving _ hc⟩
      cases hc'
  | @consume expected data pending wake t hc hne htake hrelease =>
      obtain ⟨hmem, hrest⟩ := Pending.take?_eq_some htake
      obtain rfl := hgiven.receiving expected hc
      have hnext : Delivers call good tracks rows { s with
          pending
          consumed := s.consumed ++ [data]
          consumer := .receiving (n + 1) } := by
        refine ⟨h.cache, h.workers, h.ready, fun e he => h.pending e (hrest e he), n + 1,
          Nat.lt_of_le_of_ne hgiven.le hne, ?_, fun expected hc' => ?_, fun hc' => ?_⟩
        · have hdata : data = chunkRows call rows n := h.pending _ hmem
          rw [hdata, hgiven.consumed, List.range_succ, List.map_append]
          rfl
        · cases hc'
          rfl
        · cases hc'
      exact hnext.releases hrelease
  | @receive expected seq data ready wake hc hne htake hready =>
      refine ⟨h.cache, h.workers, fun other row hmem => ?_, fun e he => ?_, h.given⟩
      · exact h.ready other row (hready ▸ List.mem_cons_of_mem _ hmem)
      · rcases Pending.mem_put he with rfl | he
        · exact h.ready seq data (hready ▸ List.mem_cons_self)
        · exact h.pending e he
  | @receiveError expected err ready wake hc htake hready =>
      refine ⟨h.cache, h.workers, fun other row hmem => ?_, h.pending, n, hgiven.stop nofun nofun⟩
      exact h.ready other row (hready ▸ List.mem_cons_of_mem _ hmem)
  | ended hc hne htake hready hall =>
      exact ⟨h.cache, h.workers, h.ready, h.pending, n, hgiven.stop nofun nofun⟩
  | @fails expected err data pending wake t hc htake hrelease =>
      obtain ⟨-, hrest⟩ := Pending.take?_eq_some htake
      have hdropping : Delivers call good tracks rows
          { s with pending, consumer := .dropping err } :=
        ⟨h.cache, h.workers, h.ready, fun e he => h.pending e (hrest e he), n,
          hgiven.stop nofun nofun⟩
      exact hdropping.releases hrelease
  | @drop err seq data pending wake t hc hpending hrelease =>
      have hdropped : Delivers call good tracks rows { s with pending } := by
        refine ⟨h.cache, h.workers, h.ready, fun e he => ?_, h.given⟩
        exact h.pending e (hpending ▸ List.mem_cons_of_mem _ he)
      exact hdropped.releases hrelease
  | dropped hc hpending =>
      exact ⟨h.cache, h.workers, h.ready, h.pending, n, hgiven.stop nofun nofun⟩
  | join hc hreturned hall hend =>
      exact ⟨h.cache, h.workers, fun _ _ hmem => absurd hmem List.not_mem_nil, h.pending, h.given⟩

theorem of_reaches (hreads : ReadsRows reader stuck good tracks rows) {cache : κ}
    (hgood : good cache) (h : Reaches (guarded (fun s a => readsOn stuck s a = true)
      (PointPipeline.step call reader)) (PointPipeline.initial call cache) s) :
    Delivers call good tracks rows s := by
  refine h.invariant (initial hgood) fun s a t hdelivers hs => ?_
  obtain ⟨hon, hstep⟩ := guarded_eq_some.mp hs
  exact hdelivers.move hreads (move_of_step hstep) hon

end Delivers

theorem reaches_of_guarded {C : State κ ρ → Action → Prop} [∀ s a, Decidable (C s a)]
    (h : Reaches (guarded C (step call reader)) s t) : Reaches (step call reader) s t := by
  obtain ⟨as, hrun⟩ := h
  exact ⟨as, hrun.of_guarded⟩

/-- All chunks, in their order. -/
theorem map_chunkRows (call : Call) (rows : List UInt32 → List F32) :
    (List.range call.batchCount).map (chunkRows call rows) = call.chunkIds.map rows := by
  apply List.ext_getElem
  · simp only [List.length_map, List.length_range, Call.batchCount]
  · intro i hi hi'
    rw [List.length_map] at hi'
    simp only [List.getElem_map, List.getElem_range, chunkRows, Call.chunk,
      List.getElem?_eq_getElem hi', Option.getD_some]

/-! ## The planned reader -/

variable {store : PointStore} {config : PointPipelineConfig} {sort : RowSort}

/-- The cache the workers share, if there is a budget for it. -/
def windowCache (config : PointPipelineConfig) : Option VectorWindowCache :=
  if 0 < config.windowCacheBytes then
    some (.new (UInt64.ofNat (min config.windowCacheBytes UInt64.maxNat)))
  else none

theorem cacheOf_windowCache (store : PointStore) (config : PointPipelineConfig) :
    CacheOf store (windowCache config) := by
  intro vectors h
  rw [windowCache] at h
  split_ifs at h
  cases h
  exact VectorWindowCache.holds_new _

theorem plannedReader_readsRows (store : PointStore) (config : PointPipelineConfig)
    (sort : RowSort) : ReadsRows (plannedReader store config sort) PlannedPc.isFailed
      (CacheOf store) (PlannedPc.Tracks store config sort) (fun ids => ids.flatMap store.row) where
  start _ := rfl
  goesOn hcache htracks hfailed hread := by
    have hgoes := goes_plannedStep hcache htracks hfailed
    have hread : plannedStep store config sort _ _ = _ := hread
    rwa [hread] at hgoes
  ends hcache htracks hfailed hread := by
    have hgoes := goes_plannedStep hcache htracks hfailed
    have hread : plannedStep store config sort _ _ = _ := hread
    rwa [hread] at hgoes

/-- `for_each_pipelined_point_batch` over a store. -/
def pipelineCall (store : PointStore) (config : PointPipelineConfig) (ids : List UInt32)
    (batchPoints : Nat) : Call where
  dim := store.dim
  ids
  batchPoints
  config

/-- The steps of the pipeline, in which a read that has failed does not go on. -/
def readStep (store : PointStore) (config : PointPipelineConfig) (sort : RowSort)
    (ids : List UInt32) (batchPoints : Nat) :
    State (Option VectorWindowCache) PlannedPc → Action →
      Option (State (Option VectorWindowCache) PlannedPc) :=
  guarded (fun s a => readsOn PlannedPc.isFailed s a = true)
    (step (pipelineCall store config ids batchPoints) (plannedReader store config sort))

/-- In every run of the pipeline the consumer is given the rows of the first chunks, in their order;
when the call has returned without an error it was given those of all chunks, and a resident
subset made of them is read as the store is. -/
theorem pipeline_gives_rows {ids : List UInt32} {batchPoints : Nat} (tableSort : TableSort)
    {s : State (Option VectorWindowCache) PlannedPc}
    (h : Reaches (readStep store config sort ids batchPoints)
      (initial (pipelineCall store config ids batchPoints) (windowCache config)) s) :
    s.consumed <+: (pipelineCall store config ids batchPoints).chunkIds.map
        (fun part => part.flatMap store.row) ∧
      (s.returned = some (.ok ()) →
        s.consumed = (pipelineCall store config ids batchPoints).chunkIds.map
            (fun part => part.flatMap store.row) ∧
          s.consumed.flatten = ids.flatMap store.row ∧
          ∀ subset, ResidentSubsetPointStore.new tableSort ids store.dim s.consumed.flatten =
            .ok subset → subset.Of store.row) := by
  have hdelivers := Delivers.of_reaches (plannedReader_readsRows store config sort)
    (cacheOf_windowCache store config) h
  have hcourse := Course.of_reaches (reaches_of_guarded h)
  obtain ⟨n, hgiven⟩ := hdelivers.given
  have hall := map_chunkRows (pipelineCall store config ids batchPoints)
    fun part => part.flatMap store.row
  constructor
  · rw [← hall, hgiven.consumed]
    rw [← Nat.add_sub_cancel' hgiven.le, List.range_add, List.map_append]
    exact List.prefix_append ..
  · intro hreturned
    have hn := hgiven.finished (hcourse.returned _ hreturned).1
    have hconsumed := hgiven.consumed
    rw [hn, hall] at hconsumed
    have hids : (pipelineCall store config ids batchPoints).chunkIds.flatten = ids :=
      chunks_flatten (Call.effectiveBatchPoints_pos _) ids
    have hrows : s.consumed.flatten = ids.flatMap store.row :=
      calc s.consumed.flatten
          = (pipelineCall store config ids batchPoints).chunkIds.flatMap
              fun part => part.flatMap store.row := by rw [hconsumed, ← List.flatMap_def]
        _ = ((pipelineCall store config ids batchPoints).chunkIds.flatMap id).flatMap store.row :=
            List.flatMap_assoc.symm
        _ = ids.flatMap store.row := by rw [List.flatMap_id, hids]
    refine ⟨hconsumed, hrows, fun subset hnew => ?_⟩
    rw [hrows, ResidentSubsetPointStore.new] at hnew
    split_ifs at hnew with hdim hsize
    cases hnew
    exact ResidentRows.new_of tableSort (not_not.mp hsize) fun i pid hi =>
      slot_flatMap (fun q _ => store.row_length q) hi

/-- A file of two rows of one value, behind its header. -/
def twoRowFile : RowFile := ⟨8, 2, 1, [2, 0, 0, 0, 1, 0, 0, 0, 5, 0, 0, 0, 7, 0, 0, 0], by decide⟩

theorem twoRowFile_numRows : twoRowFile.numRows < 2 ^ 32 := by decide

/-- One worker, room for one batch, a cache. -/
def oneWorker : PointPipelineConfig := ⟨1, 1, 4, 4, 1.5, 64⟩

/-- The worker takes, reads and sends; the consumer receives and consumes; twice. -/
def oneWorkerRun : List Action :=
  [.produce] ++ List.replicate 6 (.worker 0) ++ [.produce, .worker 0, .consumer none, .consumer none] ++
    List.replicate 8 (.worker 0) ++ [.consumer none, .consumer none, .consumer none, .join]

theorem pipeline_gives_rows_two_points : ∃ s,
    Reaches (readStep (twoRowFile.pointStore twoRowFile_numRows) oneWorker (.byKey GatherRow.rowId)
      [1, 0] 1) (initial (pipelineCall (twoRowFile.pointStore twoRowFile_numRows) oneWorker [1, 0] 1)
        (windowCache oneWorker)) s ∧ s.returned = some (.ok ()) ∧
      s.consumed.flatten = ([1, 0] : List UInt32).flatMap fun pid => twoRowFile.row pid.toNat := by
  have hfollow : (follow (readStep (twoRowFile.pointStore twoRowFile_numRows) oneWorker
        (.byKey GatherRow.rowId) [1, 0] 1)
      (initial (pipelineCall (twoRowFile.pointStore twoRowFile_numRows) oneWorker [1, 0] 1)
        (windowCache oneWorker)) oneWorkerRun).map State.returned = some (some (.ok ())) := by
    decide +kernel
  obtain ⟨s, hrun, hreturned⟩ := exists_run_of_follow hfollow
  have hgives := pipeline_gives_rows (.byKey Prod.fst) ⟨_, hrun⟩
  exact ⟨s, ⟨_, hrun⟩, hreturned, (hgives.2 hreturned).2.1⟩

end PointPipeline

end ForgeANN
