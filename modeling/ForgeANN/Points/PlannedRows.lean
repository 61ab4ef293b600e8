-- SUMMARY: A planned read gives the rows of its ids, whatever others put into the cache meanwhile.
import ForgeANN.Points.PlannedRead
import ForgeANN.Sketch.Windows

/-!
# What a planned read gives

The windows of a plan come in the order of their rows, and the copies out of a
window before those out of the next one. A read has copied what belongs to the
windows behind it, and the cache has of each window the rows it should have.
-/
namespace ForgeANN

open Lib

/-! ## The order of a plan -/

/-- A plan can be followed window by window. -/
structure BoundedReadPlan.Ordered (plan : BoundedReadPlan) : Prop where
  scatter : plan.scatter.Pairwise fun a b => a.windowIdx ≤ b.windowIdx
  fits : ∀ window ∈ plan.windows, window.startRow.toNat + window.rowCount.toNat ≤ 2 ^ 32

theorem planOf_ordered {σ : Type} (planner : BoundedReadPlanner) {sort : RowSort}
    {ids : List UInt32} {runs : List (GreedyRun GatherRow σ)}
    (windowBytes : GreedyRun GatherRow σ → Nat)
    (hflat : runs.flatMap GreedyRun.items = sort.sort (gatherRows ids)) :
    (planner.planOf ids runs windowBytes).Ordered := by
  constructor
  · rw [BoundedReadPlanner.planOf, List.pairwise_flatMap]
    constructor
    · intro run _
      rw [List.pairwise_map]
      exact List.pairwise_of_forall fun _ _ => Nat.le_refl _
    · have hidx : runs.zipIdx.Pairwise fun a b => a.2 < b.2 := by
        rw [← List.pairwise_map, List.zipIdx_map_snd]
        exact List.pairwise_lt_range'
      refine hidx.imp fun hlt a ha b hb => ?_
      obtain ⟨row, -, rfl⟩ := List.mem_map.mp ha
      obtain ⟨other, -, rfl⟩ := List.mem_map.mp hb
      exact Nat.le_of_lt hlt
  · intro window hwindow
    obtain ⟨run, hrun, rfl⟩ := List.mem_map.mp hwindow
    have hle := UInt32.le_iff_toNat_le.mp (between_of_sorted hflat hrun run.last_mem).1
    have hlast := run.last.rowId.toNat_lt
    rw [boundedWindow_rowCount, boundedWindow]
    have hmod := Nat.mod_le (run.last.rowId.toNat - run.first.rowId.toNat + 1) (2 ^ 32)
    dsimp only
    omega

namespace PointPipeline

variable {store : PointStore} {config : PointPipelineConfig} {sort : RowSort} {ids : List UInt32}

theorem readPlan_covers (store : PointStore) (config : PointPipelineConfig) (sort : RowSort)
    (ids : List UInt32) : PlanCovers ids (readPlan store config sort ids) :=
  planOf_covers _ BoundedReadPlanner.flatMap_runs

theorem readPlan_ordered (store : PointStore) (config : PointPipelineConfig) (sort : RowSort)
    (ids : List UInt32) : (readPlan store config sort ids).Ordered :=
  planOf_ordered _ _ BoundedReadPlanner.flatMap_runs

/-! ## Copying rows -/

/-- The row asked for at a position. -/
def rowAt (store : PointStore) (ids : List UInt32) (p : Nat) : List F32 := store.row (ids.getD p 0)

/-- What has been copied so far stands at its positions. -/
abbrev Copied (store : PointStore) (ids : List UInt32) (done : List ReadScatter)
    (out : List F32) : Prop :=
  FilledAt store.dim ids.length (rowAt store ids) (done.map ReadScatter.originalPos) out

theorem windowRows_length (store : PointStore) (startPid : UInt32) (count : Nat) :
    (store.windowRows startPid count).length = count * store.dim := by
  rw [PointStore.windowRows, length_flatMap_of_width fun k _ => store.row_length _,
    List.length_range]

theorem slot_windowRows (store : PointStore) (startPid : UInt32) {count k : Nat} (h : k < count) :
    slot store.dim (store.windowRows startPid count) k =
      store.row (startPid + UInt32.ofNat k) := by
  rw [PointStore.windowRows]
  refine slot_flatMap (fun k _ => store.row_length _) ?_
  exact List.getElem?_range h

/-- A copy that gets through puts the row asked for in its place. -/
theorem Copied.copy {plan : BoundedReadPlan} {done : List ReadScatter} {s : ReadScatter}
    {window : ReadWindow} {out next : List F32} (h : Copied store ids done out)
    (hplan : PlanCovers ids plan) (hs : s ∈ plan.scatter)
    (hwindow : plan.windows[s.windowIdx]? = some window)
    (hcopy : copySlice (store.windowRows window.startRow window.rowCount.toNat)
      (s.rowOffsetInWindow.toNat * store.dim) out (s.originalPos * store.dim) store.dim =
        .ok next) : Copied store ids (done ++ [s]) next := by
  obtain ⟨_, hmem, hid, hoffset⟩ := hplan.ownRow s hs
  cases hwindow.symm.trans hmem
  obtain ⟨id, hget, hid⟩ := Option.map_eq_some_iff.mp hid
  have hpos : s.originalPos < ids.length := (List.getElem?_eq_some_iff.mp hget).1
  have hrow : rowAt store ids s.originalPos = store.row id := by
    rw [rowAt, List.getD_eq_getElem?_getD, hget, Option.getD_some]
  obtain ⟨hsrc, hdst, -⟩ := copySlice_ok hcopy
  rw [windowRows_length] at hsrc
  rw [RowFile.copySlice_eq ((windowRows_length ..).symm ▸ hsrc) hdst] at hcopy
  cases hcopy
  have hslot : slot store.dim (store.windowRows window.startRow window.rowCount.toNat)
      s.rowOffsetInWindow.toNat = rowAt store ids s.originalPos := by
    rcases hoffset with hlt | ⟨-, hcount⟩
    · have hsum : window.startRow + UInt32.ofNat s.rowOffsetInWindow.toNat = id := by
        apply UInt32.toNat_inj.mp
        have hid_lt := id.toNat_lt
        rw [UInt32.ofNat_toNat, UInt32.toNat_add, ← hid, Nat.mod_eq_of_lt (by omega)]
      rw [slot_windowRows _ _ (UInt32.lt_iff_toNat_lt.mp hlt), hsum, hrow]
    · -- all ids in one window, of which the code reads nothing: rows without values
      have hdim : store.dim = 0 := by
        rw [hcount, UInt32.toNat_zero] at hsrc
        omega
      have hnil : store.row id = [] :=
        List.eq_nil_of_length_eq_zero ((store.row_length id).trans hdim)
      rw [hrow, hnil, slot, hdim, List.take_zero]
  rw [hslot, Copied, List.map_append]
  exact h.setSlot hpos (store.row_length _)

/-- All copies out of a window. -/
theorem Copied.scatterRows {plan : BoundedReadPlan} {window : ReadWindow}
    (hplan : PlanCovers ids plan) {windowScatter : List ReadScatter}
    (hall : ∀ s ∈ windowScatter,
      s ∈ plan.scatter ∧ plan.windows[s.windowIdx]? = some window)
    {done : List ReadScatter} {out next : List F32} (h : Copied store ids done out)
    (hcopies : PointPipeline.scatterRows store
      (store.windowRows window.startRow window.rowCount.toNat) windowScatter out = .ok next) :
    Copied store ids (done ++ windowScatter) next := by
  induction windowScatter generalizing done out with
  | nil =>
      cases hcopies
      rwa [List.append_nil]
  | cons s rest ih =>
      obtain ⟨hs, hwindow⟩ := hall s List.mem_cons_self
      rw [PointPipeline.scatterRows, List.foldlM_cons] at hcopies
      obtain ⟨copied, hcopy, hrest⟩ := bind_eq_ok.mp hcopies
      rw [List.append_cons]
      exact ih (fun s hs => hall s (List.mem_cons_of_mem _ hs))
        (h.copy hplan hs hwindow hcopy) hrest

/-! ## Where a read is -/

/-- A read is at a window, with the copies out of it and the later ones still to make. -/
structure Placing (store : PointStore) (ids : List UInt32) (plan : BoundedReadPlan)
    (windowIdx : Nat) (windows : List ReadWindow) (scatter : List ReadScatter)
    (out : List F32) : Prop where
  windows : plan.windows.drop windowIdx = windows
  later : ∀ s ∈ scatter, windowIdx ≤ s.windowIdx
  copied : ∃ done, plan.scatter = done ++ scatter ∧ Copied store ids done out

namespace Placing

variable {plan : BoundedReadPlan} {windowIdx : Nat} {window : ReadWindow}
  {windows : List ReadWindow} {scatter : List ReadScatter} {out data : List F32}

theorem first (plan : BoundedReadPlan) {out : List F32} (hout : out.length = ids.length * store.dim) :
    Placing store ids plan 0 plan.windows plan.scatter out :=
  ⟨rfl, fun _ _ => Nat.zero_le _, [], rfl, FilledAt.nil hout⟩

/-- Behind the last window everything has been copied. -/
theorem eq (h : Placing store ids plan windowIdx [] scatter out) (hplan : PlanCovers ids plan) :
    out = ids.flatMap store.row := by
  obtain ⟨done, hscatter, hcopied⟩ := h.copied
  have hnil : scatter = [] := by
    rw [List.eq_nil_iff_forall_not_mem]
    intro s hs
    obtain ⟨window, hwindow, -⟩ := hplan.ownRow s (hscatter ▸ List.mem_append_right _ hs)
    have hlt := (List.getElem?_eq_some_iff.mp hwindow).1
    have hlen := List.drop_eq_nil_iff.mp h.windows
    have hle := h.later s hs
    omega
  rw [hnil, List.append_nil] at hscatter
  have hall : ∀ p < ids.length, p ∈ done.map ReadScatter.originalPos := by
    intro p hp
    rw [← hscatter]
    exact hplan.once.mem_iff.mpr (List.mem_range.mpr hp)
  rw [hcopied.eq hall]
  exact flatMap_range_getD store.row ids 0

/-- On to the next window, with the copies out of this one. -/
theorem next (h : Placing store ids plan windowIdx (window :: windows) scatter out)
    (hplan : PlanCovers ids plan) (hordered : plan.Ordered)
    (hcopies : scatterRows store (store.windowRows window.startRow window.rowCount.toNat)
      (scatter.takeWhile fun s => s.windowIdx = windowIdx) out = .ok data) :
    Placing store ids plan (windowIdx + 1) windows
      (scatter.dropWhile fun s => s.windowIdx = windowIdx) data := by
  obtain ⟨done, hscatter, hcopied⟩ := h.copied
  have hsub : scatter.Pairwise fun a b => a.windowIdx ≤ b.windowIdx := by
    have hall := hordered.scatter
    rw [hscatter] at hall
    exact (List.pairwise_append.mp hall).2.1
  have hwindow : plan.windows[windowIdx]? = some window := by
    rw [← List.head?_drop, h.windows, List.head?_cons]
  refine ⟨?_, fun s hs => ?_, done ++ scatter.takeWhile fun s => s.windowIdx = windowIdx, ?_, ?_⟩
  · rw [← List.tail_drop, h.windows, List.tail_cons]
  · -- the first of the others is not of this window, and no later one comes before it
    have hle := h.later s ((List.dropWhile_sublist _).subset hs)
    refine Nat.lt_of_le_of_ne hle fun heq => ?_
    have hrest := hsub.sublist (List.dropWhile_sublist fun s => decide (s.windowIdx = windowIdx))
    cases hdrop : scatter.dropWhile fun s => s.windowIdx = windowIdx with
    | nil =>
        rw [hdrop] at hs
        cases hs
    | cons head tail =>
        have hne : (scatter.dropWhile fun s => s.windowIdx = windowIdx) ≠ [] := by
          rw [hdrop]
          exact List.cons_ne_nil head tail
        have hhead := List.head_dropWhile_not _ hne
        simp only [hdrop, List.head_cons, decide_eq_false_iff_not] at hhead
        have hheadLe := h.later head
          ((List.dropWhile_sublist _).subset (hdrop ▸ List.mem_cons_self))
        rw [hdrop] at hs hrest
        rcases List.mem_cons.mp hs with rfl | hs
        · exact hhead heq.symm
        · have hhigh := (List.pairwise_cons.mp hrest).1 s hs
          omega
  · rw [List.append_assoc, List.takeWhile_append_dropWhile, hscatter]
  · refine hcopied.scatterRows hplan (fun s hs => ⟨?_, ?_⟩) hcopies
    · rw [hscatter]
      exact List.mem_append_right _ ((List.takeWhile_sublist _).subset hs)
    · have hidx : s.windowIdx = windowIdx := by simpa using List.mem_takeWhile_imp hs
      rw [hidx, hwindow]

end Placing

/-! ## One step -/

/-- A window in the cache has the rows of its key. -/
def WindowOf (store : PointStore) (key : VectorWindowKey) (data : List F32) : Prop :=
  data = store.windowRows key.startPid key.rowCount.toNat

/-- The windows in the cache have their rows. -/
def CacheOf (store : PointStore) (cache : Option VectorWindowCache) : Prop :=
  ∀ vectors, cache = some vectors → vectors.Holds (WindowOf store)

/-- Where a read of `ids` is. -/
def PlannedPc.Tracks (store : PointStore) (config : PointPipelineConfig) (sort : RowSort)
    (ids : List UInt32) : PlannedPc → Prop
  | .start asked => asked = ids
  | .lookup windowIdx windows scatter out =>
      Placing store ids (readPlan store config sort ids) windowIdx windows scatter out
  | .load windowIdx window windows windowScatter scatter out => ∃ ahead,
      Placing store ids (readPlan store config sort ids) windowIdx (window :: windows) ahead out ∧
        windowScatter = (ahead.takeWhile fun s => s.windowIdx = windowIdx) ∧
        scatter = (ahead.dropWhile fun s => s.windowIdx = windowIdx)
  | .failed _ => True

variable {cache cache' : Option VectorWindowCache} {pc : PlannedPc}

/-- What a step comes to: a later place of the read, or the rows. -/
def Goes (store : PointStore) (config : PointPipelineConfig) (sort : RowSort) (ids : List UInt32) :
    PlannedPc ⊕ List F32 → Prop
  | .inl pc => pc.Tracks store config sort ids
  | .inr data => data = ids.flatMap store.row

theorem goes_startRead (cached : Bool) :
    Goes store config sort ids (startRead store config sort cached ids) := by
  have hout : (List.replicate (ids.length * store.dim) F32.zero).length =
      ids.length * store.dim := List.length_replicate
  simp only [startRead]
  split_ifs
  · split
    · rename_i data hread
      exact store.points_eq hout hread
    · exact trivial
  · exact Placing.first _ hout
  · split
    · rename_i data hread
      exact store.bounded_eq (readPlan_covers ..) hout hread
    · rename_i data hread
      exact Placing.first _ ((store.bounded_length hread).trans hout)
    · exact trivial

theorem goes_nextWindow {windowIdx : Nat} {window : ReadWindow} {windows : List ReadWindow}
    {scatter : List ReadScatter} {out data : List F32}
    (h : Placing store ids (readPlan store config sort ids) windowIdx (window :: windows) scatter out)
    (hdata : data = store.windowRows window.startRow window.rowCount.toNat) :
    (nextWindow windowIdx windows (scatter.dropWhile fun s => s.windowIdx = windowIdx)
      (scatterRows store data (scatter.takeWhile fun s => s.windowIdx = windowIdx) out)).Tracks
        store config sort ids := by
  rw [hdata]
  cases hcopies : scatterRows store (store.windowRows window.startRow window.rowCount.toNat)
      (scatter.takeWhile fun s => s.windowIdx = windowIdx) out with
  | ok next => exact h.next (readPlan_covers ..) (readPlan_ordered ..) hcopies
  | error err => exact trivial

/-- A read that has not failed goes on, and leaves the cache as it should be. -/
theorem goes_plannedStep (hcache : CacheOf store cache) (hpc : pc.Tracks store config sort ids)
    (hfailed : pc.isFailed = false) :
    CacheOf store (plannedStep store config sort cache pc).1 ∧
      Goes store config sort ids (plannedStep store config sort cache pc).2 := by
  cases pc with
  | start asked =>
      cases hpc
      exact ⟨hcache, goes_startRead _⟩
  | lookup windowIdx windows scatter out =>
      cases windows with
      | nil => exact ⟨hcache, Placing.eq hpc (readPlan_covers ..)⟩
      | cons window windows =>
          cases cache with
          | none => exact ⟨hcache, scatter, hpc, rfl, rfl⟩
          | some vectors =>
              obtain ⟨hholds, hget⟩ := (hcache vectors rfl).get (windowKey window)
              simp only [plannedStep]
              split
              · rename_i data hhit
                refine ⟨fun kept hkept => ?_, goes_nextWindow hpc (hget data hhit)⟩
                cases hkept
                exact hholds
              · refine ⟨fun kept hkept => ?_, scatter, hpc, rfl, rfl⟩
                cases hkept
                exact hholds
  | load windowIdx window windows windowScatter scatter out =>
      obtain ⟨ahead, hplacing, rfl, rfl⟩ := hpc
      simp only [plannedStep]
      split
      · rename_i data hread
        have hfits : window.startRow.toNat + window.rowCount.toNat ≤ 2 ^ 32 := by
          apply (readPlan_ordered store config sort ids).fits
          have hmem : window ∈ (readPlan store config sort ids).windows.drop windowIdx :=
            hplacing.windows ▸ List.mem_cons_self
          exact (List.drop_sublist ..).subset hmem
        have hdata := store.range_eq List.length_replicate hfits hread
        refine ⟨fun kept hkept => ?_, goes_nextWindow hplacing hdata⟩
        obtain ⟨vectors, hvectors, rfl⟩ := Option.map_eq_some_iff.mp hkept
        exact (hcache vectors hvectors).insert hdata
      · exact ⟨hcache, trivial⟩
  | failed err => cases hfailed

end PointPipeline

end ForgeANN
