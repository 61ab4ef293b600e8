-- SUMMARY: The batches of a level scan hold every point of every run once, and each run's points in its order.
import ForgeANN.Rbc.LevelScan
import ForgeANN.Lib.Transition

/-!
# Batches of a level scan

The heap holds one entry for each run that is not used up: its next point. So a
run's points come out in the order they have in the run, whatever their ids.
-/
namespace ForgeANN

open Lib

/-- The occurrences of a batch, each beside its point. -/
def D1LevelScanBatchPlan.entries (plan : D1LevelScanBatchPlan) :
    List (UInt32 × D1LevelScanOccurrence) :=
  plan.flatMap fun (point, occurrences) => occurrences.map fun occurrence => (point, occurrence)

/-- What a run has among the entries, in order. -/
def runShare (runIdx : Nat) (entries : List (UInt32 × D1LevelScanOccurrence)) :
    List (UInt32 × D1LevelScanOccurrence) :=
  entries.filter fun entry => entry.2.runIdx = runIdx

/-- All of a run. -/
def runEntries (runIdx : Nat) (points : List UInt32) : List (UInt32 × D1LevelScanOccurrence) :=
  points.zipIdx.map fun (point, localIdx) => (point, ⟨runIdx, localIdx⟩)

section

variable {runs : List (List UInt32)} {done : List (UInt32 × D1LevelScanOccurrence)}
  {heap : D1LevelScanHeap}

/-- The point a run has at a place. -/
def pointAt (runs : List (List UInt32)) (runIdx localIdx : Nat) : Option UInt32 :=
  runs[runIdx]?.bind (·[localIdx]?)

/-- After the entries `done` were popped: of each run they are the first so many points, and the
heap has the next one. -/
structure Frontier (runs : List (List UInt32)) (done : List (UInt32 × D1LevelScanOccurrence))
    (heap : D1LevelScanHeap) : Prop where
  inOrder : ∀ r, (runShare r done).map (fun entry => entry.2.localIdx) =
    List.range (runShare r done).length
  named : ∀ entry ∈ done, pointAt runs entry.2.runIdx entry.2.localIdx = some entry.1
  mem_heap : ∀ e : D1LevelScanHeapEntry, e ∈ heap ↔
    pointAt runs e.runIdx e.localIdx = some e.point ∧
      e.localIdx = (runShare e.runIdx done).length
  nodup : heap.Nodup

theorem mem_pushNext {r l : Nat} (e : D1LevelScanHeapEntry) :
    e ∈ pushNextD1LevelScanHeapEntry runs heap r l ↔
      e ∈ heap ∨ pointAt runs r l = some e.point ∧ e.runIdx = r ∧ e.localIdx = l := by
  rw [pushNextD1LevelScanHeapEntry]
  split
  · rename_i point hpoint
    rw [List.mem_orderedInsert, pointAt, hpoint, or_comm]
    refine or_congr Iff.rfl ⟨?_, ?_⟩
    · rintro rfl
      exact ⟨rfl, rfl, rfl⟩
    · rintro ⟨hp, rfl, rfl⟩
      cases hp
      rfl
  · rename_i hnone
    rw [pointAt, hnone]
    simp

theorem nodup_pushNext {r l : Nat} (h : heap.Nodup)
    (hnew : ∀ point, (⟨point, r, l⟩ : D1LevelScanHeapEntry) ∉ heap) :
    (pushNextD1LevelScanHeapEntry runs heap r l).Nodup := by
  rw [pushNextD1LevelScanHeapEntry]
  split
  · exact (List.perm_orderedInsert ..).nodup_iff.mpr (List.nodup_cons.mpr ⟨hnew _, h⟩)
  · exact h

/-! ## Popping -/

theorem mem_startHeap (n : Nat) (e : D1LevelScanHeapEntry) :
    e ∈ (List.range n).foldl (fun heap r => pushNextD1LevelScanHeapEntry runs heap r 0) [] ↔
      e.runIdx < n ∧ pointAt runs e.runIdx 0 = some e.point ∧ e.localIdx = 0 := by
  induction n with
  | zero => simp
  | succ n ih =>
      rw [List.range_succ, List.foldl_append, List.foldl_cons, List.foldl_nil, mem_pushNext, ih]
      constructor
      · rintro (⟨hlt, hpoint, hlocal⟩ | ⟨hpoint, hrun, hlocal⟩)
        · exact ⟨Nat.lt_succ_of_lt hlt, hpoint, hlocal⟩
        · exact ⟨hrun ▸ Nat.lt_succ_self n, hrun ▸ hpoint, hlocal⟩
      · rintro ⟨hlt, hpoint, hlocal⟩
        rcases Nat.lt_succ_iff_lt_or_eq.mp hlt with hlt | heq
        · exact .inl ⟨hlt, hpoint, hlocal⟩
        · exact .inr ⟨heq ▸ hpoint, heq, hlocal⟩

theorem nodup_startHeap (n : Nat) :
    ((List.range n).foldl (fun heap r => pushNextD1LevelScanHeapEntry runs heap r 0) []).Nodup := by
  induction n with
  | zero => exact List.nodup_nil
  | succ n ih =>
      rw [List.range_succ, List.foldl_append, List.foldl_cons, List.foldl_nil]
      refine nodup_pushNext ih fun point hmem => ?_
      exact Nat.lt_irrefl n ((mem_startHeap n _).mp hmem).1

theorem startHeap_frontier : Frontier runs [] (startHeap runs) where
  inOrder _ := rfl
  named _ h := absurd h List.not_mem_nil
  mem_heap e := by
    rw [startHeap, mem_startHeap]
    constructor
    · rintro ⟨-, hpoint, hlocal⟩
      exact ⟨hlocal ▸ hpoint, hlocal⟩
    · rintro ⟨hpoint, hlocal⟩
      rw [show e.localIdx = 0 from hlocal] at hpoint
      obtain ⟨run, hrun, -⟩ := Option.bind_eq_some_iff.mp hpoint
      exact ⟨(List.getElem?_eq_some_iff.mp hrun).1, hpoint, hlocal⟩
  nodup := nodup_startHeap _

theorem runShare_append (r : Nat) (done more : List (UInt32 × D1LevelScanOccurrence)) :
    runShare r (done ++ more) = runShare r done ++ runShare r more := List.filter_append ..

theorem runShare_singleton_self (e : D1LevelScanHeapEntry) :
    runShare e.runIdx [(e.point, e.occurrence)] = [(e.point, e.occurrence)] := by
  simp [runShare, D1LevelScanHeapEntry.occurrence]

theorem runShare_singleton_ne {r : Nat} (e : D1LevelScanHeapEntry) (h : r ≠ e.runIdx) :
    runShare r [(e.point, e.occurrence)] = [] := by
  simp [runShare, D1LevelScanHeapEntry.occurrence, Ne.symm h]

/-- Popping an entry puts the next point of its run into the heap. -/
theorem Frontier.pop {e : D1LevelScanHeapEntry} {rest : D1LevelScanHeap}
    (h : Frontier runs done (e :: rest)) :
    Frontier runs (done ++ [(e.point, e.occurrence)])
      (pushNextD1LevelScanHeapEntry runs rest e.runIdx (e.localIdx + 1)) := by
  obtain ⟨hpoint, hlocal⟩ := (h.mem_heap e).mp List.mem_cons_self
  obtain ⟨hnotMem, hnodup⟩ := List.nodup_cons.mp h.nodup
  -- no other entry of the heap belongs to the run
  have hothers : ∀ e' ∈ rest, e'.runIdx ≠ e.runIdx := by
    intro e' he' hrun
    obtain ⟨hpoint', hlocal'⟩ := (h.mem_heap e').mp (List.mem_cons_of_mem _ he')
    have heq : e'.localIdx = e.localIdx := by rw [hlocal', hlocal, hrun]
    rw [hrun, heq, hpoint, Option.some.injEq] at hpoint'
    obtain ⟨p, r, l⟩ := e'
    obtain ⟨p', r', l'⟩ := e
    cases hpoint'
    cases hrun
    cases heq
    exact hnotMem he'
  refine ⟨fun r => ?_, fun entry hentry => ?_, fun e' => ?_, ?_⟩
  · rw [runShare_append]
    by_cases hr : r = e.runIdx
    · subst hr
      rw [runShare_singleton_self, List.map_append, h.inOrder, List.length_append,
        List.length_singleton, List.range_succ, ← hlocal]
      rfl
    · rw [runShare_singleton_ne e hr, List.append_nil]
      exact h.inOrder r
  · rcases List.mem_append.mp hentry with hentry | hentry
    · exact h.named entry hentry
    · rw [List.mem_singleton.mp hentry]
      exact hpoint
  · rw [mem_pushNext, runShare_append]
    by_cases hr : e'.runIdx = e.runIdx
    · have hnot : e' ∉ rest := fun hmem => hothers e' hmem hr
      rw [hr, runShare_singleton_self, List.length_append, List.length_singleton, ← hlocal]
      constructor
      · rintro (hmem | ⟨hnext, -, hl⟩)
        · exact absurd hmem hnot
        · exact ⟨hl ▸ hnext, hl⟩
      · rintro ⟨hnext, hl⟩
        exact .inr ⟨hl ▸ hnext, rfl, hl⟩
    · rw [runShare_singleton_ne e hr, List.append_nil]
      have hne : e' ≠ e := fun heq => hr (heq ▸ rfl)
      have hmem := h.mem_heap e'
      rw [List.mem_cons, or_iff_right hne] at hmem
      rw [← hmem]
      exact or_iff_left fun hcase => hr hcase.2.1
  · refine nodup_pushNext hnodup fun point hmem => ?_
    exact hothers _ hmem rfl

theorem takeOccurrences_frontier (point : UInt32) (h : Frontier runs done heap) :
    Frontier runs (done ++ (takeOccurrences runs point heap).1.map fun o => (point, o))
      (takeOccurrences runs point heap).2 := by
  induction heap using takeOccurrences.induct runs point generalizing done with
  | case1 entry rest hpoint ih =>
      rw [takeOccurrences, if_pos hpoint]
      subst hpoint
      have hpop := ih h.pop
      rw [List.append_assoc] at hpop
      exact hpop
  | case2 entry rest hpoint =>
      rw [takeOccurrences, if_neg hpoint, List.map_nil, List.append_nil]
      exact h
  | case3 =>
      rw [takeOccurrences, List.map_nil, List.append_nil]
      exact h

theorem remaining_takeOccurrences_le (point : UInt32) (heap : D1LevelScanHeap) :
    remaining runs (takeOccurrences runs point heap).2 ≤ remaining runs heap := by
  induction heap using takeOccurrences.induct runs point with
  | case1 entry rest hpoint ih =>
      rw [takeOccurrences, if_pos hpoint]
      exact ih.trans (Nat.le_of_lt (remaining_pushNext_lt runs entry rest))
  | case2 entry rest hpoint =>
      rw [takeOccurrences, if_neg hpoint]
  | case3 => rw [takeOccurrences]

theorem takePoints_frontier (n : Nat) (h : Frontier runs done heap) :
    Frontier runs (done ++ D1LevelScanBatchPlan.entries (takePoints runs n heap).1)
      (takePoints runs n heap).2 := by
  induction n generalizing heap done with
  | zero =>
      rw [takePoints, D1LevelScanBatchPlan.entries, List.flatMap_nil, List.append_nil]
      exact h
  | succ n ih =>
      cases heap with
      | nil =>
          rw [takePoints, D1LevelScanBatchPlan.entries, List.flatMap_nil, List.append_nil]
          exact h
      | cons first rest =>
          have hmore := ih (takeOccurrences_frontier first.point h.pop)
          rw [List.append_assoc, List.append_assoc] at hmore
          rw [takePoints]
          simpa only [D1LevelScanBatchPlan.entries, List.flatMap_cons, List.map_cons,
            List.append_assoc, List.singleton_append, List.cons_append, List.nil_append] using hmore

theorem remaining_takePoints_le (n : Nat) (heap : D1LevelScanHeap) :
    remaining runs (takePoints runs n heap).2 ≤ remaining runs heap := by
  induction n generalizing heap with
  | zero => exact Nat.le_refl _
  | succ n ih =>
      cases heap with
      | nil => exact Nat.le_refl _
      | cons first rest =>
          rw [takePoints]
          exact (ih _).trans ((remaining_takeOccurrences_le first.point _).trans
            (Nat.le_of_lt (remaining_pushNext_lt runs first rest)))

theorem remaining_nextBatch_lt {maxUniquePoints : Nat} {heap' : D1LevelScanHeap}
    {plan : D1LevelScanBatchPlan}
    (h : nextD1LevelScanBatch runs maxUniquePoints heap = some (plan, heap')) :
    remaining runs heap' < remaining runs heap := by
  rw [nextD1LevelScanBatch] at h
  split_ifs at h with hnil
  rw [Option.some.injEq] at h
  obtain ⟨n, hn⟩ : ∃ n, max maxUniquePoints 1 = n + 1 :=
    Nat.exists_eq_add_one.mpr (Nat.lt_of_lt_of_le Nat.one_pos (Nat.le_max_right ..))
  cases heap with
  | nil => exact absurd rfl hnil
  | cons first rest =>
      rw [hn, takePoints] at h
      rw [← (Prod.mk.inj h).2]
      exact Nat.lt_of_le_of_lt ((remaining_takePoints_le n _).trans
        (remaining_takeOccurrences_le first.point _)) (remaining_pushNext_lt runs first rest)

theorem nextBatch_frontier {maxUniquePoints : Nat} {heap' : D1LevelScanHeap}
    {plan : D1LevelScanBatchPlan} (h : Frontier runs done heap)
    (hnext : nextD1LevelScanBatch runs maxUniquePoints heap = some (plan, heap')) :
    Frontier runs (done ++ plan.entries) heap' := by
  rw [nextD1LevelScanBatch] at hnext
  split_ifs at hnext
  rw [Option.some.injEq] at hnext
  have htake := takePoints_frontier (max maxUniquePoints 1) h
  rw [hnext] at htake
  exact htake

/-- Calls of `next_d1_level_scan_batch`, one after the other. -/
inductive PlansTo (runs : List (List UInt32)) (maxUniquePoints : Nat) :
    D1LevelScanHeap → List D1LevelScanBatchPlan → D1LevelScanHeap → Prop
  | nil (heap : D1LevelScanHeap) : PlansTo runs maxUniquePoints heap [] heap
  | cons {heap heap' last : D1LevelScanHeap} {plan : D1LevelScanBatchPlan}
      {plans : List D1LevelScanBatchPlan}
      (hnext : nextD1LevelScanBatch runs maxUniquePoints heap = some (plan, heap'))
      (hrest : PlansTo runs maxUniquePoints heap' plans last) :
      PlansTo runs maxUniquePoints heap (plan :: plans) last

variable {maxUniquePoints : Nat} {last : D1LevelScanHeap} {plans : List D1LevelScanBatchPlan}

theorem PlansTo.snoc {heap' : D1LevelScanHeap} {plan : D1LevelScanBatchPlan}
    (h : PlansTo runs maxUniquePoints heap plans last)
    (hnext : nextD1LevelScanBatch runs maxUniquePoints last = some (plan, heap')) :
    PlansTo runs maxUniquePoints heap (plans ++ [plan]) heap' := by
  induction h with
  | nil heap => exact .cons hnext (.nil _)
  | cons hfirst _ ih => exact .cons hfirst (ih hnext)

/-- The batches come to an end, when the heap is empty. -/
theorem exists_plansTo (runs : List (List UInt32)) (maxUniquePoints : Nat)
    (heap : D1LevelScanHeap) : ∃ plans, PlansTo runs maxUniquePoints heap plans [] := by
  induction hn : remaining runs heap using Nat.strong_induction_on generalizing heap with
  | h n ih =>
      cases hnext : nextD1LevelScanBatch runs maxUniquePoints heap with
      | none =>
          rw [nextD1LevelScanBatch] at hnext
          split_ifs at hnext with hnil
          exact ⟨[], hnil ▸ .nil _⟩
      | some next =>
          obtain ⟨plan, heap'⟩ := next
          obtain ⟨plans, hplans⟩ := ih _ (hn ▸ remaining_nextBatch_lt hnext) heap' rfl
          exact ⟨plan :: plans, .cons hnext hplans⟩

theorem PlansTo.frontier (h : PlansTo runs maxUniquePoints heap plans last)
    (hfrontier : Frontier runs done heap) :
    Frontier runs (done ++ plans.flatMap D1LevelScanBatchPlan.entries) last := by
  induction h generalizing done with
  | nil heap =>
      rw [List.flatMap_nil, List.append_nil]
      exact hfrontier
  | cons hnext _ ih =>
      have hrest := ih (nextBatch_frontier hfrontier hnext)
      rw [List.append_assoc] at hrest
      exact hrest

/-! ## All of every run -/

/-- A run's share of the entries is the first so many of its points. -/
theorem Frontier.share_eq (h : Frontier runs done heap) {r : Nat} {points : List UInt32}
    (hr : runs[r]? = some points) :
    runShare r done = (runEntries r points).take (runShare r done).length := by
  apply List.ext_getElem?
  intro k
  by_cases hk : k < (runShare r done).length
  · have hmem : (runShare r done)[k] ∈ done := (List.mem_filter.mp (List.getElem_mem hk)).1
    have hrun : (runShare r done)[k].2.runIdx = r := by
      simpa using (List.mem_filter.mp (List.getElem_mem hk)).2
    have hlocal : (runShare r done)[k].2.localIdx = k := by
      have hmap := congrArg (·[k]?) (h.inOrder r)
      simpa [hk] using hmap
    have hnamed := h.named _ hmem
    rw [pointAt, hrun, hlocal, hr, Option.bind_some] at hnamed
    have hentry : (runShare r done)[k] = ((runShare r done)[k].1, ⟨r, k⟩) :=
      Prod.ext rfl (congrArg₂ D1LevelScanOccurrence.mk hrun hlocal)
    rw [List.getElem?_take_of_lt hk, runEntries, List.getElem?_map, List.getElem?_zipIdx, hnamed,
      List.getElem?_eq_getElem hk, hentry, Nat.zero_add]
    rfl
  · rw [List.getElem?_eq_none (Nat.le_of_not_lt hk), List.getElem?_eq_none]
    rw [List.length_take]
    exact (Nat.min_le_left _ _).trans (Nat.le_of_not_lt hk)

/-- With the heap empty, every run is used up. -/
theorem Frontier.share_of_empty (h : Frontier runs done []) {r : Nat} {points : List UInt32}
    (hr : runs[r]? = some points) : runShare r done = runEntries r points := by
  rw [h.share_eq hr, List.take_of_length_le]
  rw [runEntries, List.length_map, List.length_zipIdx]
  apply Nat.le_of_not_lt
  intro hlt
  have hpoint : pointAt runs r (runShare r done).length = some points[(runShare r done).length] := by
    rw [pointAt, hr, Option.bind_some, List.getElem?_eq_getElem hlt]
  exact absurd ((h.mem_heap ⟨_, r, _⟩).mpr ⟨hpoint, rfl⟩) List.not_mem_nil

theorem PlansTo.runShare_eq (h : PlansTo runs maxUniquePoints (startHeap runs) plans []) {r : Nat}
    {points : List UInt32} (hr : runs[r]? = some points) :
    runShare r (plans.flatMap D1LevelScanBatchPlan.entries) = runEntries r points :=
  (h.frontier startHeap_frontier).share_of_empty hr

theorem zipIdx_eq_map_range {α : Type} {l : List α} {f : Nat → α}
    (h : ∀ i < l.length, l[i]? = some (f i)) :
    l.zipIdx = (List.range l.length).map fun i => (f i, i) := by
  apply List.ext_getElem?
  intro i
  rw [List.getElem?_zipIdx, List.getElem?_map]
  by_cases hi : i < l.length
  · rw [h i hi]
    simp [hi]
  · simp [hi]

/-- Every occurrence is in the batches, once. -/
theorem PlansTo.entries_perm (h : PlansTo runs maxUniquePoints (startHeap runs) plans []) :
    (plans.flatMap D1LevelScanBatchPlan.entries).Perm
      (runs.zipIdx.flatMap fun (points, r) => runEntries r points) := by
  have hrange : ∀ entry ∈ plans.flatMap D1LevelScanBatchPlan.entries,
      entry.2.runIdx ∈ List.range runs.length := by
    intro entry hentry
    have hnamed := (h.frontier startHeap_frontier).named entry hentry
    obtain ⟨run, hrun, -⟩ := Option.bind_eq_some_iff.mp hnamed
    exact List.mem_range.mpr (List.getElem?_eq_some_iff.mp hrun).1
  have hperm := perm_flatMap_filter (fun entry : UInt32 × D1LevelScanOccurrence => entry.2.runIdx)
    List.nodup_range hrange
  have hshares : ∀ r ∈ List.range runs.length,
      (plans.flatMap D1LevelScanBatchPlan.entries).filter (fun entry => entry.2.runIdx = r) =
        runEntries r (runs[r]?.getD []) := by
    intro r hr
    have hlt := List.mem_range.mp hr
    have hpoints : runs[r]? = some runs[r] := List.getElem?_eq_getElem hlt
    rw [hpoints, Option.getD_some]
    exact h.runShare_eq hpoints
  rw [List.flatMap_congr hshares] at hperm
  have hruns : ∀ r < runs.length, runs[r]? = some (runs[r]?.getD []) := by
    intro r hr
    rw [List.getElem?_eq_getElem hr, Option.getD_some]
  rwa [zipIdx_eq_map_range hruns, List.flatMap_map, List.perm_comm]

end

end ForgeANN
