-- SUMMARY: What the windowed gather delivers: exactly when every position gets the row of its id.
import ForgeANN.Gather.Plan
import ForgeANN.Lib.Slots
import Mathlib.Tactic.Ring

/-!
# Faithful gathers
-/
namespace ForgeANN

open Lib

/-! ## Rows and runs -/

theorem saturatingSub_toNat (a b : UInt32) : (saturatingSub a b).toNat = a.toNat - b.toNat := by
  unfold saturatingSub
  split_ifs with h
  · have hlt := UInt32.lt_iff_toNat_lt.mp h
    rw [Nat.sub_eq_zero_of_le (Nat.le_of_lt hlt)]
    rfl
  · exact UInt32.toNat_sub_of_le _ _ (UInt32.not_lt.mp h)

theorem mem_gatherRows {ids : List UInt32} {row : GatherRow} :
    row ∈ gatherRows ids ↔ ids[row.originalPos]? = some row.rowId := by
  rw [gatherRows, List.mem_map]
  constructor
  · rintro ⟨⟨id, pos⟩, hmem, rfl⟩
    exact List.mem_zipIdx_iff_getElem?.mp hmem
  · intro h
    exact ⟨(row.rowId, row.originalPos), List.mem_zipIdx_iff_getElem?.mpr h, rfl⟩

theorem gatherRows_positions (ids : List UInt32) :
    (gatherRows ids).map GatherRow.originalPos = List.range ids.length := by
  rw [gatherRows, List.map_map, List.range_eq_range']
  exact List.zipIdx_map_snd 0 ids

theorem gatherRows_ids (ids : List UInt32) : (gatherRows ids).map GatherRow.rowId = ids := by
  rw [gatherRows, List.map_map]
  exact List.zipIdx_map_fst 0 ids

namespace WindowedGatherOptions

variable {options : WindowedGatherOptions} {sort : RowSort} {ids : List UInt32}
  {rowBytes maxRows : Nat} {run : GreedyRun GatherRow WindowSpan}

theorem arrange_perm (options : WindowedGatherOptions) (sort : RowSort) (ids : List UInt32) :
    (options.arrange sort ids).Perm (gatherRows ids) := by
  unfold arrange
  split_ifs
  · exact sort.perm _
  · exact .refl _

theorem flatMap_runs : (options.runs sort ids rowBytes).flatMap GreedyRun.items =
    options.arrange sort ids :=
  flatMap_greedyRuns _

theorem mem_row_of_run (hrun : run ∈ options.runs sort ids rowBytes) {row : GatherRow}
    (hrow : row ∈ run.items) : ids[row.originalPos]? = some row.rowId := by
  apply mem_gatherRows.mp
  rw [← (options.arrange_perm sort ids).mem_iff]
  have hall := List.mem_flatMap_of_mem hrun hrow
  rwa [flatMap_runs] at hall

theorem maxWindowRows_pos (numIds : Nat) : 0 < options.maxWindowRows numIds rowBytes := by
  unfold maxWindowRows
  split_ifs
  · exact Nat.lt_of_lt_of_le Nat.one_pos (Nat.le_max_right ..)
  · exact Nat.lt_of_lt_of_le Nat.one_pos (Nat.le_max_right ..)

theorem joins_iff {span : WindowSpan} {nextRow : UInt32} :
    options.joins maxRows span nextRow = true ↔
      nextRow.toNat - span.prevRow.toNat - 1 ≤ options.maxGapRows.toNat ∧
        nextRow.toNat - span.startRow.toNat + 1 ≤ maxRows := by
  have hone : (1 : UInt32).toNat = 1 := rfl
  simp only [joins, Bool.not_eq_true', Bool.or_eq_false_iff, decide_eq_false_iff_not,
    UInt32.not_lt, UInt32.le_iff_toNat_le, saturatingSub_toNat, Nat.not_lt, hone]

/-- What the rows of a window have to do with its span. -/
structure Joined (options : WindowedGatherOptions) (maxRows : Nat) (rows : List GatherRow)
    (span : WindowSpan) : Prop where
  first : rows.head?.map GatherRow.rowId = some span.startRow
  last : rows.getLast?.map GatherRow.rowId = some span.prevRow
  limit : span.prevRow.toNat - span.startRow.toNat + 1 ≤ maxRows
  /-- Stretches without a row of the window are short. -/
  gaps : ∀ row len, span.startRow.toNat < row → row + len ≤ span.prevRow.toNat →
    (∀ r ∈ rows, r.rowId.toNat < row ∨ row + len ≤ r.rowId.toNat) →
      len ≤ options.maxGapRows.toNat

theorem joined_start (hpos : 0 < maxRows) (row : GatherRow) :
    options.Joined maxRows [row] ⟨row.rowId, row.rowId⟩ where
  first := rfl
  last := rfl
  limit := by
    rw [Nat.sub_self]
    exact hpos
  gaps start len hstart hend _ := by
    simp only at hstart hend
    omega

theorem joined_extend {rows : List GatherRow} {span next : WindowSpan} {row : GatherRow}
    (h : options.Joined maxRows rows span) (hjoin : options.extend maxRows span row = some next) :
    options.Joined maxRows (rows ++ [row]) next := by
  unfold extend at hjoin
  split_ifs at hjoin with hjoins
  cases hjoin
  obtain ⟨hgap, hlimit⟩ := joins_iff.mp hjoins
  have hne : rows ≠ [] := by
    rintro rfl
    cases h.first
  obtain ⟨prev, hprev, hlast⟩ := Option.map_eq_some_iff.mp h.last
  constructor
  · rw [List.head?_append_of_ne_nil _ hne]
    exact h.first
  · rw [List.getLast?_concat]
    rfl
  · exact hlimit
  · intro start len hstart hend hnone
    simp only at hstart hend
    have hrows : ∀ r ∈ rows, r.rowId.toNat < start ∨ start + len ≤ r.rowId.toNat :=
      fun r hr => hnone r (List.mem_append_left _ hr)
    -- the stretch lies before the row joined last, or between it and the new one
    rcases hrows prev (List.mem_of_getLast? hprev) with hbefore | hbehind
    · rw [hlast] at hbefore
      omega
    · rw [hlast] at hbehind
      exact h.gaps start len hstart hbehind hrows

theorem joined_of_mem (hrun : run ∈ options.runs sort ids rowBytes) :
    options.Joined (options.maxWindowRows ids.length rowBytes) run.items run.state :=
  greedyRuns_rule (joined_start (maxWindowRows_pos _)) (fun _ _ _ _ => joined_extend) hrun

theorem Joined.ends (h : options.Joined maxRows run.items run.state) :
    run.state.startRow = run.first.rowId ∧ run.state.prevRow = run.last.rowId := by
  have hlast := h.last
  rw [run.getLast?_items] at hlast
  exact ⟨(Option.some.inj h.first).symm, (Option.some.inj hlast).symm⟩

/-! ## Which ids gather well -/

/-- A run of ids lies between its first and its last one, and these are not `0` and `u32::MAX`. -/
structure Spans (run : GreedyRun UInt32 WindowSpan) : Prop where
  within : ∀ id ∈ run.items, run.first ≤ id ∧ id ≤ run.last
  short : run.last.toNat - run.first.toNat + 1 < 2 ^ 32

/-- The ids, sorted if they are to be sorted, cut where the next one does not join. -/
def idRuns (options : WindowedGatherOptions) (ids : List UInt32) (rowBytes : Nat) :
    List (GreedyRun UInt32 WindowSpan) :=
  greedyRuns (fun id => ⟨id, id⟩)
    (fun span id =>
      if options.joins (options.maxWindowRows ids.length rowBytes) span id then
        some ⟨span.startRow, id⟩
      else none)
    (if options.sortIds then ids.mergeSort else ids)

theorem arrange_ids (options : WindowedGatherOptions) (sort : RowSort) (ids : List UInt32) :
    (options.arrange sort ids).map GatherRow.rowId =
      if options.sortIds then ids.mergeSort else ids := by
  unfold arrange
  split_ifs
  · have hperm : ((sort.sort (gatherRows ids)).map GatherRow.rowId).Perm ids := by
      have h := (sort.perm (gatherRows ids)).map GatherRow.rowId
      rwa [gatherRows_ids] at h
    have hsorted : ((sort.sort (gatherRows ids)).map GatherRow.rowId).Pairwise (· ≤ ·) :=
      List.pairwise_map.mpr (sort.sorted _)
    apply List.Perm.eq_of_pairwise (fun a b _ _ => le_antisymm) hsorted
    · exact List.pairwise_mergeSort' (· ≤ ·) ids
    · exact hperm.trans (List.mergeSort_perm ids _).symm
  · exact gatherRows_ids ids

theorem idRuns_eq (sort : RowSort) : options.idRuns ids rowBytes =
    (options.runs sort ids rowBytes).map (GreedyRun.map GatherRow.rowId) := by
  rw [idRuns, ← options.arrange_ids sort ids, greedyRuns_map]
  rfl

end WindowedGatherOptions

/-! ## Windows that cover their rows -/

section

open WindowedGatherOptions

variable {options : WindowedGatherOptions} {sort : RowSort} {ids : List UInt32} {rowBytes : Nat}
  {run : GreedyRun GatherRow WindowSpan}

/-- A row copied out of a window lies in it, and is the row with the id. -/
def Covers (run : GreedyRun GatherRow WindowSpan) : Prop :=
  ∀ row ∈ run.items, row.rowId - run.first.rowId < (readWindow run).rowCount ∧
    run.first.rowId.toNat + (row.rowId - run.first.rowId).toNat = row.rowId.toNat

theorem first_add_sub_iff {a b : UInt32} : a.toNat + (b - a).toNat = b.toNat ↔ a ≤ b := by
  constructor
  · intro h
    rw [UInt32.le_iff_toNat_le]
    exact Nat.le.intro h
  · intro h
    rw [UInt32.toNat_sub_of_le _ _ h]
    exact Nat.add_sub_cancel' (UInt32.le_iff_toNat_le.mp h)

theorem rowCount_of_spans (h : Spans (run.map GatherRow.rowId)) :
    (readWindow run).rowCount.toNat = run.last.rowId.toNat - run.first.rowId.toNat + 1 := by
  have hle : run.first.rowId ≤ run.last.rowId :=
    (h.within _ (List.mem_map_of_mem run.last_mem)).1
  have hshort := h.short
  have hone : (1 : UInt32).toNat = 1 := rfl
  rw [GreedyRun.map_last, GreedyRun.map_first] at hshort
  rw [readWindow, UInt32.toNat_add, UInt32.toNat_sub_of_le _ _ hle, hone, Nat.mod_eq_of_lt hshort]

theorem covers_iff_spans : Covers run ↔ Spans (run.map GatherRow.rowId) := by
  have hone : (1 : UInt32).toNat = 1 := rfl
  constructor
  · intro h
    have hfrom : ∀ row ∈ run.items, run.first.rowId ≤ row.rowId :=
      fun row hrow => first_add_sub_iff.mp (h row hrow).2
    have hlast := hfrom _ run.last_mem
    -- the last row is in the window only if the row count does not wrap
    have hshort : run.last.rowId.toNat - run.first.rowId.toNat + 1 < 2 ^ 32 := by
      have hlt := UInt32.lt_iff_toNat_lt.mp (h _ run.last_mem).1
      rw [readWindow, UInt32.toNat_add, UInt32.toNat_sub_of_le _ _ hlast, hone] at hlt
      have := run.last.rowId.toNat_lt
      omega
    have hcount : (readWindow run).rowCount.toNat =
        run.last.rowId.toNat - run.first.rowId.toNat + 1 := by
      rw [readWindow, UInt32.toNat_add, UInt32.toNat_sub_of_le _ _ hlast, hone,
        Nat.mod_eq_of_lt hshort]
    refine ⟨fun id hid => ?_, by rwa [GreedyRun.map_last, GreedyRun.map_first]⟩
    obtain ⟨row, hrow, rfl⟩ : ∃ row ∈ run.items, row.rowId = id := List.mem_map.mp hid
    have hlt := UInt32.lt_iff_toNat_lt.mp (h row hrow).1
    rw [hcount, UInt32.toNat_sub_of_le _ _ (hfrom row hrow)] at hlt
    rw [GreedyRun.map_first, GreedyRun.map_last]
    refine ⟨hfrom row hrow, UInt32.le_iff_toNat_le.mpr ?_⟩
    have hle := UInt32.le_iff_toNat_le.mp hlast
    have := UInt32.le_iff_toNat_le.mp (hfrom row hrow)
    omega
  · intro h row hrow
    obtain ⟨hlow, hhigh⟩ := h.within row.rowId (List.mem_map_of_mem hrow)
    rw [GreedyRun.map_first] at hlow
    rw [GreedyRun.map_last] at hhigh
    refine ⟨?_, first_add_sub_iff.mpr hlow⟩
    rw [UInt32.lt_iff_toNat_lt, rowCount_of_spans h, UInt32.toNat_sub_of_le _ _ hlow]
    have := UInt32.le_iff_toNat_le.mp hhigh
    omega

/-! ## Filling the output -/

namespace RowFile

variable {store : RowFile}

/-- A row's values. -/
def row (store : RowFile) (id : Nat) : List F32 :=
  store.mappedRowsAsF32 (store.headerBytes + id * store.rowBytes,
    store.headerBytes + id * store.rowBytes + 1 * store.rowBytes)

theorem rowByteRange_eq (startRow count : Nat) (h : startRow + count ≤ store.numRows) :
    store.rowByteRange startRow count = .ok (store.headerBytes + startRow * store.rowBytes,
      store.headerBytes + startRow * store.rowBytes + count * store.rowBytes) := by
  have hend : startRow * store.rowBytes + count * store.rowBytes ≤
      store.numRows * (store.width * 4) := by
    rw [← Nat.add_mul]
    exact Nat.mul_le_mul_right _ h
  have hcomplete := store.complete
  rw [rowByteRange, if_neg (Nat.not_lt.mpr h)]
  dsimp only
  rw [if_neg (by omega)]

theorem rowByteRange_error (startRow count : Nat) (h : store.numRows < startRow + count) :
    ∃ err, store.rowByteRange startRow count = .error err := by
  rw [rowByteRange, if_pos h]
  exact ⟨_, rfl⟩

theorem readPoint_eq {id : UInt32} (h : id.toNat < store.numRows) :
    store.readPoint id = .ok (store.row id.toNat) := by
  rw [readPoint, rowByteRange_eq _ _ h]
  rfl

theorem readPoint_error {id : UInt32} (h : ¬ id.toNat < store.numRows) :
    ∃ err, store.readPoint id = .error err := by
  have hrange : ∃ err, store.rowByteRange id.toNat 1 = .error err :=
    rowByteRange_error _ _ (Nat.lt_succ_of_le (Nat.not_lt.mp h))
  obtain ⟨err, herr⟩ := hrange
  exact ⟨err, by rw [readPoint, herr, error_bind]⟩

theorem mappedRows_getElem? (start count i : Nat) :
    (store.mappedRowsAsF32 (start, start + count * store.rowBytes))[i]? =
      if i < count * store.width then
        some ⟨UInt32.ofNat (ofLe (store.mmap.readAt (start + i * 4) 4))⟩
      else none := by
  have hlen : (start + count * store.rowBytes - start) / 4 = count * store.width := by
    rw [Nat.add_sub_cancel_left, rowBytes, ← Nat.mul_assoc, Nat.mul_div_cancel _ (Nat.succ_pos 3)]
  rw [mappedRowsAsF32, hlen, List.getElem?_map]
  split_ifs with hi
  · rw [List.getElem?_range hi]
    rfl
  · rw [List.getElem?_eq_none (by simpa using Nat.not_lt.mp hi)]
    rfl

@[simp] theorem mappedRows_length (start count : Nat) :
    (store.mappedRowsAsF32 (start, start + count * store.rowBytes)).length =
      count * store.width := by
  rw [mappedRowsAsF32, List.length_map, List.length_range, Nat.add_sub_cancel_left, rowBytes,
    ← Nat.mul_assoc, Nat.mul_div_cancel _ (Nat.succ_pos 3)]

@[simp] theorem row_length (id : Nat) : (store.row id).length = store.width := by
  rw [row, mappedRows_length, Nat.one_mul]

/-- The rows of a window, one by one. -/
theorem slot_mappedRows (startRow : Nat) {count i : Nat} (h : i < count) :
    slot store.width (store.mappedRowsAsF32 (store.headerBytes + startRow * store.rowBytes,
      store.headerBytes + startRow * store.rowBytes + count * store.rowBytes)) i =
        store.row (startRow + i) := by
  have hbound := slot_bound store.width h
  apply List.ext_getElem?
  intro k
  rw [slot_getElem?, mappedRows_getElem?, row, mappedRows_getElem?, Nat.one_mul]
  split_ifs with hk hik
  · have hoffset : store.headerBytes + startRow * store.rowBytes + (i * store.width + k) * 4 =
        store.headerBytes + (startRow + i) * store.rowBytes + k * 4 := by
      rw [rowBytes]
      ring
    rw [hoffset]
  · omega
  · rfl

/-- The rows copied so far stand at their positions. -/
structure Filled (store : RowFile) (n : Nat) (done : List GatherRow) (out : List F32) : Prop where
  length : out.length = n * store.width
  rows : ∀ row ∈ done, slot store.width out row.originalPos = store.row row.rowId.toNat

variable {n : Nat} {done rows : List GatherRow} {out : List F32}

theorem copySlice_eq {src : List F32} {width i p : Nat} (hi : i * width + width ≤ src.length)
    (hp : p * width + width ≤ out.length) :
    copySlice src (i * width) out (p * width) width = .ok (setSlot width out p (slot width src i)) := by
  rw [copySlice, if_pos ⟨hi, hp⟩]
  rfl

theorem Filled.setSlot (h : Filled store n done out) {row : GatherRow} (hpos : row.originalPos < n)
    (hnew : row.originalPos ∉ done.map GatherRow.originalPos) :
    Filled store n (done ++ [row])
      (setSlot store.width out row.originalPos (store.row row.rowId.toNat)) := by
  constructor
  · exact setSlot_length h.length hpos (row_length _)
  · intro r hr
    rcases List.mem_append.mp hr with hold | hr
    · have hne : r.originalPos ≠ row.originalPos := by
        intro heq
        exact hnew (heq ▸ List.mem_map_of_mem hold)
      rw [slot_setSlot_of_ne h.length hpos (row_length _) hne]
      exact h.rows r hold
    · rcases List.mem_singleton.mp hr with rfl
      exact slot_setSlot_self h.length hpos (row_length _)

/-- All rows of a window, copied out of it. -/
theorem Filled.scatter (h : Filled store n done out) (startRow : UInt32) {count : Nat}
    (hcover : ∀ row ∈ rows, (row.rowId - startRow).toNat < count ∧
      startRow.toNat + (row.rowId - startRow).toNat = row.rowId.toNat)
    (hpos : ∀ row ∈ rows, row.originalPos < n)
    (hnodup : ((done ++ rows).map GatherRow.originalPos).Nodup) :
    ∃ filled, (rows.map fun row => ScatterOp.mk row.originalPos (row.rowId - startRow)).foldlM
        (fun out scatter => copySlice
          (store.mappedRowsAsF32 (store.headerBytes + startRow.toNat * store.rowBytes,
            store.headerBytes + startRow.toNat * store.rowBytes + count * store.rowBytes))
          (scatter.rowOffsetInWindow.toNat * store.width) out
          (scatter.originalPos * store.width) store.width) out = .ok filled ∧
      Filled store n (done ++ rows) filled := by
  induction rows generalizing done out with
  | nil => exact ⟨out, rfl, by rwa [List.append_nil]⟩
  | cons row rows ih =>
      obtain ⟨hlt, hid⟩ := hcover row List.mem_cons_self
      have hrow := hpos row List.mem_cons_self
      have hnew : row.originalPos ∉ done.map GatherRow.originalPos := by
        rw [List.map_append, List.map_cons] at hnodup
        exact fun hmem => (List.nodup_append.mp hnodup).2.2 _ hmem _ List.mem_cons_self rfl
      have hsrc := slot_bound store.width hlt
      have hdst := slot_bound store.width hrow
      rw [← h.length] at hdst
      have hcopy := copySlice_eq (hsrc.trans (Nat.le_of_eq (mappedRows_length
        (store.headerBytes + startRow.toNat * store.rowBytes) count).symm)) hdst
      rw [slot_mappedRows startRow.toNat hlt, hid] at hcopy
      rw [List.append_cons] at hnodup
      obtain ⟨filled, hfold, hfilled⟩ := ih (h.setSlot hrow hnew)
        (fun r hr => hcover r (List.mem_cons_of_mem _ hr))
        (fun r hr => hpos r (List.mem_cons_of_mem _ hr)) hnodup
      refine ⟨filled, ?_, by rwa [List.append_cons]⟩
      rw [List.map_cons, List.foldlM_cons, hcopy]
      exact hfold

/-- All windows, one after the other. -/
theorem Filled.windows {plan : GatherPlan} {before runs : List (GreedyRun GatherRow WindowSpan)}
    (hplan : plan.scatterByWindow = (before ++ runs).map windowScatter)
    (h : Filled store n done out) (hcover : ∀ run ∈ runs, Covers run)
    (hin : ∀ run ∈ runs, ∀ row ∈ run.items, row.rowId.toNat < store.numRows)
    (hpos : ∀ run ∈ runs, ∀ row ∈ run.items, row.originalPos < n)
    (hnodup : ((done ++ runs.flatMap GreedyRun.items).map GatherRow.originalPos).Nodup) :
    ∃ filled, ((runs.map readWindow).zipIdx before.length).foldlM (store.readWindowInto plan) out =
        .ok filled ∧ Filled store n (done ++ runs.flatMap GreedyRun.items) filled := by
  induction runs generalizing before done out with
  | nil => exact ⟨out, rfl, by rwa [List.flatMap_nil, List.append_nil]⟩
  | cons run runs ih =>
      have hrun := hcover run List.mem_cons_self
      have hspans := covers_iff_spans.mp hrun
      rw [List.flatMap_cons, ← List.append_assoc] at hnodup ⊢
      have hwindow : (readWindow run).startRow.toNat + (readWindow run).rowCount.toNat ≤
          store.numRows := by
        have hlast := hin run List.mem_cons_self _ run.last_mem
        have hle := UInt32.le_iff_toNat_le.mp
          (hspans.within run.last.rowId (List.mem_map_of_mem run.last_mem)).1
        rw [rowCount_of_spans hspans]
        rw [GreedyRun.map_first] at hle
        simp only [readWindow]
        omega
      have hsub : ((done ++ run.items).map GatherRow.originalPos).Nodup := by
        rw [List.map_append] at hnodup
        exact (List.nodup_append.mp hnodup).1
      obtain ⟨next, hscatter, hnext⟩ := h.scatter run.first.rowId
        (fun row hrow => ⟨UInt32.lt_iff_toNat_lt.mp (hrun row hrow).1, (hrun row hrow).2⟩)
        (hpos run List.mem_cons_self) hsub
      have hops : plan.scatterByWindow[before.length]? = some (windowScatter run) := by
        rw [hplan, List.getElem?_map, List.getElem?_append_right (Nat.le_refl _), Nat.sub_self]
        rfl
      have hplan' : plan.scatterByWindow = ((before ++ [run]) ++ runs).map windowScatter := by
        rw [hplan, List.append_cons]
      obtain ⟨filled, hfold, hfilled⟩ := ih hplan' hnext
        (fun r hr => hcover r (List.mem_cons_of_mem _ hr))
        (fun r hr => hin r (List.mem_cons_of_mem _ hr))
        (fun r hr => hpos r (List.mem_cons_of_mem _ hr)) hnodup
      refine ⟨filled, ?_, hfilled⟩
      have hread : store.readWindowInto plan out (readWindow run, before.length) = .ok next := by
        rw [readWindowInto, rowByteRange_eq _ _ hwindow, ok_bind, scatterWindowRows]
        simp only [hops]
        exact hscatter
      rw [List.length_append, List.length_singleton] at hfold
      rw [List.map_cons, List.zipIdx_cons, List.foldlM_cons, hread]
      exact hfold

end RowFile

/-! ## The whole gather -/

/-- The windows of a plan, each with what is copied out of it. -/
def GatherPlan.parts (plan : GatherPlan) : List (ReadWindow × List ScatterOp) :=
  plan.windows.zip plan.scatterByWindow

/-- A plan fills each position once with the row of its id, within the limits, and that is what
comes out of its execution. -/
structure GathersFaithfully (sort : RowSort) (ids : List UInt32) (rowBytes : Nat)
    (options : WindowedGatherOptions) (plan : GatherPlan) : Prop where
  paired : plan.windows.length = plan.scatterByWindow.length
  filledOnce : (plan.scatterByWindow.flatten.map ScatterOp.originalPos).Perm
    (List.range ids.length)
  ownRow : ∀ part ∈ plan.parts, ∀ op ∈ part.2, op.rowOffsetInWindow < part.1.rowCount ∧
    ids[op.originalPos]?.map UInt32.toNat =
      some (part.1.startRow.toNat + op.rowOffsetInWindow.toNat)
  windowLimit : 0 < rowBytes → ∀ window ∈ plan.windows,
    window.rowCount.toNat ≤ max 1 (options.maxWindowBytes / rowBytes)
  gapLimit : ∀ part ∈ plan.parts, ∀ row len, part.1.startRow.toNat ≤ row →
    row + len ≤ part.1.startRow.toNat + part.1.rowCount.toNat →
    (∀ op ∈ part.2, part.1.startRow.toNat + op.rowOffsetInWindow.toNat < row ∨
      row + len ≤ part.1.startRow.toNat + op.rowOffsetInWindow.toNat) →
    len ≤ options.maxGapRows.toNat
  reads : ∀ (store : RowFile) (stats : WindowedGatherStats) (out filled : List F32),
    store.rowBytes = rowBytes → out.length = ids.length * store.width →
    ((∃ stats', store.readPointsWindowedIntoStats sort ids out options stats =
        .ok (filled, stats')) ↔
      ∃ rows, ids.mapM store.readPoint = .ok rows ∧ filled = rows.flatten)

theorem buildGatherPlan_windows (stats : WindowedGatherStats) :
    (buildGatherPlan sort ids rowBytes options stats).1 =
      ⟨(options.runs sort ids rowBytes).map readWindow,
        (options.runs sort ids rowBytes).map windowScatter⟩ := rfl

theorem parts_eq (stats : WindowedGatherStats) :
    (buildGatherPlan sort ids rowBytes options stats).1.parts =
      (options.runs sort ids rowBytes).map fun run => (readWindow run, windowScatter run) := by
  rw [buildGatherPlan_windows]
  exact List.zip_map' ..

theorem positions_perm : (((options.runs sort ids rowBytes).flatMap GreedyRun.items).map
    GatherRow.originalPos).Perm (List.range ids.length) := by
  rw [flatMap_runs, ← gatherRows_positions]
  exact (options.arrange_perm sort ids).map _

/-- A gap inside a covered window lies between two of its rows. -/
theorem gap_le (hrun : run ∈ options.runs sort ids rowBytes)
    (hspans : Spans (run.map GatherRow.rowId)) {row len : Nat}
    (hstart : run.first.rowId.toNat ≤ row)
    (hend : row + len ≤ run.first.rowId.toNat + (readWindow run).rowCount.toNat)
    (hnone : ∀ r ∈ run.items, r.rowId.toNat < row ∨ row + len ≤ r.rowId.toNat) :
    len ≤ options.maxGapRows.toNat := by
  have hjoined := joined_of_mem hrun
  obtain ⟨hfirst, hlast⟩ := hjoined.ends
  have hbegin := hnone run.first List.mem_cons_self
  have hstop := hnone run.last run.last_mem
  have hle := UInt32.le_iff_toNat_le.mp
    (hspans.within run.last.rowId (List.mem_map_of_mem run.last_mem)).1
  rw [GreedyRun.map_first] at hle
  rw [rowCount_of_spans hspans] at hend
  by_cases hzero : len = 0
  · rw [hzero]
    exact Nat.zero_le _
  · apply hjoined.gaps row len _ _ hnone
    · rw [hfirst]
      omega
    · rw [hlast]
      omega

namespace RowFile

variable {store : RowFile}

/-- Once all rows have been copied, the output is the rows of the ids. -/
theorem Filled.eq {rows : List GatherRow} {out : List F32} (h : Filled store ids.length rows out)
    (hids : ∀ row ∈ rows, ids[row.originalPos]? = some row.rowId)
    (hall : (rows.map GatherRow.originalPos).Perm (List.range ids.length)) :
    out = (ids.map fun id => store.row id.toNat).flatten := by
  rw [← flatMap_slot h.length, List.flatMap_def]
  congr 1
  apply List.ext_getElem
  · rw [List.length_map, List.length_map, List.length_range]
  · intro p hp hp'
    rw [List.length_map, List.length_range] at hp
    obtain ⟨row, hrow, rfl⟩ := List.mem_map.mp (hall.mem_iff.mpr (List.mem_range.mpr hp))
    have hid := hids row hrow
    rw [List.getElem?_eq_getElem hp] at hid
    rw [List.getElem_map, List.getElem_map, List.getElem_range, h.rows row hrow,
      Option.some.inj hid]

theorem reads_of_spans (hspans : ∀ run ∈ options.runs sort ids store.rowBytes,
    Spans (run.map GatherRow.rowId)) (stats : WindowedGatherStats) {out : List F32}
    (hout : out.length = ids.length * store.width) (filled : List F32) :
    (∃ stats', store.readPointsWindowedIntoStats sort ids out options stats =
        .ok (filled, stats')) ↔
      ∃ rows, ids.mapM store.readPoint = .ok rows ∧ filled = rows.flatten := by
  by_cases hnil : ids = []
  · subst hnil
    have hout : out = [] := List.eq_nil_of_length_eq_zero (by simpa using hout)
    rw [readPointsWindowedIntoStats, if_pos rfl, hout]
    constructor
    · rintro ⟨stats', hok⟩
      cases hok
      exact ⟨[], rfl, rfl⟩
    · rintro ⟨rows, hok, rfl⟩
      cases hok
      exact ⟨stats, rfl⟩
  have hcover : ∀ run ∈ options.runs sort ids store.rowBytes, Covers run :=
    fun run hrun => covers_iff_spans.mpr (hspans run hrun)
  rw [readPointsWindowedIntoStats, if_neg hnil, if_neg (not_not.mpr hout)]
  dsimp only
  by_cases hin : ∀ id ∈ ids, id.toNat < store.numRows
  · have hrows : ids.mapM store.readPoint = .ok (ids.map fun id => store.row id.toNat) :=
      mapM_eq_ok_map fun id hid => readPoint_eq (hin id hid)
    have hempty : Filled store ids.length [] out := ⟨hout, fun row hrow => by cases hrow⟩
    have hids : ∀ run ∈ options.runs sort ids store.rowBytes, ∀ row ∈ run.items,
        ids[row.originalPos]? = some row.rowId := fun run hrun row hrow => mem_row_of_run hrun hrow
    have hnodup : (([] ++ (options.runs sort ids store.rowBytes).flatMap GreedyRun.items).map
        GatherRow.originalPos).Nodup := positions_perm.nodup_iff.mpr List.nodup_range
    have hplan : (buildGatherPlan sort ids store.rowBytes options stats).1.scatterByWindow =
        ([] ++ options.runs sort ids store.rowBytes).map windowScatter := rfl
    obtain ⟨read, hfold, hfilled⟩ := hempty.windows hplan hcover
      (fun run hrun row hrow => hin _ (List.mem_of_getElem? (hids run hrun row hrow)))
      (fun run hrun row hrow => (List.getElem?_eq_some_iff.mp (hids run hrun row hrow)).1) hnodup
    have hread := hfilled.eq (fun row hrow => by
      obtain ⟨run, hrun, hrow⟩ := List.mem_flatMap.mp hrow
      exact hids run hrun row hrow) positions_perm
    rw [buildGatherPlan_windows] at hfold ⊢
    simp only [List.length_nil] at hfold
    rw [hfold, ok_bind, hrows]
    constructor
    · rintro ⟨stats', hok⟩
      cases hok
      exact ⟨_, rfl, hread⟩
    · rintro ⟨rows, hok, rfl⟩
      cases hok
      exact ⟨_, by rw [← hread]⟩
  · push Not at hin
    obtain ⟨id, hid, hpast⟩ := hin
    have hpoint : ∃ err, store.readPoint id = .error err := readPoint_error (Nat.not_lt.mpr hpast)
    obtain ⟨err, herr⟩ := mapM_error_of_mem hid hpoint.choose_spec
    obtain ⟨row, hrow, rfl⟩ : ∃ row ∈ gatherRows ids, row.rowId = id := by
      rw [← gatherRows_ids ids] at hid
      exact List.mem_map.mp hid
    have harranged := (options.arrange_perm sort ids).mem_iff.mpr hrow
    have hruns : (options.runs sort ids store.rowBytes).flatMap GreedyRun.items =
        options.arrange sort ids := flatMap_runs
    obtain ⟨run, hrun, hrow⟩ := List.mem_flatMap.mp (hruns ▸ harranged)
    obtain ⟨hoffset, hrowId⟩ := hcover run hrun row hrow
    have hlt := UInt32.lt_iff_toNat_lt.mp hoffset
    -- the window that holds the row reaches past the end of the file
    have hrange : ∃ err, store.rowByteRange (readWindow run).startRow.toNat
        (readWindow run).rowCount.toNat = .error err := by
      apply rowByteRange_error
      simp only [readWindow] at hlt ⊢
      omega
    obtain ⟨err', hrange⟩ := hrange
    obtain ⟨i, hi⟩ := List.mem_iff_getElem?.mp (List.mem_map_of_mem (f := readWindow) hrun)
    have hwindow : (readWindow run, i) ∈
        ((options.runs sort ids store.rowBytes).map readWindow).zipIdx :=
      List.mem_zipIdx_iff_getElem?.mpr hi
    have hstep : ∀ out, ∃ err, store.readWindowInto
        (buildGatherPlan sort ids store.rowBytes options stats).1 out (readWindow run, i) =
          .error err := fun out => ⟨err', by rw [readWindowInto, hrange, error_bind]⟩
    obtain ⟨err'', hfold⟩ := foldlM_error_of_mem hwindow hstep out
    rw [buildGatherPlan_windows] at hfold ⊢
    rw [hfold, herr, error_bind]
    constructor
    · rintro ⟨stats', hok⟩
      cases hok
    · rintro ⟨rows, hok, -⟩
      cases hok

end RowFile

namespace WindowedGatherOptions

/-- The runs of the ids lie between their ends, and span less than `2 ^ 32` rows. -/
def WindowsSpan (options : WindowedGatherOptions) (ids : List UInt32) (rowBytes : Nat) : Prop :=
  ∀ run ∈ options.idRuns ids rowBytes, Spans run

theorem windowsSpan_iff (sort : RowSort) : options.WindowsSpan ids rowBytes ↔
    ∀ run ∈ options.runs sort ids rowBytes, Spans (run.map GatherRow.rowId) := by
  rw [WindowsSpan, idRuns_eq sort]
  exact List.forall_mem_map

end WindowedGatherOptions

theorem gathersFaithfully_iff (sort : RowSort) (ids : List UInt32) (rowBytes : Nat)
    (options : WindowedGatherOptions) (stats : WindowedGatherStats) :
    GathersFaithfully sort ids rowBytes options
        (buildGatherPlan sort ids rowBytes options stats).1 ↔
      options.WindowsSpan ids rowBytes := by
  rw [windowsSpan_iff sort]
  constructor
  · intro h run hrun
    apply covers_iff_spans.mp
    intro row hrow
    have hpart : (readWindow run, windowScatter run) ∈
        (buildGatherPlan sort ids rowBytes options stats).1.parts := by
      rw [parts_eq]
      exact List.mem_map_of_mem hrun
    obtain ⟨hlt, hid⟩ := h.ownRow _ hpart ⟨row.originalPos, row.rowId - run.first.rowId⟩
      (List.mem_map_of_mem hrow)
    rw [mem_row_of_run hrun hrow] at hid
    exact ⟨hlt, (Option.some.inj hid).symm⟩
  · intro hspans
    have hparts : ∀ part ∈ (buildGatherPlan sort ids rowBytes options stats).1.parts,
        ∃ run ∈ options.runs sort ids rowBytes, (readWindow run, windowScatter run) = part := by
      intro part hpart
      rw [parts_eq] at hpart
      exact List.mem_map.mp hpart
    constructor
    · rw [buildGatherPlan_windows, List.length_map, List.length_map]
    · have hperm : (((options.runs sort ids rowBytes).flatMap GreedyRun.items).map
          GatherRow.originalPos).Perm (List.range ids.length) := positions_perm
      rw [List.map_flatMap] at hperm
      rw [buildGatherPlan_windows, ← List.flatMap_def, List.map_flatMap]
      have hscatter : ∀ run : GreedyRun GatherRow WindowSpan,
          (windowScatter run).map ScatterOp.originalPos = run.items.map GatherRow.originalPos :=
        fun run => List.map_map ..
      simpa only [hscatter] using hperm
    · intro part hpart op hop
      obtain ⟨run, hrun, rfl⟩ := hparts part hpart
      obtain ⟨row, hrow, rfl⟩ := List.mem_map.mp hop
      obtain ⟨hlt, hid⟩ := covers_iff_spans.mpr (hspans run hrun) row hrow
      refine ⟨hlt, ?_⟩
      rw [mem_row_of_run hrun hrow]
      exact congrArg some hid.symm
    · intro hpos window hwindow
      rw [buildGatherPlan_windows] at hwindow
      obtain ⟨run, hrun, rfl⟩ := List.mem_map.mp hwindow
      have hjoined := joined_of_mem hrun
      obtain ⟨hfirst, hlast⟩ := hjoined.ends
      have hlimit := hjoined.limit
      rw [hfirst, hlast, maxWindowRows, if_neg (Nat.ne_of_gt hpos), Nat.max_comm] at hlimit
      rwa [rowCount_of_spans (hspans run hrun)]
    · intro part hpart row len hstart hend hnone
      obtain ⟨run, hrun, rfl⟩ := hparts part hpart
      apply gap_le hrun (hspans run hrun) hstart hend
      intro r hr
      have hid := (covers_iff_spans.mpr (hspans run hrun) r hr).2
      rw [← hid]
      exact hnone ⟨r.originalPos, r.rowId - run.first.rowId⟩ (List.mem_map_of_mem hr)
    · rintro store stats' out filled rfl hout
      exact store.reads_of_spans hspans stats' hout filled

/-- Sorted ids gather well unless the first and the last `u32` are both asked for. -/
theorem windowsSpan_of_sortIds (hsort : options.sortIds = true)
    (hids : ¬ (0 ∈ ids ∧ 2 ^ 32 - 1 ∈ ids)) : options.WindowsSpan ids rowBytes := by
  intro run hrun
  rw [idRuns, if_pos hsort] at hrun
  have hsub := items_sublist hrun
  have hsorted : run.items.Pairwise (· ≤ ·) := (List.pairwise_mergeSort' (· ≤ ·) ids).sublist hsub
  have hmem : ∀ id ∈ run.items, id ∈ ids := fun id hid => List.mem_mergeSort.mp (hsub.subset hid)
  refine ⟨fun id hid => GreedyRun.between_of_pairwise hsorted hid, ?_⟩
  have hfirst := hmem _ List.mem_cons_self
  have hlast := hmem _ run.last_mem
  have hbound := run.last.toNat_lt
  by_contra hlong
  -- the run goes from the first `u32` to the last one
  have hzero : run.first = 0 := UInt32.toNat_inj.mp (by simp only [UInt32.toNat_zero]; omega)
  have hmax : run.last = 2 ^ 32 - 1 := UInt32.toNat_inj.mp (by
    have hnum : (2 ^ 32 - 1 : UInt32).toNat = 2 ^ 32 - 1 := rfl
    rw [hnum]
    omega)
  exact hids ⟨hzero ▸ hfirst, hmax ▸ hlast⟩

/-- Two ids in descending order, not to be sorted. -/
def descendingIds : List UInt32 := [7, 3]

def unsortedOptions : WindowedGatherOptions := ⟨0, 4096, 4096, false⟩

theorem descendingIds_not_gathered :
    ¬ GathersFaithfully (.byKey GatherRow.rowId) descendingIds 16 unsortedOptions
      (buildGatherPlan (.byKey GatherRow.rowId) descendingIds 16 unsortedOptions
        ⟨0, 0, 0, 0, 0, 0, 0, 0, 0, 0, 0⟩).1 := by
  intro h
  have hruns : unsortedOptions.runs (.byKey GatherRow.rowId) descendingIds 16 =
      [⟨⟨7, 0⟩, [⟨3, 1⟩], ⟨7, 3⟩⟩] := greedyRuns_singleton (by decide)
  obtain ⟨-, hid⟩ := h.ownRow (⟨7, 3 - 7 + 1⟩, [⟨0, 7 - 7⟩, ⟨1, 3 - 7⟩])
    (by rw [parts_eq, hruns]; exact List.mem_cons_self) ⟨1, 3 - 7⟩ (by simp)
  exact absurd hid (by decide)

end
end ForgeANN
