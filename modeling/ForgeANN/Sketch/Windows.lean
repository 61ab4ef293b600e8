-- SUMMARY: Rows copied out of windows: exactly when every position gets the row of its id.
import ForgeANN.Gather.BoundedPlan
import ForgeANN.Sketch.Store

/-!
# Reading windows

All planned reads come to the same: windows are read one after the other, and of
each one some rows are copied to where they are asked for. Row offsets wrap, and
a reader may deliver rows past the end, so what is copied is told by the row it
really comes from.
-/
namespace ForgeANN

open Lib

/-- Whatever a reader delivers are the rows it was asked for. -/
def Serves (rowOf : Nat → List F32) (read : ReadWindow → AnnResult (List F32)) : Prop :=
  ∀ window values, read window = .ok values →
    values = (List.range window.rowCount.toNat).flatMap fun k => rowOf (window.startRow.toNat + k)

/-- The row that is copied for a row of a window. -/
def sourceRow (window : ReadWindow) (row : GatherRow) : Nat :=
  window.startRow.toNat + (row.rowId - window.startRow).toNat

def InWindow (window : ReadWindow) (row : GatherRow) : Prop :=
  row.rowId - window.startRow < window.rowCount

/-- A window, and the rows to be copied out of it. -/
abbrev WindowPart := ReadWindow × List GatherRow

/-- Rows copied from slots of `values` to slots of `out`. -/
def copySlots (width : Nat) (values : List F32) (moves : List (Nat × Nat)) (out : List F32) :
    AnnResult (List F32) :=
  moves.foldlM (fun out move => copySlice values (move.1 * width) out (move.2 * width) width) out

def WindowPart.moves (part : WindowPart) : List (Nat × Nat) :=
  part.2.map fun row => ((row.rowId - part.1.startRow).toNat, row.originalPos)

def readParts (read : ReadWindow → AnnResult (List F32)) (width : Nat) (parts : List WindowPart)
    (out : List F32) : AnnResult (List F32) :=
  parts.foldlM (fun out part => do
    let values ← read part.1
    copySlots width values part.moves out) out

/-- What the rows of a part are copied to, and what is copied there. -/
def placedBy (rowOf : Nat → List F32) (part : WindowPart) : List (Nat × List F32) :=
  part.2.map fun row => (row.originalPos, rowOf (sourceRow part.1 row))

/-! ## Copying rows -/

section

variable {width n count : Nat} {values out filled : List F32} {moves : List (Nat × Nat)}
  {placed : List (Nat × List F32)}

theorem copySlots_stocked (hvalues : values.length = count * width)
    (h : Stocked width n placed out) (hin : ∀ move ∈ moves, move.1 < count ∧ move.2 < n)
    (hnodup : (placed.map Prod.fst ++ moves.map Prod.snd).Nodup) :
    ∃ filled, copySlots width values moves out = .ok filled ∧
      Stocked width n (placed ++ moves.map fun move => (move.2, slot width values move.1)) filled := by
  induction moves generalizing placed out with
  | nil => exact ⟨out, rfl, by rwa [List.map_nil, List.append_nil]⟩
  | cons move moves ih =>
      obtain ⟨hsrc, hdst⟩ := hin move List.mem_cons_self
      have hfrom := slot_bound width hsrc
      have hto := slot_bound width hdst
      rw [← hvalues] at hfrom
      rw [← h.length] at hto
      have hnew : move.2 ∉ placed.map Prod.fst := fun hmem =>
        (List.nodup_append.mp hnodup).2.2 _ hmem _ List.mem_cons_self rfl
      have hnext := h.setSlot hdst (slot_length hvalues hsrc) hnew
      rw [List.map_cons, List.append_cons] at hnodup
      obtain ⟨filled, hfold, hfilled⟩ := ih hnext
        (fun m hm => hin m (List.mem_cons_of_mem _ hm)) (by rwa [List.map_append])
      refine ⟨filled, ?_, by rwa [List.map_cons, List.append_cons]⟩
      rw [copySlots] at hfold ⊢
      rw [List.foldlM_cons, RowFile.copySlice_eq hfrom hto]
      exact hfold

theorem copySlice_ok {src dst : List F32} {srcStart dstStart len : Nat}
    (h : copySlice src srcStart dst dstStart len = .ok filled) :
    srcStart + len ≤ src.length ∧ dstStart + len ≤ dst.length ∧ filled.length = dst.length := by
  unfold copySlice at h
  split_ifs at h with hle
  rw [← Except.ok.inj h]
  refine ⟨hle.1, hle.2, ?_⟩
  simp only [List.length_append, List.length_take, List.length_drop]
  omega

theorem lt_of_slot_le {k : Nat} (hpos : 0 < width) (h : k * width + width ≤ count * width) :
    k < count := by
  rw [← Nat.succ_mul] at h
  exact Nat.le_of_mul_le_mul_right h hpos

/-- What could be copied was there, and the length stays. -/
theorem copySlots_ok (hpos : 0 < width) (hvalues : values.length = count * width)
    (h : copySlots width values moves out = .ok filled) :
    (∀ move ∈ moves, move.1 < count) ∧ filled.length = out.length := by
  unfold copySlots at h
  refine foldlM_induction (P := fun done filled =>
    (∀ move ∈ done, move.1 < count) ∧ filled.length = out.length) ?_ ?_ h
  · rintro done move - filled next ⟨hdone, hfilled⟩ hcopy
    obtain ⟨hsrc, -, hlen⟩ := copySlice_ok hcopy
    refine ⟨fun m hm => ?_, hlen.trans hfilled⟩
    rcases List.mem_append.mp hm with hm | hm
    · exact hdone m hm
    · rw [List.mem_singleton.mp hm]
      exact lt_of_slot_le hpos (hvalues ▸ hsrc)
  · exact ⟨fun move hmove => absurd hmove List.not_mem_nil, rfl⟩

end

/-! ## Reading parts -/

section

variable {rowOf : Nat → List F32} {read : ReadWindow → AnnResult (List F32)} {width n : Nat}
  {part : WindowPart} {parts : List WindowPart} {values out filled : List F32}
  {placed : List (Nat × List F32)}

theorem length_served (hwidth : ∀ i, (rowOf i).length = width) (start count : Nat) :
    ((List.range count).flatMap fun k => rowOf (start + k)).length = count * width := by
  rw [length_flatMap_of_width fun k _ => hwidth (start + k), List.length_range]

theorem slot_served (hwidth : ∀ i, (rowOf i).length = width) (start : Nat) {count k : Nat}
    (hk : k < count) :
    slot width ((List.range count).flatMap fun k => rowOf (start + k)) k = rowOf (start + k) :=
  slot_flatMap (fun k _ => hwidth (start + k)) (List.getElem?_range hk)

theorem moves_positions (part : WindowPart) :
    part.moves.map Prod.snd = part.2.map GatherRow.originalPos := List.map_map ..

/-- What a part's moves copy out of the rows of its window. -/
theorem moves_placed (hwidth : ∀ i, (rowOf i).length = width)
    (hin : ∀ row ∈ part.2, InWindow part.1 row) :
    (part.moves.map fun move => (move.2, slot width
      ((List.range part.1.rowCount.toNat).flatMap fun k => rowOf (part.1.startRow.toNat + k))
        move.1)) = placedBy rowOf part := by
  rw [WindowPart.moves, List.map_map]
  apply List.map_congr_left
  intro row hrow
  rw [Function.comp_apply, slot_served hwidth _ (UInt32.lt_iff_toNat_lt.mp (hin row hrow))]
  rfl

/-- Every window is read, and what is to be copied lies in it. -/
def WindowDelivers (read : ReadWindow → AnnResult (List F32)) (part : WindowPart) : Prop :=
  (∃ values, read part.1 = .ok values) ∧
    ∀ row ∈ part.2, InWindow part.1 row

theorem delivers_of_readParts (hpos : 0 < width) (hwidth : ∀ i, (rowOf i).length = width)
    (hserves : Serves rowOf read) (h : readParts read width parts out = .ok filled) :
    ∀ part ∈ parts, WindowDelivers read part := by
  unfold readParts at h
  refine foldlM_induction (P := fun done _ => ∀ part ∈ done, WindowDelivers read part) ?_ ?_ h
  · intro done part _ out next hdone hstep p hp
    rcases List.mem_append.mp hp with hp | hp
    · exact hdone p hp
    · obtain ⟨values, hread, hcopy⟩ := bind_eq_ok.mp hstep
      rw [List.mem_singleton.mp hp]
      refine ⟨⟨values, hread⟩, fun row hrow => ?_⟩
      have hlen : values.length = part.1.rowCount.toNat * width := by
        rw [hserves _ _ hread, length_served hwidth]
      exact UInt32.lt_iff_toNat_lt.mpr ((copySlots_ok hpos hlen hcopy).1 _
        (List.mem_map_of_mem hrow))
  · exact fun part hpart => absurd hpart List.not_mem_nil

theorem readParts_stocked (hwidth : ∀ i, (rowOf i).length = width) (hserves : Serves rowOf read)
    (h : Stocked width n placed out) (hdelivers : ∀ part ∈ parts, WindowDelivers read part)
    (hpos : ∀ part ∈ parts, ∀ row ∈ part.2, row.originalPos < n)
    (hnodup : (placed.map Prod.fst ++
      (parts.flatMap Prod.snd).map GatherRow.originalPos).Nodup) :
    ∃ filled, readParts read width parts out = .ok filled ∧
      Stocked width n (placed ++ parts.flatMap (placedBy rowOf)) filled := by
  induction parts generalizing placed out with
  | nil => exact ⟨out, rfl, by rwa [List.flatMap_nil, List.append_nil]⟩
  | cons part parts ih =>
      obtain ⟨⟨values, hread⟩, hin⟩ := hdelivers part List.mem_cons_self
      have hvalues := hserves _ _ hread
      have hmoves : ∀ move ∈ part.moves, move.1 < part.1.rowCount.toNat ∧ move.2 < n := by
        intro move hmove
        obtain ⟨row, hrow, rfl⟩ := List.mem_map.mp hmove
        exact ⟨UInt32.lt_iff_toNat_lt.mp (hin row hrow), hpos part List.mem_cons_self row hrow⟩
      rw [List.flatMap_cons, List.map_append, ← List.append_assoc] at hnodup
      obtain ⟨next, hcopy, hnext⟩ := copySlots_stocked
        (hvalues ▸ length_served hwidth part.1.startRow.toNat _) h hmoves
        (by rw [moves_positions]; exact (List.nodup_append.mp hnodup).1)
      rw [hvalues, moves_placed hwidth hin] at hnext
      have hplaced : (placedBy rowOf part).map Prod.fst = part.2.map GatherRow.originalPos :=
        List.map_map ..
      obtain ⟨filled, hfold, hfilled⟩ := ih hnext
        (fun p hp => hdelivers p (List.mem_cons_of_mem _ hp))
        (fun p hp => hpos p (List.mem_cons_of_mem _ hp))
        (by rwa [List.map_append, hplaced])
      refine ⟨filled, ?_, ?_⟩
      · simp only [readParts] at hfold ⊢
        rw [List.foldlM_cons, hread, ok_bind, hcopy]
        exact hfold
      · rwa [List.flatMap_cons, ← List.append_assoc]

theorem readParts_length (hpos : 0 < width) (hwidth : ∀ i, (rowOf i).length = width)
    (hserves : Serves rowOf read) (h : readParts read width parts out = .ok filled) :
    filled.length = out.length := by
  unfold readParts at h
  refine foldlM_preserves (P := fun filled => filled.length = out.length) ?_ rfl h
  intro part _ filled next hfilled hstep
  obtain ⟨values, hread, hcopy⟩ := bind_eq_ok.mp hstep
  have hlen : values.length = part.1.rowCount.toNat * width := by
    rw [hserves _ _ hread, length_served hwidth]
  exact (copySlots_ok hpos hlen hcopy).2.trans hfilled

/-- The rows of the parts are those of the ids, each once. -/
structure Arranged (ids : List UInt32) (parts : List WindowPart) : Prop where
  once : ((parts.flatMap Prod.snd).map GatherRow.originalPos).Perm (List.range ids.length)
  ownId : ∀ part ∈ parts, ∀ row ∈ part.2, ids[row.originalPos]? = some row.rowId

theorem placedBy_positions (rowOf : Nat → List F32) (parts : List WindowPart) :
    (parts.flatMap (placedBy rowOf)).map Prod.fst =
      (parts.flatMap Prod.snd).map GatherRow.originalPos := by
  rw [List.map_flatMap, List.map_flatMap]
  apply List.flatMap_congr
  intro part _
  rw [placedBy, List.map_map]
  rfl

/-- The ids' rows come out exactly if every window is read, and what is copied for a row lies in its
window and is the same as the row. -/
theorem readParts_matrix_iff {ids : List UInt32} (hpos : 0 < width)
    (hwidth : ∀ i, (rowOf i).length = width) (hserves : Serves rowOf read)
    (harranged : Arranged ids parts) (hout : out.length = ids.length * width) :
    readParts read width parts out = .ok (ids.flatMap fun id => rowOf id.toNat) ↔
      ∀ part ∈ parts, WindowDelivers read part ∧
        ∀ row ∈ part.2, rowOf (sourceRow part.1 row) = rowOf row.rowId.toNat := by
  have hplace : ∀ part ∈ parts, ∀ row ∈ part.2, row.originalPos < ids.length := fun part hpart row hrow =>
    (List.getElem?_eq_some_iff.mp (harranged.ownId part hpart row hrow)).1
  have hperm : (([] ++ parts.flatMap (placedBy rowOf)).map Prod.fst).Perm
      (List.range ids.length) := by
    rw [List.nil_append, placedBy_positions]
    exact harranged.once
  have hnodup := harranged.once.nodup_iff.mpr List.nodup_range
  have hstocked : (∀ part ∈ parts, WindowDelivers read part) →
      ∃ filled, readParts read width parts out = .ok filled ∧
        Stocked width ids.length ([] ++ parts.flatMap (placedBy rowOf)) filled := fun hdelivers =>
    readParts_stocked hwidth hserves (.nil hout) hdelivers hplace hnodup
  constructor
  · intro hread
    have hdelivers := delivers_of_readParts hpos hwidth hserves hread
    obtain ⟨filled, hfilled, hrows⟩ := hstocked hdelivers
    rw [hread] at hfilled
    obtain rfl := Except.ok.inj hfilled
    refine fun part hpart => ⟨hdelivers part hpart, fun row hrow => ?_⟩
    have hplaced : (row.originalPos, rowOf (sourceRow part.1 row)) ∈
        [] ++ parts.flatMap (placedBy rowOf) := by
      rw [List.nil_append]
      exact List.mem_flatMap_of_mem hpart (List.mem_map_of_mem hrow)
    have hslot := hrows.rows _ hplaced
    rw [slot_flatMap (fun id _ => hwidth id.toNat) (harranged.ownId part hpart row hrow)] at hslot
    exact hslot.symm
  · intro h
    obtain ⟨filled, hfilled, hrows⟩ := hstocked fun part hpart => (h part hpart).1
    rw [hfilled, hrows.eq hperm fun e he => ?_,
      flatMap_range_getD (fun id : UInt32 => rowOf id.toNat) ids 0]
    rw [List.nil_append] at he
    obtain ⟨part, hpart, he⟩ := List.mem_flatMap.mp he
    obtain ⟨row, hrow, rfl⟩ := List.mem_map.mp he
    simp only [List.getD_eq_getElem?_getD, harranged.ownId part hpart row hrow, Option.getD_some]
    exact (h part hpart).2 row hrow

end

/-! ## The plans' windows -/

/-- A window of either planner, with the rows of its run. -/
def windowPart {σ : Type} (window : GreedyRun GatherRow σ → ReadWindow)
    (run : GreedyRun GatherRow σ) : WindowPart := (window run, run.items)

section

variable {read : Nat → Nat → AnnResult (List F32)} {width : Nat}

/-- A range reader, for windows. -/
def readingWindow (read : Nat → Nat → AnnResult (List F32)) (window : ReadWindow) :
    AnnResult (List F32) := read window.startRow.toNat window.rowCount.toNat

theorem scatterWindowRows_eq {plan : GatherPlan} {run : GreedyRun GatherRow WindowSpan} {i : Nat}
    (hops : plan.scatterByWindow[i]? = some (windowScatter run)) (values out : List F32) :
    scatterWindowRows plan i width values out =
      copySlots width values (windowPart readWindow run).moves out := by
  simp only [scatterWindowRows, hops, windowScatter, copySlots, WindowPart.moves, List.foldlM_map]
  rfl

theorem readWindows_eq {plan : GatherPlan} {before runs : List (GreedyRun GatherRow WindowSpan)}
    (hplan : plan.scatterByWindow = (before ++ runs).map windowScatter) (out : List F32) :
    ((runs.map readWindow).zipIdx before.length).foldlM (fun out window => do
        let windowSlice ← read window.1.startRow.toNat window.1.rowCount.toNat
        scatterWindowRows plan window.2 width windowSlice out) out =
      readParts (readingWindow read) width (runs.map (windowPart readWindow)) out := by
  induction runs generalizing before out with
  | nil => rfl
  | cons run runs ih =>
      have hops : plan.scatterByWindow[before.length]? = some (windowScatter run) := by
        rw [hplan, List.getElem?_map, List.getElem?_append_right (Nat.le_refl _), Nat.sub_self]
        rfl
      have hplan' : plan.scatterByWindow = ((before ++ [run]) ++ runs).map windowScatter := by
        rw [hplan, List.append_cons]
      have hrest := fun next => ih hplan' next
      rw [List.length_append, List.length_singleton] at hrest
      simp only [readParts] at hrest ⊢
      rw [List.map_cons, List.zipIdx_cons, List.foldlM_cons, List.map_cons, List.foldlM_cons]
      simp only [scatterWindowRows_eq hops, hrest]
      rfl

/-- The windowed read of a plan. -/
theorem readWindows_gatherPlan (sort : RowSort) (ids : List UInt32) (rowBytes : Nat)
    (options : WindowedGatherOptions) (stats : WindowedGatherStats) (out : List F32) :
    readWindows read (buildGatherPlan sort ids rowBytes options stats).1 width out =
      readParts (readingWindow read) width ((options.runs sort ids rowBytes).map (windowPart readWindow)) out := by
  rw [buildGatherPlan_windows]
  have hplan := @readWindows_eq read width (buildGatherPlan sort ids rowBytes options stats).1 []
    (options.runs sort ids rowBytes) rfl out
  exact hplan

variable {σ : Type}

/-- The scatter operations of one window. -/
def runScatter (run : GreedyRun GatherRow σ × Nat) : List ReadScatter :=
  run.1.items.map fun row => ⟨run.2, row.rowId - run.1.first.rowId, row.originalPos⟩

theorem takeWhile_of_forall_not {α : Type} {p : α → Bool} {l : List α} (h : ∀ a ∈ l, ¬ p a = true) :
    l.takeWhile p = [] ∧ l.dropWhile p = l := by
  cases l with
  | nil => exact ⟨rfl, rfl⟩
  | cons a l =>
      have ha := h a List.mem_cons_self
      rw [List.takeWhile_cons, List.dropWhile_cons, if_neg ha, if_neg ha]
      exact ⟨rfl, rfl⟩

/-- The cursor stops where the operations of the next window begin. -/
theorem boundedSketchScatterRanges_eq (runs : List (GreedyRun GatherRow σ)) (windowIdx : Nat) :
    boundedSketchScatterRanges runs.length windowIdx ((runs.zipIdx windowIdx).flatMap runScatter) =
      (runs.zipIdx windowIdx).map runScatter := by
  induction runs generalizing windowIdx with
  | nil => rfl
  | cons run runs ih =>
      have hown : ∀ op ∈ runScatter (run, windowIdx), decide (op.windowIdx = windowIdx) = true := by
        intro op hop
        obtain ⟨row, _, rfl⟩ := List.mem_map.mp hop
        exact decide_eq_true rfl
      have hother : ∀ op ∈ (runs.zipIdx (windowIdx + 1)).flatMap runScatter,
          ¬ decide (op.windowIdx = windowIdx) = true := by
        intro op hop
        obtain ⟨⟨run', idx⟩, hrun, hop⟩ := List.mem_flatMap.mp hop
        obtain ⟨row, _, rfl⟩ := List.mem_map.mp hop
        have hle := (List.mem_zipIdx hrun).1
        simp only [decide_eq_true_eq]
        omega
      obtain ⟨htake, hdrop⟩ := takeWhile_of_forall_not hother
      rw [List.length_cons, List.zipIdx_cons, List.flatMap_cons, boundedSketchScatterRanges,
        List.takeWhile_append_of_pos hown, List.dropWhile_append_of_pos hown, htake, hdrop, ih,
        List.append_nil, List.map_cons]

theorem planOf_parts (planner : BoundedReadPlanner) (ids : List UInt32)
    (runs : List (GreedyRun GatherRow σ)) (windowBytes : GreedyRun GatherRow σ → Nat) :
    (planner.planOf ids runs windowBytes).parts =
      runs.zipIdx.map fun run => (boundedWindow run.1, runScatter run) := by
  have hranges := boundedSketchScatterRanges_eq runs 0
  have hwindows : runs.map boundedWindow = runs.zipIdx.map fun run => boundedWindow run.1 := by
    conv_lhs => rw [← List.zipIdx_map_fst 0 runs, List.map_map]
    rfl
  simp only [BoundedReadPlan.parts, BoundedReadPlanner.planOf, List.length_map]
  rw [show (runs.zipIdx.flatMap fun run => run.1.items.map fun row =>
      (⟨run.2, row.rowId - run.1.first.rowId, row.originalPos⟩ : ReadScatter)) =
        runs.zipIdx.flatMap runScatter from rfl, hranges, hwindows, List.zip_map']

theorem scatterBoundedSketchWindow_eq (run : GreedyRun GatherRow σ × Nat) (values out : List F32) :
    scatterBoundedSketchWindow (runScatter run) width values out =
      copySlots width values (windowPart boundedWindow run.1).moves out := by
  rw [scatterBoundedSketchWindow, runScatter, copySlots, WindowPart.moves, List.foldlM_map,
    List.foldlM_map]
  rfl

/-- The bounded read of a plan, window by window. -/
theorem readBoundedWindows_planOf (planner : BoundedReadPlanner) (ids : List UInt32)
    (runs : List (GreedyRun GatherRow σ)) (windowBytes : GreedyRun GatherRow σ → Nat)
    (out : List F32) :
    readBoundedWindows read (planner.planOf ids runs windowBytes) width out =
      readParts (readingWindow read) width (runs.map (windowPart boundedWindow)) out := by
  have hruns : runs.map (windowPart boundedWindow) =
      runs.zipIdx.map fun run => windowPart boundedWindow run.1 := by
    conv_lhs => rw [← List.zipIdx_map_fst 0 runs, List.map_map]
    rfl
  rw [readBoundedWindows, planOf_parts, readParts, hruns, List.foldlM_map, List.foldlM_map]
  simp only [scatterBoundedSketchWindow_eq]
  rfl

end

end ForgeANN
