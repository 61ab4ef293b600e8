-- SUMMARY: What the bounded read planners promise: positions, limits, blocks and bytes.
import ForgeANN.Gather.Bounded
import ForgeANN.Gather.Faithful

/-!
# Bounded plans cover their rows and count what is read
-/
namespace ForgeANN

open Lib

/-! ## Positions -/

/-- A window of all `2 ^ 32` rows, whose count does not fit. -/
def ReadWindow.WholeRange (window : ReadWindow) : Prop :=
  window.startRow = 0 ∧ window.rowCount = 0

/-- Each position is scattered to once, from the row of its id in some window. -/
structure PlanCovers (ids : List UInt32) (plan : BoundedReadPlan) : Prop where
  once : (plan.scatter.map ReadScatter.originalPos).Perm (List.range ids.length)
  ownRow : ∀ s ∈ plan.scatter, ∃ window, plan.windows[s.windowIdx]? = some window ∧
    ids[s.originalPos]?.map UInt32.toNat =
      some (window.startRow.toNat + s.rowOffsetInWindow.toNat) ∧
    (s.rowOffsetInWindow < window.rowCount ∨ window.WholeRange)

section

variable {σ : Type} {planner : BoundedReadPlanner} {sort : RowSort} {ids : List UInt32}
  {runs : List (GreedyRun GatherRow σ)} {run : GreedyRun GatherRow σ}

theorem flatMap_zipIdx {α β : Type} (f : α → List β) (l : List α) :
    (l.zipIdx.flatMap fun a => f a.1) = l.flatMap f := by
  have h := List.flatMap_map (Prod.fst : α × Nat → α) f l.zipIdx
  rw [List.zipIdx_map_fst] at h
  exact h.symm

theorem mem_row_of_sorted (hflat : runs.flatMap GreedyRun.items = sort.sort (gatherRows ids))
    (hrun : run ∈ runs) {row : GatherRow} (hrow : row ∈ run.items) :
    ids[row.originalPos]? = some row.rowId := by
  apply mem_gatherRows.mp
  rw [← (sort.perm _).mem_iff, ← hflat]
  exact List.mem_flatMap_of_mem hrun hrow

/-- The rows of a run lie between its first and its last one. -/
theorem between_of_sorted (hflat : runs.flatMap GreedyRun.items = sort.sort (gatherRows ids))
    (hrun : run ∈ runs) {row : GatherRow} (hrow : row ∈ run.items) :
    run.first.rowId ≤ row.rowId ∧ row.rowId ≤ run.last.rowId := by
  have hsub := List.sublist_flatten_of_mem (List.mem_map_of_mem (f := GreedyRun.items) hrun)
  rw [← List.flatMap_def, hflat] at hsub
  have : Std.Refl fun a b : GatherRow => a.rowId ≤ b.rowId := ⟨fun a => le_refl a.rowId⟩
  exact GreedyRun.between_of_pairwise ((sort.sorted _).sublist hsub) hrow

theorem boundedWindow_rowCount (run : GreedyRun GatherRow σ) :
    (boundedWindow run).rowCount.toNat =
      (run.last.rowId.toNat - run.first.rowId.toNat + 1) % 2 ^ 32 := by
  have hone : (1 : UInt32).toNat = 1 := rfl
  rw [boundedWindow, UInt32.toNat_add, saturatingSub_toNat, hone]

/-- Unless a window has all rows, its row count is what lies between its ends. -/
theorem rowCount_or_wholeRange (run : GreedyRun GatherRow σ) :
    (boundedWindow run).rowCount.toNat =
        run.last.rowId.toNat - run.first.rowId.toNat + 1 ∨
      (boundedWindow run).WholeRange := by
  have hbound := run.last.rowId.toNat_lt
  by_cases hall : run.last.rowId.toNat - run.first.rowId.toNat + 1 = 2 ^ 32
  · right
    constructor
    · exact UInt32.toNat_inj.mp (by simp only [boundedWindow, UInt32.toNat_zero]; omega)
    · apply UInt32.toNat_inj.mp
      rw [boundedWindow_rowCount, hall]
      rfl
  · left
    rw [boundedWindow_rowCount, Nat.mod_eq_of_lt (by omega)]

theorem planOf_covers (windowBytes : GreedyRun GatherRow σ → Nat)
    (hflat : runs.flatMap GreedyRun.items = sort.sort (gatherRows ids)) :
    PlanCovers ids (planner.planOf ids runs windowBytes) := by
  constructor
  · have hscatter : ((planner.planOf ids runs windowBytes).scatter.map ReadScatter.originalPos) =
        (runs.flatMap GreedyRun.items).map GatherRow.originalPos := by
      rw [BoundedReadPlanner.planOf, List.map_flatMap, List.map_flatMap,
        ← flatMap_zipIdx (fun run : GreedyRun GatherRow σ => run.items.map GatherRow.originalPos)]
      apply List.flatMap_congr
      intro run _
      exact List.map_map ..
    rw [hscatter, hflat, ← gatherRows_positions]
    exact (sort.perm _).map _
  · intro s hs
    obtain ⟨⟨run, idx⟩, hrun, hs⟩ := List.mem_flatMap.mp hs
    obtain ⟨row, hrow, rfl⟩ := List.mem_map.mp hs
    have hidx := List.mem_zipIdx_iff_getElem?.mp hrun
    have hmem : run ∈ runs := List.mem_of_getElem? hidx
    obtain ⟨hlow, hhigh⟩ := between_of_sorted hflat hmem hrow
    refine ⟨boundedWindow run, ?_, ?_, ?_⟩
    · rw [BoundedReadPlanner.planOf, List.getElem?_map, hidx]
      rfl
    · rw [mem_row_of_sorted hflat hmem hrow]
      exact congrArg some (first_add_sub_iff.mpr hlow).symm
    · rcases rowCount_or_wholeRange run with hcount | hwhole
      · left
        have hlow := UInt32.le_iff_toNat_le.mp hlow
        have hhigh := UInt32.le_iff_toNat_le.mp hhigh
        rw [UInt32.lt_iff_toNat_lt, hcount, UInt32.toNat_sub_of_le _ _ (UInt32.le_iff_toNat_le.mpr hlow)]
        omega
      · exact .inr hwhole

end

/-! ## Limits -/

/-- The rows a run spans. -/
def spanRows {σ : Type} (run : GreedyRun GatherRow σ) : Nat :=
  run.last.rowId.toNat - run.first.rowId.toNat + 1

namespace BoundedReadPlanner

variable {planner : BoundedReadPlanner} {sort : RowSort} {ids : List UInt32}

/-- Whether `physical` for `needed` is within the limit, as the planner computes it. -/
def withinF64 (planner : BoundedReadPlanner) (physical needed : Nat) : Prop :=
  ¬ planner.maxAmp < asF64 physical / asF64 needed

/-- What the rows of a window have to do with what is known of them. -/
structure RowsFit (planner : BoundedReadPlanner) (items : List GatherRow) (rows : WindowRows) :
    Prop where
  first : items.head?.map GatherRow.rowId = some rows.startRow
  requested : rows.requestedRows = items.length
  limit : ∀ last ∈ items.getLast?,
    last.rowId.toNat - rows.startRow.toNat + 1 ≤ planner.maxWindowRows
  amplification : items.length = 1 ∨ ∀ last ∈ items.getLast?,
    planner.withinF64 (last.rowId.toNat - rows.startRow.toNat + 1) items.length

theorem rowsFit_start (row : GatherRow) : planner.RowsFit [row] ⟨row.rowId, 1⟩ where
  first := rfl
  requested := rfl
  limit last hlast := by
    cases hlast
    change row.rowId.toNat - row.rowId.toNat + 1 ≤ planner.maxWindowRows
    rw [Nat.sub_self]
    exact Nat.le_max_right ..
  amplification := .inl rfl

theorem rowsFit_extend {items : List GatherRow} {rows next : WindowRows} {row : GatherRow}
    (h : planner.RowsFit items rows) (hjoin : planner.extend rows row = some next) :
    planner.RowsFit (items ++ [row]) next := by
  unfold extend at hjoin
  dsimp only at hjoin
  split_ifs at hjoin with hstop
  cases hjoin
  obtain ⟨hlimit, hamp⟩ := not_or.mp hstop
  rw [saturatingSub_toNat] at hlimit hamp
  have hne : items ≠ [] := by
    rintro rfl
    cases h.first
  constructor
  · rw [List.head?_append_of_ne_nil _ hne]
    exact h.first
  · rw [List.length_append, h.requested, List.length_singleton]
  · intro last hlast
    rw [List.getLast?_concat] at hlast
    cases hlast
    exact Nat.not_lt.mp hlimit
  · right
    intro last hlast
    rw [List.getLast?_concat] at hlast
    cases hlast
    rw [List.length_append, List.length_singleton, ← h.requested]
    exact hamp

theorem rowsFit_of_mem {run : GreedyRun GatherRow WindowRows} (hrun : run ∈ planner.runs sort ids) :
    run.state.startRow = run.first.rowId ∧ spanRows run ≤ planner.maxWindowRows ∧
      (run.items.length = 1 ∨ planner.withinF64 (spanRows run) run.items.length) := by
  have hfit : planner.RowsFit run.items run.state :=
    greedyRuns_rule rowsFit_start (fun _ _ _ _ => rowsFit_extend) hrun
  have hfirst : run.state.startRow = run.first.rowId := (Option.some.inj hfit.first).symm
  refine ⟨hfirst, ?_, ?_⟩
  · rw [spanRows, ← hfirst]
    exact hfit.limit _ run.getLast?_items
  · rw [spanRows, ← hfirst]
    exact hfit.amplification.imp_right fun h => h _ run.getLast?_items

/-! ## Aligned windows -/

section

variable {alignmentBytes headerBytes : Nat} {items : List GatherRow}

def blocksOfRow (planner : BoundedReadPlanner) (alignmentBytes headerBytes : Nat) (rowId : UInt32) :
    AlignedBlockRange :=
  alignedBlocksForRow rowId planner.planRowBytes (max alignmentBytes 1) headerBytes

/-- The aligned blocks that rows touch. -/
def touchedBlocks (planner : BoundedReadPlanner) (alignmentBytes headerBytes : Nat)
    (items : List GatherRow) : Finset Nat :=
  items.toFinset.biUnion fun row =>
    Finset.Ico (planner.blocksOfRow alignmentBytes headerBytes row.rowId).start
      (planner.blocksOfRow alignmentBytes headerBytes row.rowId).stop

theorem mem_touchedBlocks {b : Nat} :
    b ∈ planner.touchedBlocks alignmentBytes headerBytes items ↔ ∃ row ∈ items,
      (planner.blocksOfRow alignmentBytes headerBytes row.rowId).start ≤ b ∧
        b < (planner.blocksOfRow alignmentBytes headerBytes row.rowId).stop := by
  simp only [touchedBlocks, Finset.mem_biUnion, List.mem_toFinset, Finset.mem_Ico]

theorem blocksOfRow_mono {a b : UInt32} (h : a ≤ b) :
    (planner.blocksOfRow alignmentBytes headerBytes a).start ≤
        (planner.blocksOfRow alignmentBytes headerBytes b).start ∧
      (planner.blocksOfRow alignmentBytes headerBytes a).stop ≤
        (planner.blocksOfRow alignmentBytes headerBytes b).stop := by
  have hmul := Nat.mul_le_mul_right planner.planRowBytes (UInt32.le_iff_toNat_le.mp h)
  simp only [blocksOfRow, alignedBlocksForRow, divCeil]
  exact ⟨Nat.div_le_div_right (by omega), Nat.div_le_div_right (by omega)⟩

/-- What the rows of an aligned window have to do with what is known of them. -/
structure AlignedFit (planner : BoundedReadPlanner) (alignmentBytes headerBytes : Nat)
    (items : List GatherRow) (rows : AlignedRows) : Prop where
  first : items.head?.map GatherRow.rowId = some rows.startRow
  physical : ∀ last ∈ items.getLast?, rows.physicalBytes = alignedReadBytesForRows rows.startRow
    last.rowId planner.planRowBytes (max alignmentBytes 1) headerBytes
  limit : items.length = 1 ∨ rows.physicalBytes ≤ planner.maxAlignedBytes alignmentBytes
  amplification : items.length = 1 ∨ rows.touchedBlockCount * max alignmentBytes 1 = 0 ∨
    planner.withinF64 rows.physicalBytes (rows.touchedBlockCount * max alignmentBytes 1)
  /-- Of sorted rows the last one's blocks are the last blocks touched. -/
  stop : items.Pairwise (fun a b => a.rowId ≤ b.rowId) → ∀ last ∈ items.getLast?,
    rows.touchedBlocks.stop = (planner.blocksOfRow alignmentBytes headerBytes last.rowId).stop
  count : items.Pairwise (fun a b => a.rowId ≤ b.rowId) →
    rows.touchedBlockCount = (planner.touchedBlocks alignmentBytes headerBytes items).card

theorem alignedFit_start (row : GatherRow) : planner.AlignedFit alignmentBytes headerBytes [row]
    (planner.firstAligned alignmentBytes headerBytes row) where
  first := rfl
  physical last hlast := by
    cases hlast
    rfl
  limit := .inl rfl
  amplification := .inl rfl
  stop _ last hlast := by
    cases hlast
    rfl
  count _ := by
    rw [touchedBlocks, List.toFinset_cons, List.toFinset_nil, LawfulSingleton.insert_empty_eq,
      Finset.singleton_biUnion, Nat.card_Ico]
    rfl

/-- A row behind sorted ones adds the blocks that lie behind theirs. -/
theorem card_touchedBlocks_concat {last row : GatherRow}
    (hsorted : (items ++ [row]).Pairwise fun a b => a.rowId ≤ b.rowId)
    (hlast : items.getLast? = some last) :
    (planner.touchedBlocks alignmentBytes headerBytes (items ++ [row])).card =
      (planner.touchedBlocks alignmentBytes headerBytes items).card +
        ((planner.blocksOfRow alignmentBytes headerBytes row.rowId).stop -
          max (planner.blocksOfRow alignmentBytes headerBytes last.rowId).stop
            (planner.blocksOfRow alignmentBytes headerBytes row.rowId).start) := by
  have hmem := List.mem_of_getLast? hlast
  obtain ⟨hitems, -, hrow⟩ := List.pairwise_append.mp hsorted
  have hlower : (planner.blocksOfRow alignmentBytes headerBytes last.rowId).start ≤
      (planner.blocksOfRow alignmentBytes headerBytes row.rowId).start :=
    (blocksOfRow_mono (hrow last hmem row List.mem_cons_self)).1
  have hupper : ∀ r ∈ items, (planner.blocksOfRow alignmentBytes headerBytes r.rowId).stop ≤
      (planner.blocksOfRow alignmentBytes headerBytes last.rowId).stop := by
    intro r hr
    have : Std.Refl fun a b : GatherRow => a.rowId ≤ b.rowId := ⟨fun a => le_refl a.rowId⟩
    have hle := hitems.rel_getLast hr
    rw [List.getLast?_eq_some_getLast (List.ne_nil_of_mem hmem)] at hlast
    rw [Option.some.inj hlast] at hle
    exact (blocksOfRow_mono hle).2
  have hsplit : planner.touchedBlocks alignmentBytes headerBytes (items ++ [row]) =
      planner.touchedBlocks alignmentBytes headerBytes items ∪
        Finset.Ico (max (planner.blocksOfRow alignmentBytes headerBytes last.rowId).stop
            (planner.blocksOfRow alignmentBytes headerBytes row.rowId).start)
          (planner.blocksOfRow alignmentBytes headerBytes row.rowId).stop := by
    ext b
    rw [Finset.mem_union, mem_touchedBlocks, mem_touchedBlocks, Finset.mem_Ico, Nat.max_le]
    constructor
    · rintro ⟨r, hr, hstart, hstop⟩
      rcases List.mem_append.mp hr with hr | hr
      · exact .inl ⟨r, hr, hstart, hstop⟩
      · rcases List.mem_singleton.mp hr with rfl
        -- what lies before the end of the last row's blocks is one of them
        by_cases hbefore : b < (planner.blocksOfRow alignmentBytes headerBytes last.rowId).stop
        · exact .inl ⟨last, hmem, hlower.trans hstart, hbefore⟩
        · exact .inr ⟨⟨Nat.not_lt.mp hbefore, hstart⟩, hstop⟩
    · rintro (⟨r, hr, hb⟩ | ⟨⟨-, hstart⟩, hstop⟩)
      · exact ⟨r, List.mem_append_left _ hr, hb⟩
      · exact ⟨row, List.mem_append_right _ List.mem_cons_self, hstart, hstop⟩
  have hdisjoint : Disjoint (planner.touchedBlocks alignmentBytes headerBytes items)
      (Finset.Ico (max (planner.blocksOfRow alignmentBytes headerBytes last.rowId).stop
          (planner.blocksOfRow alignmentBytes headerBytes row.rowId).start)
        (planner.blocksOfRow alignmentBytes headerBytes row.rowId).stop) := by
    rw [Finset.disjoint_left]
    intro b hb hnew
    obtain ⟨r, hr, -, hstop⟩ := mem_touchedBlocks.mp hb
    have hbehind := (Nat.max_le.mp (Finset.mem_Ico.mp hnew).1).1
    exact absurd (hstop.trans_le (hupper r hr)) (Nat.not_lt.mpr hbehind)
  rw [hsplit, Finset.card_union_of_disjoint hdisjoint, Nat.card_Ico]

/-- What a row that joins leaves behind. -/
theorem extendAligned_some {rows next : AlignedRows} {row : GatherRow}
    (h : planner.extendAligned alignmentBytes headerBytes rows row = some next) :
    next.startRow = rows.startRow ∧
      next.physicalBytes = alignedReadBytesForRows rows.startRow row.rowId planner.planRowBytes
        (max alignmentBytes 1) headerBytes ∧
      next.physicalBytes ≤ planner.maxAlignedBytes alignmentBytes ∧
      next.touchedBlocks.stop = max rows.touchedBlocks.stop
        (planner.blocksOfRow alignmentBytes headerBytes row.rowId).stop ∧
      next.touchedBlockCount = rows.touchedBlockCount +
        ((planner.blocksOfRow alignmentBytes headerBytes row.rowId).stop -
          max rows.touchedBlocks.stop
            (planner.blocksOfRow alignmentBytes headerBytes row.rowId).start) ∧
      (next.touchedBlockCount * max alignmentBytes 1 = 0 ∨
        planner.withinF64 next.physicalBytes (next.touchedBlockCount * max alignmentBytes 1)) := by
  unfold extendAligned at h
  dsimp only at h
  split_ifs at h with hbytes hzero hamp hamp
  · cases h
    exact ⟨rfl, rfl, Nat.not_lt.mp hbytes, rfl, rfl, .inl hzero⟩
  · cases h
    exact ⟨rfl, rfl, Nat.not_lt.mp hbytes, rfl, rfl, .inr hamp⟩

theorem alignedFit_extend {rows next : AlignedRows} {row : GatherRow}
    (h : planner.AlignedFit alignmentBytes headerBytes items rows)
    (hjoin : planner.extendAligned alignmentBytes headerBytes rows row = some next) :
    planner.AlignedFit alignmentBytes headerBytes (items ++ [row]) next := by
  obtain ⟨hstart, hphysical, hlimit, hstop, hcount, hamp⟩ := extendAligned_some hjoin
  have hne : items ≠ [] := by
    rintro rfl
    cases h.first
  obtain ⟨last, hlast⟩ : ∃ last, items.getLast? = some last :=
    ⟨_, List.getLast?_eq_some_getLast hne⟩
  have hconcat : ∀ r ∈ (items ++ [row]).getLast?, r = row := by
    intro r hr
    rw [List.getLast?_concat] at hr
    exact (Option.some.inj hr).symm
  constructor
  · rw [List.head?_append_of_ne_nil _ hne, hstart]
    exact h.first
  · intro r hr
    rw [hconcat r hr, hstart, hphysical]
  · exact .inr hlimit
  · exact .inr hamp
  · intro hsorted r hr
    obtain ⟨hitems, -, hrow⟩ := List.pairwise_append.mp hsorted
    have hle := hrow last (List.mem_of_getLast? hlast) row List.mem_cons_self
    rw [hconcat r hr, hstop, h.stop hitems last hlast]
    exact Nat.max_eq_right (blocksOfRow_mono hle).2
  · intro hsorted
    have hitems := (List.pairwise_append.mp hsorted).1
    rw [hcount, card_touchedBlocks_concat hsorted hlast, h.count hitems, h.stop hitems last hlast]

theorem alignedFit_of_mem {run : GreedyRun GatherRow AlignedRows}
    (hrun : run ∈ planner.alignedRuns alignmentBytes headerBytes sort ids) :
    planner.AlignedFit alignmentBytes headerBytes run.items run.state :=
  greedyRuns_rule alignedFit_start (fun _ _ _ _ => alignedFit_extend) hrun

theorem sorted_of_mem {run : GreedyRun GatherRow AlignedRows}
    (hrun : run ∈ planner.alignedRuns alignmentBytes headerBytes sort ids) :
    run.items.Pairwise fun a b => a.rowId ≤ b.rowId :=
  (sort.sorted _).sublist (items_sublist hrun)

end

/-! ## Bytes -/

theorem divCeil_add_mul (a k b : Nat) (hb : 0 < b) : divCeil (a + k * b) b = divCeil a b + k := by
  rw [divCeil, divCeil, ← Nat.add_mul_div_right _ _ hb]
  congr 1
  omega

/-- A window's read is as long as was planned for its rows. -/
theorem alignedRead_length (startRow endRow : UInt32) (rowBytes alignment headerBytes : Nat)
    {window : ReadWindow} (hstart : window.startRow = startRow)
    (hcount : window.rowCount.toNat = endRow.toNat - startRow.toNat + 1) :
    (alignedRead headerBytes rowBytes alignment window).2 =
      alignedReadBytesForRows startRow endRow rowBytes (max alignment 1) headerBytes := by
  have hpos : 0 < max alignment 1 := Nat.lt_of_lt_of_le Nat.one_pos (Nat.le_max_right ..)
  have hle := Nat.div_mul_le_self (headerBytes + startRow.toNat * rowBytes) (max alignment 1)
  simp only [alignedRead, alignedReadBytesForRows, hstart, hcount]
  have hsplit : headerBytes + startRow.toNat * rowBytes +
      (endRow.toNat - startRow.toNat + 1) * rowBytes =
        headerBytes + startRow.toNat * rowBytes -
            (headerBytes + startRow.toNat * rowBytes) / max alignment 1 * max alignment 1 +
          (endRow.toNat - startRow.toNat + 1) * rowBytes +
            (headerBytes + startRow.toNat * rowBytes) / max alignment 1 * max alignment 1 := by
    omega
  rw [hsplit, divCeil_add_mul _ _ _ hpos, Nat.add_mul (divCeil _ _), Nat.add_sub_cancel]

end BoundedReadPlanner

/-! ## Both plans -/

/-- The rational a finite `f64` stands for. -/
def f64Value (x : Float) : ℚ :=
  match x.toModel.unpack with
  | .finite .positive m e _ => m * 2 ^ e
  | .finite .negative m e _ => -(m * 2 ^ e)
  | _ => 0

namespace BoundedReadPlanner

/-- Whether `physical` for `needed` is within the limit, exactly. -/
def withinExact (planner : BoundedReadPlanner) (physical needed : Nat) : Prop :=
  (physical : ℚ) / needed ≤ f64Value planner.maxAmp

/-- The plan that counts rows; `within` is how amplification is compared with its limit. -/
structure RowPlanBounded (planner : BoundedReadPlanner) (within : Nat → Nat → Prop)
    (sort : RowSort) (ids : List UInt32) : Prop where
  covers : PlanCovers ids (planner.plan sort ids)
  limit : ∀ window ∈ (planner.plan sort ids).windows, window.rowCount ≤ 1 ∨
    window.rowCount.toNat * planner.planRowBytes ≤ planner.maxWindowBytes
  amplification : ∀ run ∈ planner.runs sort ids,
    run.items.length = 1 ∨ within (spanRows run) run.items.length
  bytes : ∀ headerBytes, readBytes ((planner.plan sort ids).windows.map
    (rangeRead headerBytes planner.planRowBytes)) = (planner.plan sort ids).physicalBytes

/-- The plan that counts aligned blocks. -/
structure AlignedPlanBounded (planner : BoundedReadPlanner) (within : Nat → Nat → Prop)
    (maxBytes alignmentBytes headerBytes : Nat) (sort : RowSort) (ids : List UInt32) : Prop where
  covers : PlanCovers ids (planner.planWithAlignedReadCost alignmentBytes headerBytes sort ids)
  limit : ∀ run ∈ planner.alignedRuns alignmentBytes headerBytes sort ids,
    run.items.length = 1 ∨ run.state.physicalBytes ≤ maxBytes
  amplification : ∀ run ∈ planner.alignedRuns alignmentBytes headerBytes sort ids,
    run.items.length = 1 ∨
      within run.state.physicalBytes (run.state.touchedBlockCount * max alignmentBytes 1)
  touched : ∀ run ∈ planner.alignedRuns alignmentBytes headerBytes sort ids,
    run.state.touchedBlockCount =
      (planner.touchedBlocks alignmentBytes headerBytes run.items).card
  bytes : (∀ window ∈ (planner.planWithAlignedReadCost alignmentBytes headerBytes sort ids).windows,
      ¬ window.WholeRange) →
    readBytes ((planner.planWithAlignedReadCost alignmentBytes headerBytes sort ids).windows.map
        (alignedRead headerBytes planner.planRowBytes alignmentBytes)) =
      (planner.planWithAlignedReadCost alignmentBytes headerBytes sort ids).physicalBytes

variable {planner : BoundedReadPlanner} {sort : RowSort} {ids : List UInt32}
  {alignmentBytes headerBytes : Nat}

theorem flatMap_runs : (planner.runs sort ids).flatMap GreedyRun.items = sort.sort (gatherRows ids) :=
  flatMap_greedyRuns _

theorem flatMap_alignedRuns :
    (planner.alignedRuns alignmentBytes headerBytes sort ids).flatMap GreedyRun.items =
      sort.sort (gatherRows ids) :=
  flatMap_greedyRuns _

theorem planRowBytes_pos (planner : BoundedReadPlanner) : 0 < planner.planRowBytes :=
  Nat.lt_of_lt_of_le Nat.one_pos (Nat.le_max_right ..)

/-- A window of the row count's limit keeps the byte limit, or has one row. -/
theorem limit_of_maxWindowRows {rows : Nat} (h : rows ≤ planner.maxWindowRows) :
    rows ≤ 1 ∨ rows * planner.planRowBytes ≤ planner.maxWindowBytes := by
  have hpos := planner.planRowBytes_pos
  unfold maxWindowRows at h
  rcases Nat.le_total planner.planRowBytes planner.maxWindowBytes with hle | hle
  · rw [Nat.max_eq_left hle, Nat.max_eq_left ((Nat.one_le_div_iff hpos).mpr hle)] at h
    exact .inr ((Nat.le_div_iff_mul_le hpos).mp h)
  · rw [Nat.max_eq_right hle, Nat.div_self hpos, Nat.max_self] at h
    exact .inl h

theorem touchedBlockCount_pos {run : GreedyRun GatherRow AlignedRows}
    (hrun : run ∈ planner.alignedRuns alignmentBytes headerBytes sort ids) :
    0 < run.state.touchedBlockCount := by
  rw [(alignedFit_of_mem hrun).count (sorted_of_mem hrun), Finset.card_pos]
  refine ⟨_, mem_touchedBlocks.mpr ⟨run.first, List.mem_cons_self, Nat.le_refl _, ?_⟩⟩
  have hpos := planner.planRowBytes_pos
  have halign : 0 < max alignmentBytes 1 := Nat.lt_of_lt_of_le Nat.one_pos (Nat.le_max_right ..)
  have hle := Nat.div_mul_le_self (headerBytes + run.first.rowId.toNat * planner.planRowBytes)
    (max alignmentBytes 1)
  simp only [blocksOfRow, alignedBlocksForRow, divCeil]
  apply (Nat.le_div_iff_mul_le halign).mpr
  rw [Nat.succ_mul]
  omega

theorem boundedPlans_correct (planner : BoundedReadPlanner) (alignmentBytes headerBytes : Nat)
    (sort : RowSort) (ids : List UInt32) :
    planner.RowPlanBounded planner.withinF64 sort ids ∧
      planner.AlignedPlanBounded planner.withinF64 (planner.maxAlignedBytes alignmentBytes)
        alignmentBytes headerBytes sort ids := by
  constructor
  · constructor
    · exact planOf_covers _ flatMap_runs
    · intro window hwindow
      obtain ⟨run, hrun, rfl⟩ := List.mem_map.mp hwindow
      have hrows : (boundedWindow run).rowCount.toNat ≤ planner.maxWindowRows := by
        rw [boundedWindow_rowCount]
        exact (Nat.mod_le ..).trans (rowsFit_of_mem hrun).2.1
      exact (limit_of_maxWindowRows hrows).imp_left UInt32.le_iff_toNat_le.mpr
    · exact fun run hrun => (rowsFit_of_mem hrun).2.2
    · intro headerBytes
      rw [plan, planOf, readBytes, List.map_map, List.map_map]
      rfl
  · constructor
    · exact planOf_covers _ flatMap_alignedRuns
    · exact fun run hrun => (alignedFit_of_mem hrun).limit
    · intro run hrun
      have hpos : 0 < run.state.touchedBlockCount * max alignmentBytes 1 :=
        Nat.mul_pos (touchedBlockCount_pos hrun)
          (Nat.lt_of_lt_of_le Nat.one_pos (Nat.le_max_right ..))
      exact (alignedFit_of_mem hrun).amplification.imp_right fun h =>
        h.resolve_left (Nat.ne_of_gt hpos)
    · exact fun run hrun => (alignedFit_of_mem hrun).count (sorted_of_mem hrun)
    · intro hwindows
      rw [planWithAlignedReadCost, planOf, readBytes, List.map_map, List.map_map]
      congr 1
      apply List.map_congr_left
      intro run hrun
      have hfit := alignedFit_of_mem hrun
      have hfirst : run.state.startRow = run.first.rowId := (Option.some.inj hfit.first).symm
      have hcount := (rowCount_or_wholeRange run).resolve_right
        (hwindows _ (List.mem_map_of_mem hrun))
      rw [hfit.physical _ run.getLast?_items, hfirst]
      exact alignedRead_length _ _ _ _ _ rfl hcount

/-- The limit is the `f64` next to 4/3, which lies below it; three of four rows are asked for. -/
def fourThirdsPlanner : BoundedReadPlanner := ⟨1, 4096, .ofBits 0x3FF5555555555555⟩

/-- Windows of twenty bytes, read in blocks of 64. -/
def narrowPlanner : BoundedReadPlanner := ⟨10, 20, 1.5⟩

theorem limits_not_exact :
    ¬ fourThirdsPlanner.RowPlanBounded fourThirdsPlanner.withinExact
        (.byKey GatherRow.rowId) [0, 1, 3] ∧
      ¬ narrowPlanner.AlignedPlanBounded narrowPlanner.withinExact narrowPlanner.maxWindowBytes
        64 0 (.byKey GatherRow.rowId) [0, 1] := by
  constructor
  · intro h
    have hruns : fourThirdsPlanner.runs (.byKey GatherRow.rowId) [0, 1, 3] =
        [⟨⟨0, 0⟩, [⟨1, 1⟩, ⟨3, 2⟩], ⟨0, 3⟩⟩] := greedyRuns_singleton (by decide +kernel)
    have hamp := h.amplification ⟨⟨0, 0⟩, [⟨1, 1⟩, ⟨3, 2⟩], ⟨0, 3⟩⟩
      (by rw [hruns]; exact List.mem_cons_self)
    have hexact : fourThirdsPlanner.withinExact 4 3 := hamp.resolve_left (by decide)
    exact absurd hexact (by unfold withinExact; decide +kernel)
  · intro h
    have hruns : narrowPlanner.alignedRuns 64 0 (.byKey GatherRow.rowId) [0, 1] =
        [⟨⟨0, 0⟩, [⟨1, 1⟩], ⟨0, ⟨0, 1⟩, 1, 64⟩⟩] := greedyRuns_singleton (by decide +kernel)
    have hlimit := h.limit ⟨⟨0, 0⟩, [⟨1, 1⟩], ⟨0, ⟨0, 1⟩, 1, 64⟩⟩
      (by rw [hruns]; exact List.mem_cons_self)
    exact absurd hlimit (by decide)

end BoundedReadPlanner
end ForgeANN
