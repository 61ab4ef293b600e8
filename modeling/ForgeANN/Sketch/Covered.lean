-- SUMMARY: When planned reads of a sketch matrix agree with its rows, whatever its values.
import ForgeANN.Sketch.Readers

/-!
# Windows that cover their rows

If a window's offset wraps, the row that is copied lies `2 ^ 32` rows behind the
one that is asked for, in the file or past its end. A matrix of ones up to there
and of zeros from there on tells the two apart.
-/
namespace ForgeANN

open Lib

/-- What is copied for a row lies in the window and is the row. -/
def PartCovers (part : WindowPart) : Prop :=
  ∀ row ∈ part.2, InWindow part.1 row ∧ sourceRow part.1 row = row.rowId.toNat

theorem sourceRow_cases (window : ReadWindow) (row : GatherRow) :
    sourceRow window row = row.rowId.toNat ∨ 2 ^ 32 ≤ sourceRow window row := by
  by_cases hle : window.startRow ≤ row.rowId
  · exact .inl (first_add_sub_iff.mpr hle)
  · right
    have hlt := UInt32.lt_iff_toNat_lt.mp (UInt32.not_le.mp hle)
    have hstart := window.startRow.toNat_lt
    rw [sourceRow, UInt32.toNat_sub]
    omega

/-! ## A matrix that tells rows apart -/

/-- `1.0f32`. -/
def F32.one : F32 := ⟨0x3f800000⟩

/-- Ones in the rows that have an id, zeros in the others. -/
def tellingMatrix (shape : SketchShape) : SketchMatrix shape where
  data := (List.range (shape.rows * shape.width)).map fun j =>
    if j < 2 ^ 32 * shape.width then F32.one else F32.zero
  length := by rw [List.length_map, List.length_range]

theorem tellingMatrix_getD (shape : SketchShape) (j : Nat) :
    (tellingMatrix shape).data.getD j F32.zero =
      if j < shape.rows * shape.width ∧ j < 2 ^ 32 * shape.width then F32.one else F32.zero := by
  rw [tellingMatrix, List.getD_eq_getElem?_getD, List.getElem?_map]
  by_cases hj : j < shape.rows * shape.width
  · rw [List.getElem?_range hj]
    simp only [Option.map_some, Option.getD_some, hj, true_and]
  · rw [List.getElem?_eq_none (by simpa using hj), if_neg fun h => hj h.1]
    rfl

theorem tellingMatrix_row_head (shape : SketchShape) (i : Nat) :
    ((tellingMatrix shape).row i)[0]? =
      some (if i < shape.rows ∧ i < 2 ^ 32 then F32.one else F32.zero) := by
  have hpos := shape.width_pos
  have hiff : ∀ n, i * shape.width < n * shape.width ↔ i < n := fun n =>
    Nat.mul_lt_mul_right hpos
  rw [SketchMatrix.row, List.getElem?_map, List.getElem?_range hpos, Option.map_some,
    tellingMatrix_getD, Nat.add_zero]
  simp only [hiff]

/-- A row with an id differs from every row without one. -/
theorem tellingMatrix_row_ne {shape : SketchShape} {i j : Nat} (hi : i < shape.rows)
    (hid : i < 2 ^ 32) (hj : 2 ^ 32 ≤ j) :
    (tellingMatrix shape).row j ≠ (tellingMatrix shape).row i := by
  intro heq
  have hhead := congrArg (fun row => row[0]?) heq
  simp only [tellingMatrix_row_head] at hhead
  rw [if_neg (by omega), if_pos ⟨hi, hid⟩] at hhead
  exact absurd (Option.some.inj hhead) (by decide)

section

variable {shape : SketchShape} {read : ReadWindow → AnnResult (List F32)} {ids : List UInt32}
  {parts : List WindowPart} {out : List F32}

theorem readParts_of_covers (m : SketchMatrix shape) (hserves : Serves m.row read)
    (harranged : Arranged ids parts) (hout : out.length = ids.length * shape.width)
    (hread : ∀ part ∈ parts, ∃ values, read part.1 = .ok values)
    (hcovers : ∀ part ∈ parts, PartCovers part) :
    readParts read shape.width parts out = .ok (ids.flatMap fun id => m.row id.toNat) := by
  refine (readParts_matrix_iff shape.width_pos m.row_length hserves harranged hout).mpr
    fun part hpart => ⟨⟨hread part hpart, fun row hrow => (hcovers part hpart row hrow).1⟩, ?_⟩
  intro row hrow
  rw [(hcovers part hpart row hrow).2]

theorem covers_of_readParts (hserves : Serves (tellingMatrix shape).row read)
    (harranged : Arranged ids parts) (hout : out.length = ids.length * shape.width)
    (hids : ∀ id ∈ ids, id.toNat < shape.rows)
    (h : readParts read shape.width parts out =
      .ok (ids.flatMap fun id => (tellingMatrix shape).row id.toNat)) :
    ∀ part ∈ parts, (∃ values, read part.1 = .ok values) ∧ PartCovers part := by
  intro part hpart
  obtain ⟨⟨hread, hin⟩, hrows⟩ := (readParts_matrix_iff shape.width_pos
    (tellingMatrix shape).row_length hserves harranged hout).mp h part hpart
  refine ⟨hread, fun row hrow => ⟨hin row hrow, ?_⟩⟩
  have hid := hids _ (List.mem_of_getElem? (harranged.ownId part hpart row hrow))
  apply (sourceRow_cases part.1 row).resolve_right
  intro hfar
  exact tellingMatrix_row_ne hid row.rowId.toNat_lt hfar (hrows row hrow)

end

/-! ## The windows of the planners -/

section

variable {ids : List UInt32} {sort : RowSort}

theorem arranged_of_flatMap {σ : Type} {runs : List (GreedyRun GatherRow σ)}
    (window : GreedyRun GatherRow σ → ReadWindow)
    (h : (runs.flatMap GreedyRun.items).Perm (gatherRows ids)) :
    Arranged ids (runs.map (windowPart window)) := by
  have hrows : (runs.map (windowPart window)).flatMap Prod.snd = runs.flatMap GreedyRun.items :=
    List.flatMap_map ..
  constructor
  · rw [hrows, ← gatherRows_positions]
    exact h.map _
  · intro part hpart row hrow
    obtain ⟨run, hrun, rfl⟩ := List.mem_map.mp hpart
    exact mem_gatherRows.mp (h.mem_iff.mp (List.mem_flatMap_of_mem hrun hrow))

variable (options : WindowedGatherOptions) (rowBytes : Nat)

theorem arranged_windowed : Arranged ids
    ((options.runs sort ids rowBytes).map (windowPart readWindow)) := by
  apply arranged_of_flatMap
  have hflat : (options.runs sort ids rowBytes).flatMap GreedyRun.items = options.arrange sort ids :=
    WindowedGatherOptions.flatMap_runs
  rw [hflat]
  exact options.arrange_perm sort ids

theorem covers_windowed_iff :
    (∀ part ∈ (options.runs sort ids rowBytes).map (windowPart readWindow), PartCovers part) ↔
      options.WindowsSpan ids rowBytes := by
  rw [options.windowsSpan_iff sort, List.forall_mem_map]
  exact forall₂_congr fun run _ => covers_iff_spans

/-- Windows that cover their rows do not reach past the rows of the ids. -/
theorem windowed_inside {rows : Nat} (hids : ∀ id ∈ ids, id.toNat < rows)
    {run : GreedyRun GatherRow WindowSpan} (hrun : run ∈ options.runs sort ids rowBytes)
    (hcovers : Covers run) :
    (readWindow run).startRow.toNat + (readWindow run).rowCount.toNat ≤ rows := by
  have hspans := covers_iff_spans.mp hcovers
  have hlast := hids _ (List.mem_of_getElem?
    (WindowedGatherOptions.mem_row_of_run hrun run.last_mem))
  have hle := UInt32.le_iff_toNat_le.mp
    (hspans.within run.last.rowId (List.mem_map_of_mem run.last_mem)).1
  rw [rowCount_of_spans hspans]
  rw [GreedyRun.map_first] at hle
  simp only [readWindow]
  omega

variable {σ : Type} {runs : List (GreedyRun GatherRow σ)}
  (hflat : runs.flatMap GreedyRun.items = sort.sort (gatherRows ids))
include hflat

theorem arranged_bounded : Arranged ids (runs.map (windowPart boundedWindow)) := by
  apply arranged_of_flatMap
  rw [hflat]
  exact sort.perm _

theorem covers_bounded_iff :
    (∀ part ∈ runs.map (windowPart boundedWindow), PartCovers part) ↔
      ∀ run ∈ runs, ¬ (boundedWindow run).WholeRange := by
  rw [List.forall_mem_map]
  refine forall₂_congr fun run hrun => ⟨fun hcovers hwhole => ?_, fun hwhole row hrow => ?_⟩
  · have hlt := (hcovers run.first List.mem_cons_self).1
    simp only [InWindow, windowPart] at hlt
    rw [hwhole.2] at hlt
    exact absurd hlt (UInt32.not_lt.mpr UInt32.zero_le)
  · obtain ⟨hlow, hhigh⟩ := between_of_sorted hflat hrun hrow
    refine ⟨?_, first_add_sub_iff.mpr hlow⟩
    have hcount := (rowCount_or_wholeRange run).resolve_right hwhole
    have hlow' := UInt32.le_iff_toNat_le.mp hlow
    have hhigh' := UInt32.le_iff_toNat_le.mp hhigh
    have hstart : (boundedWindow run).startRow = run.first.rowId := rfl
    simp only [InWindow, windowPart]
    rw [UInt32.lt_iff_toNat_lt, hcount, hstart, UInt32.toNat_sub_of_le _ _ hlow]
    omega

theorem bounded_inside {rows : Nat} (hids : ∀ id ∈ ids, id.toNat < rows)
    {run : GreedyRun GatherRow σ} (hrun : run ∈ runs) (hwhole : ¬ (boundedWindow run).WholeRange) :
    (boundedWindow run).startRow.toNat + (boundedWindow run).rowCount.toNat ≤ rows := by
  have hlast := hids _ (List.mem_of_getElem? (mem_row_of_sorted hflat hrun run.last_mem))
  have hle := UInt32.le_iff_toNat_le.mp (between_of_sorted hflat hrun run.last_mem).1
  rw [(rowCount_or_wholeRange run).resolve_right hwhole]
  simp only [boundedWindow]
  omega

end

/-! ## Windowed reads -/

section

variable {shape : SketchShape} (m : SketchMatrix shape) {ids : List UInt32} {sort : RowSort}
  {options : WindowedGatherOptions} {out : List F32}

/-- The parts of a windowed read. -/
abbrev windowedParts (shape : SketchShape) (sort : RowSort) (ids : List UInt32)
    (options : WindowedGatherOptions) : List WindowPart :=
  (options.runs sort ids (shape.width * F32_BYTES)).map (windowPart readWindow)

theorem readParts_windowed (hout : out.length = ids.length * shape.width)
    {read : ReadWindow → AnnResult (List F32)} (hserves : Serves m.row read) {rows : Nat}
    (hids : ∀ id ∈ ids, id.toNat < rows)
    (hread : ∀ window : ReadWindow, window.startRow.toNat + window.rowCount.toNat ≤ rows →
      ∃ values, read window = .ok values)
    (hspans : options.WindowsSpan ids (shape.width * F32_BYTES)) :
    readParts read shape.width (windowedParts shape sort ids options) out =
      .ok (ids.flatMap fun id => m.row id.toNat) := by
  have hcovers : ∀ part ∈ windowedParts shape sort ids options, PartCovers part :=
    (covers_windowed_iff options _).mpr hspans
  refine readParts_of_covers m hserves (arranged_windowed options _) hout (fun part hpart => ?_)
    hcovers
  have hpartCovers := hcovers part hpart
  obtain ⟨run, hrun, rfl⟩ := List.mem_map.mp hpart
  exact hread _ (windowed_inside options _ hids hrun hpartCovers)

theorem windowsSpan_of_readParts (hout : out.length = ids.length * shape.width)
    {read : ReadWindow → AnnResult (List F32)} (hserves : Serves (tellingMatrix shape).row read)
    (hids : ∀ id ∈ ids, id.toNat < shape.rows)
    (h : readParts read shape.width (windowedParts shape sort ids options) out =
      .ok (ids.flatMap fun id => (tellingMatrix shape).row id.toNat)) :
    options.WindowsSpan ids (shape.width * F32_BYTES) :=
  (covers_windowed_iff options _).mp fun part hpart =>
    (covers_of_readParts hserves (arranged_windowed options _) hout hids h part hpart).2

end

end ForgeANN
