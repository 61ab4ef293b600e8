-- SUMMARY: What each reader of sketch rows delivers, in memory, mapped, direct and through the ring.
import ForgeANN.Sketch.Windows

/-!
# Readers of sketch rows
-/
namespace ForgeANN

open Lib

/-! ## A read through the ring -/

/-- The bytes of the aligned range up to the end of the window. -/
def ringNeeds (rowBytes : Nat) (cfg : DirectIoConfig) (window : ReadWindow) : Nat :=
  HEADER_BYTES + window.startRow.toNat * rowBytes -
      (alignedRead HEADER_BYTES rowBytes cfg.effectiveAlignment window).1 +
    window.rowCount.toNat * rowBytes

/-- The length that is submitted, and what one read transfers, suffice for a window. -/
def RingFits (rowBytes : Nat) (cfg : DirectIoConfig) (window : ReadWindow) : Prop :=
  ringNeeds rowBytes cfg window ≤
    min ((alignedRead HEADER_BYTES rowBytes cfg.effectiveAlignment window).2 % 2 ^ 32) MAX_RW_COUNT

theorem alignedRead_le (window : ReadWindow) (rowBytes alignment : Nat) :
    (alignedRead HEADER_BYTES rowBytes alignment window).1 ≤
      HEADER_BYTES + window.startRow.toNat * rowBytes :=
  Nat.div_mul_le_self ..

/-- What is sliced out of the scratch buffer, if it has been filled that far. -/
theorem slice_scratch {file zeros : Bytes} {offset got lead len : Nat} (h : lead + len ≤ got) :
    ((file.readAt offset got ++ zeros).drop lead).take len = file.readAt (offset + lead) len := by
  rw [List.drop_append_of_le_length (by simp; omega), List.take_append_of_le_length (by simp; omega),
    ReadAt.take_drop_readAt h]

/-! ## The matrix -/

/-- The sizes of a sketch matrix whose file can be opened. -/
structure SketchShape where
  rows : Nat
  width : Nat
  width_pos : 0 < width
  width_lt : width < 2 ^ 64
  fits : HEADER_BYTES + rows * width * F32_BYTES < 2 ^ 64

/-- The sketches of some points. -/
structure SketchMatrix (shape : SketchShape) where
  data : List F32
  length : data.length = shape.rows * shape.width

namespace SketchMatrix

variable {shape : SketchShape} (m : SketchMatrix shape)

/-- `SketchStore::from_row_major`. -/
def store : SketchStore := ⟨m.data, shape.width⟩

/-- The bytes that `write_from_memory` writes. -/
def file : Bytes := toLe 8 shape.rows ++ toLe 8 shape.width ++ f32SliceAsBytes m.data

/-- A row; zeros past the last one. -/
def row (i : Nat) : List F32 :=
  (List.range shape.width).map fun k => m.data.getD (i * shape.width + k) F32.zero

/-- Some rows in sequence. -/
def rowsFrom (start count : Nat) : List F32 := (List.range count).flatMap fun k => m.row (start + k)

@[simp] theorem row_length (i : Nat) : (m.row i).length = shape.width := by
  rw [row, List.length_map, List.length_range]

theorem rowsFrom_eq_map (start count : Nat) : m.rowsFrom start count =
    (List.range (count * shape.width)).map fun j =>
      m.data.getD (start * shape.width + j) F32.zero := by
  have hlen : ((List.range (count * shape.width)).map fun j =>
      m.data.getD (start * shape.width + j) F32.zero).length = count * shape.width := by
    rw [List.length_map, List.length_range]
  rw [← flatMap_slot hlen]
  apply List.flatMap_congr
  intro k hk
  have hle := slot_bound shape.width (List.mem_range.mp hk)
  apply List.ext_getElem?
  intro i
  rw [slot_getElem?, row, List.getElem?_map, List.getElem?_map]
  by_cases hi : i < shape.width
  · rw [if_pos hi, List.getElem?_range hi, List.getElem?_range (by omega)]
    simp only [Option.map_some, Nat.add_mul, Nat.add_assoc]
  · rw [if_neg hi, List.getElem?_eq_none (by simpa using hi)]
    rfl

theorem rowsFrom_length (start count : Nat) :
    (m.rowsFrom start count).length = count * shape.width := by
  rw [rowsFrom_eq_map, List.length_map, List.length_range]

theorem slice_eq {start count : Nat} (h : start + count ≤ shape.rows) :
    (m.data.drop (start * shape.width)).take (count * shape.width) = m.rowsFrom start count := by
  have hle := Nat.mul_le_mul_right shape.width h
  rw [Nat.add_mul, ← m.length] at hle
  rw [rowsFrom_eq_map]
  apply List.ext_getElem?
  intro j
  rw [List.getElem?_take, List.getElem?_drop, List.getElem?_map]
  split_ifs with hj
  · rw [List.getElem?_range hj, List.getElem?_eq_getElem (by omega)]
    simp only [Option.map_some, List.getD_eq_getElem?_getD]
    rw [List.getElem?_eq_getElem (by omega), Option.getD_some]
  · rw [List.getElem?_eq_none (by simpa using hj)]
    rfl

/-! ## The file -/

theorem file_length : m.file.length = HEADER_BYTES + shape.rows * shape.width * F32_BYTES := by
  simp only [file, List.length_append, toLe_length, f32SliceAsBytes_length, m.length]
  rfl

theorem at'_zeros (z b : Nat) : (f32SliceAsBytes (List.replicate z F32.zero)).at' b = 0 := by
  have hzero : ∀ byte ∈ f32SliceAsBytes (List.replicate z F32.zero), byte = 0 := by
    intro byte hbyte
    obtain ⟨v, hv, hbyte⟩ := List.mem_flatMap.mp hbyte
    rw [List.eq_of_mem_replicate hv] at hbyte
    have hbytes : toLe 4 F32.zero.bits.toNat = [0, 0, 0, 0] := rfl
    rw [hbytes] at hbyte
    simpa using hbyte
  by_cases hb : b < (f32SliceAsBytes (List.replicate z F32.zero)).length
  · rw [Bytes.at', List.getD_eq_getElem?_getD, List.getElem?_eq_getElem hb, Option.getD_some]
    exact hzero _ (List.getElem_mem hb)
  · exact Bytes.at'_of_le (Nat.le_of_not_lt hb)

/-- The file behind its header, and zeros behind the file. -/
theorem readAt_body (z off len : Nat) : m.file.readAt (HEADER_BYTES + off) len =
    (f32SliceAsBytes (m.data ++ List.replicate z F32.zero)).readAt off len := by
  have hheader : (toLe 8 shape.rows ++ toLe 8 shape.width).length = HEADER_BYTES := by
    simp [HEADER_BYTES]
  apply Bytes.ext_at'
  · simp
  · intro i hi
    rw [Bytes.readAt_length] at hi
    rw [Bytes.at'_readAt hi, Bytes.at'_readAt hi, file, Bytes.at'_append, hheader,
      if_neg (by omega), f32SliceAsBytes_append, Bytes.at'_append, at'_zeros]
    have hoff : HEADER_BYTES + off + i - HEADER_BYTES = off + i := by omega
    rw [hoff]
    split_ifs with hin
    · rfl
    · exact Bytes.at'_of_le (Nat.le_of_not_lt hin)

/-- What lies in the file where some rows are. -/
theorem f32sOfBytes_file (start count : Nat) :
    f32sOfBytes (m.file.readAt (HEADER_BYTES + start * (shape.width * F32_BYTES))
      (count * (shape.width * F32_BYTES))) = m.rowsFrom start count := by
  have hoff : start * (shape.width * F32_BYTES) = start * shape.width * 4 :=
    (Nat.mul_assoc ..).symm
  have hlen : count * (shape.width * F32_BYTES) = count * shape.width * 4 :=
    (Nat.mul_assoc ..).symm
  rw [hoff, hlen, m.readAt_body (start * shape.width + count * shape.width),
    f32sOfBytes_readAt (by rw [List.length_append, List.length_replicate]; omega), rowsFrom_eq_map]
  apply List.ext_getElem?
  intro j
  rw [List.getElem?_take, List.getElem?_drop, List.getElem?_map]
  by_cases hj : j < count * shape.width
  · rw [if_pos hj, List.getElem?_range hj, List.getElem?_append]
    simp only [Option.map_some, List.getD_eq_getElem?_getD]
    split_ifs with hin
    · rw [List.getElem?_eq_getElem hin, Option.getD_some]
    · rw [List.getElem?_replicate, if_pos (by omega), List.getElem?_eq_none (by omega),
        Option.getD_none]
  · rw [if_neg hj, List.getElem?_eq_none (by simpa using hj)]
    rfl

/-- How the file is opened. -/
def backing (cfg : DirectIoConfig) (reads : ReadAt m.file) (ring : RingReads m.file) :
    SketchBacking m.file := if cfg.enabled then .direct cfg reads ring else .mmap

def disk (path : String) (cfg : DirectIoConfig) (reads : ReadAt m.file) (ring : RingReads m.file) :
    DiskSketchStore := ⟨path, m.file, m.backing cfg reads ring, shape.rows, shape.width⟩

theorem openWithConfig_file (path : String) (cfg : DirectIoConfig) (reads : ReadAt m.file)
    (ring : RingReads m.file) : DiskSketchStore.openWithConfig path m.file cfg reads ring =
      .ok (m.disk path cfg reads ring) := by
  have hrowsBound : shape.rows < 256 ^ 8 := by
    have hfits := shape.fits
    have hle := Nat.le_mul_of_pos_right shape.rows shape.width_pos
    rw [F32_BYTES] at hfits
    omega
  have hwidthBound : shape.width < 256 ^ 8 := shape.width_lt
  have hrows : ofLe (m.file.readAt 0 8) = shape.rows := by
    rw [file, List.append_assoc, Bytes.readAt_eq_take_drop (by simp), List.drop_zero,
      List.take_left' (toLe_length 8 _), ofLe_toLe, Nat.mod_eq_of_lt hrowsBound]
  have hwidth : ofLe (m.file.readAt 8 8) = shape.width := by
    rw [file, List.append_assoc, Bytes.readAt_eq_take_drop (by simp; omega),
      List.drop_left' (toLe_length 8 _), List.take_left' (toLe_length 8 _), ofLe_toLe,
      Nat.mod_eq_of_lt hwidthBound]
  have hlen := m.file_length
  unfold DiskSketchStore.openWithConfig
  simp only [hrows, hwidth]
  rw [if_neg (by omega), if_neg (Nat.not_le_of_lt shape.fits), if_neg (by omega)]
  rfl

/-! ## What the readers deliver -/

/-- The first rows, in memory. -/
def prefixStore (prefixRows : Nat) : SketchStore := ⟨m.rowsFrom 0 prefixRows, shape.width⟩

theorem store_eq : m.store = m.prefixStore shape.rows := by
  have hall : (m.data.drop (0 * shape.width)).take (shape.rows * shape.width) =
      m.rowsFrom 0 shape.rows := m.slice_eq (Nat.le_of_eq (Nat.zero_add shape.rows))
  rw [Nat.zero_mul, List.drop_zero, List.take_of_length_le (Nat.le_of_eq m.length)] at hall
  rw [store, prefixStore, ← hall]

theorem prefixStore_rows (prefixRows : Nat) : (m.prefixStore prefixRows).rows = prefixRows := by
  rw [SketchStore.rows, prefixStore, if_neg (Nat.ne_of_gt shape.width_pos), rowsFrom_length,
    Nat.mul_div_cancel _ shape.width_pos]

theorem prefixStore_slice (prefixRows start count : Nat) :
    (m.prefixStore prefixRows).slice start count =
      if start + count ≤ prefixRows then .ok (m.rowsFrom start count)
      else .error (.panic "range end index out of range for slice") := by
  have hiff : start * shape.width + count * shape.width ≤ prefixRows * shape.width ↔
      start + count ≤ prefixRows := by
    rw [← Nat.add_mul]
    exact Nat.mul_le_mul_right_iff shape.width_pos
  simp only [SketchStore.slice, prefixStore, rowsFrom_length, hiff]
  split_ifs with hle
  · congr 1
    have hbound := hiff.mpr hle
    rw [rowsFrom_eq_map, rowsFrom_eq_map]
    apply List.ext_getElem?
    intro j
    rw [List.getElem?_take, List.getElem?_drop, List.getElem?_map, List.getElem?_map]
    split_ifs with hj
    · rw [List.getElem?_range hj, List.getElem?_range (by omega), Nat.zero_mul]
      simp only [Option.map_some, Nat.zero_add]
    · rw [List.getElem?_eq_none (by simpa using hj)]
      rfl
  · rfl

theorem serves_prefixStore (prefixRows : Nat) :
    Serves m.row (readingWindow (m.prefixStore prefixRows).slice) := by
  intro window values hread
  rw [readingWindow, prefixStore_slice] at hread
  split_ifs at hread
  exact (Except.ok.inj hread).symm

section

variable (path : String) (cfg : DirectIoConfig) (reads : ReadAt m.file) (ring : RingReads m.file)

@[simp] theorem disk_width : (m.disk path cfg reads ring).width = shape.width := rfl

@[simp] theorem disk_rows : (m.disk path cfg reads ring).rows = shape.rows := rfl

@[simp] theorem disk_rowBytes :
    (m.disk path cfg reads ring).rowBytes = shape.width * F32_BYTES := rfl

/-- A mapping fails past its end; a direct read delivers zeros there. -/
theorem readBytes_rows (outside : AnnError) (start count : Nat) :
    (m.disk path cfg reads ring).readBytes outside
        (HEADER_BYTES + start * (shape.width * F32_BYTES)) (count * (shape.width * F32_BYTES)) =
      if cfg.enabled = true ∨ start + count ≤ shape.rows then .ok (m.rowsFrom start count)
      else .error outside := by
  unfold DiskSketchStore.readBytes
  simp only [disk, backing]
  by_cases hcfg : cfg.enabled = true
  · simp only [hcfg, if_true, true_or, ReadAt.readExactAt_eq, ok_bind, f32sOfBytes_file]
  · have hiff : HEADER_BYTES + start * (shape.width * F32_BYTES) +
        count * (shape.width * F32_BYTES) ≤ m.file.length ↔ start + count ≤ shape.rows := by
      rw [file_length, Nat.add_assoc, ← Nat.add_mul, Nat.add_le_add_iff_left, Nat.mul_assoc]
      exact Nat.mul_le_mul_right_iff (Nat.mul_pos shape.width_pos (Nat.succ_pos 3))
    rw [Bool.not_eq_true] at hcfg
    simp only [hcfg, Bool.false_eq_true, if_false, false_or, hiff, f32sOfBytes_file]

theorem readSketchRangeInto_eq (start count : Nat) :
    (m.disk path cfg reads ring).readSketchRangeInto start count =
      if cfg.enabled = true ∨ start + count ≤ shape.rows then .ok (m.rowsFrom start count)
      else .error (.panic "range end index out of range for slice") :=
  m.readBytes_rows path cfg reads ring _ start count

theorem serves_disk :
    Serves m.row (readingWindow (m.disk path cfg reads ring).readSketchRangeInto) := by
  intro window values hread
  rw [readingWindow, readSketchRangeInto_eq] at hread
  split_ifs at hread
  exact (Except.ok.inj hread).symm

/-! ### The ring -/

variable (window : ReadWindow)

/-- A completed read is either too short, or the window is there. -/
theorem ringRead_eq : (m.disk path cfg reads ring).ringRead cfg ring window =
    if min (min ((alignedRead HEADER_BYTES (shape.width * F32_BYTES) cfg.effectiveAlignment
          window).2 % 2 ^ 32) MAX_RW_COUNT)
        (m.file.length - (alignedRead HEADER_BYTES (shape.width * F32_BYTES) cfg.effectiveAlignment
          window).1) < ringNeeds (shape.width * F32_BYTES) cfg window then
      .error (.io .unexpectedEof)
    else .ok (m.rowsFrom window.startRow.toNat window.rowCount.toNat) := by
  have hle := alignedRead_le window (shape.width * F32_BYTES) cfg.effectiveAlignment
  unfold DiskSketchStore.ringRead
  simp only [ring.count_eq, disk_rowBytes]
  split_ifs with hshort hneeds hneeds
  · rfl
  · exact absurd hshort hneeds
  · exact absurd hneeds hshort
  · rw [slice_scratch (Nat.le_of_not_lt hshort), Nat.add_sub_cancel' hle]
    exact congrArg Except.ok (m.f32sOfBytes_file _ _)

theorem serves_ring : Serves m.row ((m.disk path cfg reads ring).ringRead cfg ring) := by
  intro window values hread
  rw [ringRead_eq] at hread
  split_ifs at hread
  exact (Except.ok.inj hread).symm

/-- A window of the file is read exactly if it fits. -/
theorem ringRead_ok_iff (hin : window.startRow.toNat + window.rowCount.toNat ≤ shape.rows) :
    (∃ values, (m.disk path cfg reads ring).ringRead cfg ring window = .ok values) ↔
      RingFits (shape.width * F32_BYTES) cfg window := by
  have hle := alignedRead_le window (shape.width * F32_BYTES) cfg.effectiveAlignment
  have hend : ringNeeds (shape.width * F32_BYTES) cfg window ≤ m.file.length -
      (alignedRead HEADER_BYTES (shape.width * F32_BYTES) cfg.effectiveAlignment window).1 := by
    have hrows := Nat.mul_le_mul_right (shape.width * F32_BYTES) hin
    rw [Nat.add_mul, ← Nat.mul_assoc shape.rows] at hrows
    rw [ringNeeds, file_length]
    omega
  rw [ringRead_eq, RingFits]
  split_ifs with hshort
  · simp only [exists_false, false_iff]
    omega
  · exact iff_of_true ⟨_, rfl⟩ (by omega)

end

end SketchMatrix

end ForgeANN
