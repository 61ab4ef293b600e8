-- SUMMARY: Datasets in memory and mapped from a file, and the sizes for which both give the vectors of the file.
import ForgeANN.Common.Chunks
import ForgeANN.Common.FloatArith
import ForgeANN.Dataset.DataFile
import ForgeANN.Lib.Slots

/-!
# In-memory datasets

The buffer of a dataset is sized through an `f32`, and vectors are found in it by
its length. Where the number of values takes more than 24 bits the buffer may so
be too short for the last vector, or long enough for one too many. A mapped file
has no such buffer, but its byte offsets can wrap.
-/
namespace ForgeANN

open Lib

/-- `(m as f32) as usize`: the nearest value with 24 significant bits, and of two the even one. -/
def f32OfUsize (m : Nat) : Nat :=
  if m < 2 ^ 24 then m
  else
    let ulp := 2 ^ (Nat.log2 m - 23)
    if 2 * (m % ulp) < ulp ∨ (2 * (m % ulp) = ulp ∧ m / ulp % 2 = 0) then m / ulp * ulp
    else (m / ulp + 1) * ulp

/-- `usize` arithmetic wraps. -/
def wrap (n : Nat) : Nat := n % 2 ^ 64

structure InmemDataset where
  data : List F32
  mmap : Option Bytes
  numPoints : Nat
  numActivePts : Nat
  capacity : Nat
  dim : Nat
  isMemoryMapped : Bool
deriving DecidableEq, Repr

/-- `AlignedBoxWithSlice::new` for values aligned to 64 bytes: a layout ends at most at `isize::MAX`. -/
def alignedBoxWithSlice (capacity : Nat) : AnnResult (List F32) :=
  if capacity = 0 then .ok []
  else if 2 ^ 64 ≤ capacity * 4 then .error (.panic "called Option::unwrap() on a None value")
  else if 2 ^ 63 - 64 < capacity * 4 then .error (.panic "called Result::unwrap() on an Err value")
  else .ok (List.replicate capacity F32.zero)

/-- The range of a row that lies beyond its values. -/
def padRow (data : List F32) (start stop : Nat) : AnnResult (List F32) :=
  if stop ≤ start then .ok data
  else if data.length < stop then .error (.panic "index out of bounds")
  else .ok (data.take start ++ List.replicate (stop - start) F32.zero ++ data.drop stop)

/-- The loop of `copy_aligned_data_from_file` from row `i` on. -/
def copyRows (dim roundedDim offset : Nat) : Nat → Nat → BufReader → List F32 → AnnResult (List F32)
  | 0, _, _, data => .ok data
  | rows + 1, i, reader, data =>
      let start := offset + i * roundedDim
      if data.length < start + dim then .error (.panic "range end index out of range for slice")
      else do
        let (buf, reader) ← reader.readExact (dim * 4)
        let data := data.take start ++ f32sOfBytes buf ++ data.drop (start + dim)
        let data ← padRow data (i * roundedDim + dim) (i * roundedDim + roundedDim)
        copyRows dim roundedDim offset rows (i + 1) reader data

def copyAlignedDataFromFile (binFile : Bytes) (data : List F32) (roundedDim ptsOffset : Nat) :
    AnnResult (List F32) := do
  let (npts, reader) ← readI32AsUsize ⟨binFile, 0⟩
  let (dim, reader) ← readI32AsUsize reader
  copyRows dim roundedDim (ptsOffset * roundedDim) npts 0 reader data

/-- What a vertex borrows. A mapping may also hand out memory that is not its own. -/
inductive VertexData where
  | values (l : List F32)
  | outside
deriving DecidableEq, Repr

namespace InmemDataset

/-- With an index growth factor of 1. -/
def new (numPoints dim : Nat) : AnnResult InmemDataset := do
  let capacity := f32OfUsize (wrap (numPoints * dim))
  let data ← alignedBoxWithSlice capacity
  .ok {
    data
    mmap := none
    numPoints
    numActivePts := numPoints
    capacity
    dim
    isMemoryMapped := false }

def newMemoryMapped (numPoints dim : Nat) : InmemDataset where
  data := []
  mmap := none
  numPoints
  numActivePts := numPoints
  capacity := 0
  dim
  isMemoryMapped := false

variable (dataset : InmemDataset)

def setMemoryMapped (file : Bytes) : AnnResult InmemDataset :=
  let dataSize := wrap (file.length + 2 ^ 64 - 8)
  if wrap (dataset.dim * 4) = 0 then .error (.panic "attempt to divide by zero")
  else
    let numPoints := dataSize / wrap (dataset.dim * 4)
    if file.length < 8 then .error (.index "File too small for header")
    else
      let fileNumPoints := (u32OfLe (file.take 4)).toNat
      let fileDim := (u32OfLe ((file.drop 4).take 4)).toNat
      if fileDim ≠ dataset.dim then
        .error (.index s!"Dimension mismatch: expected {dataset.dim}, got {fileDim}")
      else if fileNumPoints ≠ numPoints then
        .error (.index s!"Point count mismatch: expected {numPoints}, got {fileNumPoints}")
      else .ok { dataset with
        mmap := some file
        numPoints
        numActivePts := numPoints
        capacity := wrap (numPoints * dataset.dim)
        isMemoryMapped := true }

def buildFromFile (file : Bytes) (numPointsToLoad : Nat) : AnnResult InmemDataset :=
  if dataset.isMemoryMapped then .ok { dataset with numActivePts := numPointsToLoad }
  else do
    let data ← copyAlignedDataFromFile file dataset.data dataset.dim 0
    .ok { dataset with data, numActivePts := numPointsToLoad }

def getVertex (id : UInt32) : AnnResult VertexData :=
  let start := wrap (id.toNat * dataset.dim)
  let stop := wrap (start + dataset.dim)
  if dataset.isMemoryMapped then
    match dataset.mmap with
    | some mmap =>
        let dataStart := wrap (8 + start * 4)
        let dataEnd := wrap (8 + stop * 4)
        if mmap.length < dataEnd then .error (.index s!"Invalid vertex id {id}: out of bounds")
        else if dataStart + dataset.dim * 4 ≤ mmap.length then
          .ok (.values (f32sOfBytes (mmap.readAt dataStart (dataset.dim * 4))))
        else .ok .outside
    | none => .error (.index "Memory mapping not available")
  else if stop ≤ dataset.data.length then
    if stop < start then .error (.panic "slice index starts after its end")
    else .ok (.values ((dataset.data.drop start).take (stop - start)))
  else .error (.index s!"Invalid vertex id {id}.")

end InmemDataset

/-- A dataset loaded into memory. -/
def loadDataset (numPoints dim : Nat) (file : Bytes) : AnnResult InmemDataset := do
  let dataset ← InmemDataset.new numPoints dim
  dataset.buildFromFile file numPoints

/-- A dataset mapped from its file. -/
def mapDataset (numPoints dim : Nat) (file : Bytes) : AnnResult InmemDataset :=
  (InmemDataset.newMemoryMapped numPoints dim).setMemoryMapped file

/-- The dataset is there and gives the vectors of `values`, and an error past the last one. -/
def Gives (numPoints dim : Nat) (values : List F32) (dataset : AnnResult InmemDataset) : Prop :=
  ∃ ds, dataset = .ok ds ∧
    (∀ id : UInt32, id.toNat < numPoints → ds.getVertex id = .ok (.values (slot dim values id.toNat))) ∧
    ∀ id : UInt32, numPoints ≤ id.toNat → ∃ err, ds.getVertex id = .error (.index err)

/-! ## The rounded capacity -/

theorem f32OfUsize_of_lt {m : Nat} (h : m < 2 ^ 24) : f32OfUsize m = m := if_pos h

/-- Rounding adds at most one part in `2 ^ 24`. -/
theorem f32OfUsize_le (m : Nat) : f32OfUsize m ≤ m + m / 2 ^ 24 := by
  unfold f32OfUsize
  split
  · exact Nat.le_add_right _ _
  case isFalse hm =>
    have hne : m ≠ 0 := by omega
    have hlog : 24 ≤ Nat.log2 m := (Nat.le_log2 hne).mpr (by omega)
    obtain ⟨e, he⟩ : ∃ e, Nat.log2 m = e + 24 := ⟨Nat.log2 m - 24, by omega⟩
    have hpow : 2 ^ (Nat.log2 m - 23) = 2 * 2 ^ e := by
      rw [he, show e + 24 - 23 = e + 1 by omega, Nat.pow_succ, Nat.mul_comm]
    have hhalf : 2 ^ e ≤ m / 2 ^ 24 := by
      rw [Nat.le_div_iff_mul_le (by decide), ← Nat.pow_add, ← he]
      exact (Nat.le_log2 hne).mp (Nat.le_refl _)
    have hdiv := Nat.div_add_mod m (2 ^ (Nat.log2 m - 23))
    rw [Nat.mul_comm] at hdiv
    simp only
    split
    · omega
    case isFalse hup =>
      rw [Nat.add_mul, Nat.one_mul]
      omega

/-- Up to `2 ^ 24` vectors, the buffer is not long enough for one more. -/
theorem f32OfUsize_lt_next {n dim : Nat} (hn : n < 2 ^ 24) (hdim : 0 < dim) :
    f32OfUsize (n * dim) < (n + 1) * dim := by
  have hle := f32OfUsize_le (n * dim)
  have hdiv : n * dim / 2 ^ 24 < dim := by
    rw [Nat.div_lt_iff_lt_mul (by decide), Nat.mul_comm]
    exact Nat.mul_lt_mul_of_pos_left hn hdim
  rw [Nat.add_mul, Nat.one_mul]
  omega

theorem alignedBoxWithSlice_ok {capacity : Nat} (h : capacity * 4 ≤ 2 ^ 63 - 64) :
    alignedBoxWithSlice capacity = .ok (List.replicate capacity F32.zero) := by
  rw [alignedBoxWithSlice]
  split
  case isTrue h0 => rw [h0, List.replicate_zero]
  case isFalse => rw [if_neg (by omega), if_neg (by omega)]

theorem alignedBoxWithSlice_error {capacity : Nat} (h : ¬ capacity * 4 ≤ 2 ^ 63 - 64) :
    ∃ err, alignedBoxWithSlice capacity = .error err := by
  rw [alignedBoxWithSlice, if_neg (by omega)]
  split
  · exact ⟨_, rfl⟩
  · exact ⟨_, if_pos (by omega)⟩

/-! ## Loading into memory -/

section

variable {n dim capacity : Nat} {values : List F32}

theorem padRow_self (data : List F32) (stop : Nat) : padRow data stop stop = .ok data :=
  if_pos (Nat.le_refl _)

/-- The buffer after `i` rows. -/
def filledRows (capacity dim : Nat) (values : List F32) (i : Nat) : List F32 :=
  values.take (i * dim) ++ List.replicate (capacity - i * dim) F32.zero

theorem filledRows_length {i : Nat} (hlen : values.length = n * dim) (hi : i ≤ n)
    (hfit : i * dim ≤ capacity) : (filledRows capacity dim values i).length = capacity := by
  have hle := Nat.mul_le_mul_right dim hi
  rw [filledRows, List.length_append, List.length_take, List.length_replicate]
  omega

/-- The next row goes behind those that are there. -/
theorem filledRows_succ {i : Nat} (hlen : values.length = n * dim) (hi : i < n) :
    (filledRows capacity dim values i).take (i * dim) ++ slot dim values i ++
      (filledRows capacity dim values i).drop (i * dim + dim) = filledRows capacity dim values (i + 1) := by
  have hle := slot_bound dim hi
  have htake : (values.take (i * dim)).length = i * dim := List.length_take_of_le (by omega)
  rw [filledRows, filledRows, List.take_append_of_le_length (Nat.le_of_eq htake.symm),
    List.take_of_length_le (Nat.le_of_eq htake), ← List.drop_drop,
    List.drop_left' htake, List.drop_replicate, slot, Nat.succ_mul, List.take_add]
  congr 2
  omega

theorem rest_rows {i : Nat} (values : List F32) :
    f32SliceAsBytes (values.drop (i * dim)) =
      f32SliceAsBytes (slot dim values i) ++ f32SliceAsBytes (values.drop ((i + 1) * dim)) := by
  rw [← f32SliceAsBytes_append, slot, Nat.succ_mul, ← List.drop_drop, List.take_append_drop]

/-- A row that fits is read into its place. -/
theorem copyRows_row (rows : Nat) {i : Nat} {r : BufReader} (hdim : 0 < dim) (hlen : values.length = n * dim)
    (hi : i < n) (hfit : i * dim + dim ≤ capacity)
    (hrest : r.rest = f32SliceAsBytes (values.drop (i * dim))) :
    copyRows dim dim 0 (rows + 1) i r (filledRows capacity dim values i) =
      copyRows dim dim 0 rows (i + 1) (r.advance (dim * 4)) (filledRows capacity dim values (i + 1)) ∧
    (r.advance (dim * 4)).rest = f32SliceAsBytes (values.drop ((i + 1) * dim)) := by
  have hslot : (f32SliceAsBytes (slot dim values i)).length = dim * 4 := by
    rw [f32SliceAsBytes_length, slot_length hlen hi]
  rw [rest_rows] at hrest
  have hne : f32SliceAsBytes (slot dim values i) ≠ [] :=
    List.ne_nil_of_length_pos (by rw [hslot]; omega)
  have hread := BufReader.readExact_append hrest hne
  have hnext := BufReader.rest_advance hrest
  rw [hslot] at hread hnext
  refine ⟨?_, hnext⟩
  have hroom := filledRows_length hlen (Nat.le_of_lt hi) (by omega : i * dim ≤ capacity)
  simp only [copyRows, Nat.zero_add]
  rw [if_neg (by rw [hroom]; omega), hread]
  simp only [bind, Except.bind, padRow_self]
  rw [f32sOfBytes_f32SliceAsBytes, filledRows_succ hlen hi]

theorem copyRows_fits {rows i : Nat} {r : BufReader} (hdim : 0 < dim)
    (hlen : values.length = n * dim) (hfit : n * dim ≤ capacity) (hrows : i + rows = n)
    (hrest : r.rest = f32SliceAsBytes (values.drop (i * dim))) :
    copyRows dim dim 0 rows i r (filledRows capacity dim values i) =
      .ok (filledRows capacity dim values n) := by
  induction rows generalizing i r with
  | zero =>
      obtain rfl : i = n := hrows
      rfl
  | succ rows ih =>
      have hi : i < n := by omega
      obtain ⟨hrow, hnext⟩ := copyRows_row rows hdim hlen hi
        (Nat.le_trans (slot_bound dim hi) hfit) hrest
      rw [hrow]
      exact ih (by omega) hnext

/-- Some row does not fit, and the slice of its place is out of range. -/
theorem copyRows_overflows {rows i : Nat} {r : BufReader} (hdim : 0 < dim)
    (hlen : values.length = n * dim) (hfit : capacity < n * dim) (hi : i * dim ≤ capacity)
    (hrows : i + rows = n) (hrest : r.rest = f32SliceAsBytes (values.drop (i * dim))) :
    ∃ err, copyRows dim dim 0 rows i r (filledRows capacity dim values i) = .error err := by
  induction rows generalizing i r with
  | zero =>
      obtain rfl : i = n := hrows
      omega
  | succ rows ih =>
      have hin : i < n := by omega
      by_cases hroom : i * dim + dim ≤ capacity
      · obtain ⟨hrow, hnext⟩ := copyRows_row rows hdim hlen hin hroom hrest
        rw [hrow]
        exact ih (by rwa [Nat.succ_mul]) (by omega) hnext
      · have hlength := filledRows_length hlen (Nat.le_of_lt hin) hi
        refine ⟨.panic "range end index out of range for slice", ?_⟩
        simp only [copyRows, Nat.zero_add]
        rw [if_pos (by rw [hlength]; omega)]

/-- The dataset after loading. -/
def loadedDataset (n dim : Nat) (values : List F32) : InmemDataset where
  data := filledRows (f32OfUsize (n * dim)) dim values n
  mmap := none
  numPoints := n
  numActivePts := n
  capacity := f32OfUsize (n * dim)
  dim
  isMemoryMapped := false

theorem mul_lt_of_lt {a b : Nat} (ha : a < 2 ^ 32) (hb : b < 2 ^ 31) : a * b < 2 ^ 63 :=
  Nat.lt_of_le_of_lt (Nat.mul_le_mul (Nat.le_sub_one_of_lt ha) (Nat.le_sub_one_of_lt hb)) (by decide)

theorem wrap_of_lt {m : Nat} (h : m < 2 ^ 64) : wrap m = m := Nat.mod_eq_of_lt h

/-- A row of a matrix whose size does not wrap. -/
theorem indexRange_slot {α : Type} {l : List α} {rows width i : Nat} (hlen : l.length = rows * width)
    (hi : i < rows) (hsize : rows * width < 2 ^ 64) :
    indexRange l (wrap (i * width)) (wrap ((i + 1) * width)) = .ok (slot width l i) := by
  have hle := slot_bound width hi
  have hsucc : (i + 1) * width = i * width + width := Nat.succ_mul i width
  rw [wrap_of_lt (by omega), wrap_of_lt (by omega), indexRange, if_neg (by omega), if_neg (by omega),
    slot, List.drop_take, hsucc, Nat.add_sub_cancel_left]

theorem copyAligned_eq (hn : n < 2 ^ 31) (hd : dim < 2 ^ 31) (values data : List F32) :
    copyAlignedDataFromFile (dataFile n dim values) data dim 0 =
      copyRows dim dim 0 n 0 ⟨dataFile n dim values, 8⟩ data := by
  have hhead : (BufReader.mk (dataFile n dim values) 0).rest =
      leU32 (UInt32.ofNat n) ++ (leU32 (UInt32.ofNat dim) ++ f32SliceAsBytes values) :=
    List.append_assoc _ _ _
  obtain ⟨hread, hrest⟩ := readI32AsUsize_of_rest hn hhead
  obtain ⟨hread', -⟩ := readI32AsUsize_of_rest hd hrest
  rw [copyAlignedDataFromFile, hread]
  simp only [bind, Except.bind]
  rw [hread', Nat.zero_mul]
  rfl

theorem filledRows_zero (capacity dim : Nat) (values : List F32) :
    filledRows capacity dim values 0 = List.replicate capacity F32.zero := by
  simp [filledRows]

theorem loadDataset_eq (hn : n < 2 ^ 31) (hdim : 0 < dim) (hd : dim < 2 ^ 31)
    (hlen : values.length = n * dim) (halloc : f32OfUsize (n * dim) * 4 ≤ 2 ^ 63 - 64)
    (hfit : n * dim ≤ f32OfUsize (n * dim)) :
    loadDataset n dim (dataFile n dim values) = .ok (loadedDataset n dim values) := by
  have hmul := mul_lt_of_lt (Nat.lt_trans hn (by decide)) hd
  have hcopy := copyRows_fits hdim hlen hfit (Nat.zero_add n)
    (by rw [Nat.zero_mul, List.drop_zero]; exact rest_dataFile n dim values)
  rw [filledRows_zero] at hcopy
  simp only [loadDataset, InmemDataset.new, wrap_of_lt (Nat.lt_trans hmul (by decide : 2 ^ 63 < 2 ^ 64)),
    alignedBoxWithSlice_ok halloc, bind, Except.bind, InmemDataset.buildFromFile, Bool.false_eq_true,
    if_false, copyAligned_eq hn hd, hcopy]
  rfl

theorem loadDataset_error (hn : n < 2 ^ 31) (hdim : 0 < dim) (hd : dim < 2 ^ 31)
    (hlen : values.length = n * dim)
    (hbad : ¬ (f32OfUsize (n * dim) * 4 ≤ 2 ^ 63 - 64 ∧ n * dim ≤ f32OfUsize (n * dim))) :
    ∃ err, loadDataset n dim (dataFile n dim values) = .error err := by
  have hmul := mul_lt_of_lt (Nat.lt_trans hn (by decide)) hd
  by_cases halloc : f32OfUsize (n * dim) * 4 ≤ 2 ^ 63 - 64
  · have hfit : f32OfUsize (n * dim) < n * dim := Nat.lt_of_not_le fun h => hbad ⟨halloc, h⟩
    obtain ⟨err, hcopy⟩ := copyRows_overflows hdim hlen hfit (by omega) (Nat.zero_add n)
      (by rw [Nat.zero_mul, List.drop_zero]; exact rest_dataFile n dim values)
    rw [filledRows_zero] at hcopy
    refine ⟨err, ?_⟩
    simp only [loadDataset, InmemDataset.new,
      wrap_of_lt (Nat.lt_trans hmul (by decide : 2 ^ 63 < 2 ^ 64)), alignedBoxWithSlice_ok halloc, bind,
      Except.bind, InmemDataset.buildFromFile, Bool.false_eq_true, if_false, copyAligned_eq hn hd, hcopy]
  · obtain ⟨err, herr⟩ := alignedBoxWithSlice_error halloc
    refine ⟨err, ?_⟩
    simp only [loadDataset, InmemDataset.new,
      wrap_of_lt (Nat.lt_trans hmul (by decide : 2 ^ 63 < 2 ^ 64)), herr, bind, Except.bind]

/-- Offsets of a vertex do not wrap as numbers of values. -/
theorem stop_eq (hd : dim < 2 ^ 31) (id : UInt32) :
    wrap (id.toNat * dim) = id.toNat * dim ∧
      wrap (id.toNat * dim + dim) = (id.toNat + 1) * dim := by
  have hid := id.toNat_lt
  have hmul := mul_lt_of_lt hid hd
  have hstart : wrap (id.toNat * dim) = id.toNat * dim := wrap_of_lt (Nat.lt_trans hmul (by decide))
  refine ⟨hstart, ?_⟩
  rw [Nat.add_mul, Nat.one_mul]
  exact wrap_of_lt (by omega)

/-- A loaded dataset gives the vectors that end within its buffer. -/
theorem getVertex_loaded (hd : dim < 2 ^ 31) (hlen : values.length = n * dim)
    (hfit : n * dim ≤ f32OfUsize (n * dim)) (id : UInt32) :
    (loadedDataset n dim values).getVertex id =
      if (id.toNat + 1) * dim ≤ f32OfUsize (n * dim) then
        .ok (.values (slot dim (loadedDataset n dim values).data id.toNat))
      else .error (.index s!"Invalid vertex id {id}.") := by
  obtain ⟨hstart, hstop⟩ := stop_eq hd id
  have hlength : (loadedDataset n dim values).data.length = f32OfUsize (n * dim) :=
    filledRows_length hlen (Nat.le_refl n) hfit
  have hdim : (loadedDataset n dim values).dim = dim := rfl
  simp only [InmemDataset.getVertex, hlength, hdim, hstart, hstop]
  have hwidth : (id.toNat + 1) * dim - id.toNat * dim = dim := by
    rw [Nat.add_mul, Nat.one_mul]
    exact Nat.add_sub_cancel_left _ _
  have hmem : (loadedDataset n dim values).isMemoryMapped = false := rfl
  have hord : ¬ (id.toNat + 1) * dim < id.toNat * dim :=
    Nat.not_lt.mpr (Nat.mul_le_mul_right dim (Nat.le_succ _))
  rw [hmem, if_neg Bool.false_ne_true, if_neg hord, hwidth]
  rfl

/-- The vectors at the front of the buffer are those of the file. -/
theorem slot_filledRows (hlen : values.length = n * dim) {i : Nat} (hi : i < n) :
    slot dim (filledRows capacity dim values n) i = slot dim values i := by
  have hle := slot_bound dim hi
  rw [filledRows, List.take_of_length_le (Nat.le_of_eq hlen), slot, slot,
    List.drop_append_of_le_length (by omega), List.take_append_of_le_length]
  rw [List.length_drop]
  omega

/-- In memory, all is well if the rounded capacity is that of the vectors and of none more. -/
theorem gives_loadDataset_iff (hn : n < 2 ^ 31) (hdim : 0 < dim) (hd : dim < 2 ^ 31)
    (hlen : values.length = n * dim) :
    Gives n dim values (loadDataset n dim (dataFile n dim values)) ↔
      n * dim ≤ f32OfUsize (n * dim) ∧ f32OfUsize (n * dim) < (n + 1) * dim ∧
        f32OfUsize (n * dim) * 4 ≤ 2 ^ 63 - 64 := by
  by_cases hgood : f32OfUsize (n * dim) * 4 ≤ 2 ^ 63 - 64 ∧ n * dim ≤ f32OfUsize (n * dim)
  · obtain ⟨halloc, hfit⟩ := hgood
    rw [Gives, loadDataset_eq hn hdim hd hlen halloc hfit]
    have hget := getVertex_loaded hd hlen hfit
    constructor
    · rintro ⟨ds, hds, -, hpast⟩
      obtain rfl := Except.ok.inj hds
      refine ⟨hfit, ?_, halloc⟩
      have hid : (UInt32.ofNat n).toNat = n := UInt32.toNat_ofNat_of_lt' (Nat.lt_trans hn (by decide))
      obtain ⟨err, herr⟩ := hpast (UInt32.ofNat n) (Nat.le_of_eq hid.symm)
      rw [hget, hid] at herr
      split at herr
      · cases herr
      · omega
    · rintro ⟨-, hnext, -⟩
      refine ⟨_, rfl, fun id hid => ?_, fun id hid => ?_⟩
      · rw [hget, if_pos (Nat.le_trans (Nat.mul_le_mul_right dim hid) hfit)]
        exact congrArg (fun row => Except.ok (VertexData.values row)) (slot_filledRows hlen hid)
      · refine ⟨_, (hget id).trans (if_neg (Nat.not_le.mpr (Nat.lt_of_lt_of_le hnext ?_)))⟩
        exact Nat.mul_le_mul_right dim (Nat.succ_le_succ hid)
  · obtain ⟨err, herr⟩ := loadDataset_error hn hdim hd hlen hgood
    rw [Gives, herr]
    constructor
    · rintro ⟨ds, hds, -⟩
      cases hds
    · rintro ⟨hfit, -, halloc⟩
      exact absurd ⟨halloc, hfit⟩ hgood

/-! ## Mapping the file -/

/-- The dataset after mapping. -/
def mappedDataset (n dim : Nat) (values : List F32) : InmemDataset where
  data := []
  mmap := some (dataFile n dim values)
  numPoints := n
  numActivePts := n
  capacity := wrap (n * dim)
  dim
  isMemoryMapped := true

theorem mapDataset_eq (hn : n < 2 ^ 31) (hdim : 0 < dim) (hd : dim < 2 ^ 31)
    (hlen : values.length = n * dim) (hfile : (dataFile n dim values).length < 2 ^ 63) :
    mapDataset n dim (dataFile n dim values) = .ok (mappedDataset n dim values) := by
  have hsize := dataFile_length n dim values
  rw [hlen] at hsize
  obtain ⟨hpoints, hdims⟩ := header_dataFile (Nat.lt_trans hn (by decide))
    (Nat.lt_trans hd (by decide)) values
  have hdata : wrap ((dataFile n dim values).length + 2 ^ 64 - 8) = n * dim * 4 := by
    rw [hsize, wrap]
    omega
  have hwidth : wrap (dim * 4) = dim * 4 := wrap_of_lt (by omega)
  have hcount : n * dim * 4 / (dim * 4) = n := by
    rw [Nat.mul_assoc]
    exact Nat.mul_div_cancel n (by omega)
  have hdim' : (InmemDataset.newMemoryMapped n dim).dim = dim := rfl
  simp only [mapDataset, InmemDataset.setMemoryMapped, hdim', hdata, hwidth, hcount, hpoints, hdims]
  rw [if_neg (by omega), if_neg (by omega), if_neg (by simp), if_neg (by simp)]
  rfl

/-- Where the end of a vertex is found in the map. -/
def mappedEnd (dim : Nat) (id : UInt32) : Nat := wrap (8 + (id.toNat + 1) * dim * 4)

theorem getVertex_mapped_error (hd : dim < 2 ^ 31) {id : UInt32}
    (hpast : (dataFile n dim values).length < mappedEnd dim id) :
    (mappedDataset n dim values).getVertex id =
      .error (.index s!"Invalid vertex id {id}: out of bounds") := by
  obtain ⟨hstart, hstop⟩ := stop_eq hd id
  have hdim : (mappedDataset n dim values).dim = dim := rfl
  simp only [InmemDataset.getVertex, hdim, hstart, hstop]
  exact if_pos hpast

theorem getVertex_mapped_ok (hd : dim < 2 ^ 31) {id : UInt32}
    (hin : mappedEnd dim id ≤ (dataFile n dim values).length) :
    ∃ data, (mappedDataset n dim values).getVertex id = .ok data := by
  obtain ⟨hstart, hstop⟩ := stop_eq hd id
  have hdim : (mappedDataset n dim values).dim = dim := rfl
  simp only [InmemDataset.getVertex, hdim, hstart, hstop]
  show ∃ data, (if (dataFile n dim values).length < mappedEnd dim id then _ else _) = _
  rw [if_neg (Nat.not_lt.mpr hin)]
  split
  · exact ⟨_, rfl⟩
  · exact ⟨_, rfl⟩

/-- A vertex of the file is where it should be. -/
theorem getVertex_mapped (hd : dim < 2 ^ 31) (hlen : values.length = n * dim)
    (hfile : (dataFile n dim values).length < 2 ^ 63) {id : UInt32} (hid : id.toNat < n) :
    (mappedDataset n dim values).getVertex id = .ok (.values (slot dim values id.toNat)) := by
  obtain ⟨hstart, hstop⟩ := stop_eq hd id
  have hdim : (mappedDataset n dim values).dim = dim := rfl
  have hsize := dataFile_length n dim values
  have hle := slot_bound dim hid
  have hnext : (id.toNat + 1) * dim = id.toNat * dim + dim := Nat.succ_mul _ _
  have hmap : (mappedDataset n dim values).mmap = some (dataFile n dim values) := rfl
  have hstart' : wrap (8 + id.toNat * dim * 4) = 8 + id.toNat * dim * 4 := wrap_of_lt (by omega)
  have hstop' : wrap (8 + (id.toNat + 1) * dim * 4) = 8 + (id.toNat + 1) * dim * 4 :=
    wrap_of_lt (by omega)
  simp only [InmemDataset.getVertex, hdim, hstart, hstop, hmap, hstart', hstop']
  show (if (dataFile n dim values).length < _ then _ else _) = _
  rw [if_neg (by omega), if_pos (by omega), f32sOfBytes_dataFile (by omega)]
  rfl

/-- Mapped, all is well if no id past the last wraps around to an end within the file. -/
theorem gives_mapDataset_iff (hn : n < 2 ^ 31) (hdim : 0 < dim) (hd : dim < 2 ^ 31)
    (hlen : values.length = n * dim) (hfile : (dataFile n dim values).length < 2 ^ 63) :
    Gives n dim values (mapDataset n dim (dataFile n dim values)) ↔
      ∀ id : UInt32, n ≤ id.toNat → (dataFile n dim values).length < mappedEnd dim id := by
  rw [Gives, mapDataset_eq hn hdim hd hlen hfile]
  constructor
  · rintro ⟨ds, hds, -, hpast⟩ id hid
    obtain rfl := Except.ok.inj hds
    obtain ⟨err, herr⟩ := hpast id hid
    refine Nat.lt_of_not_le fun hin => ?_
    obtain ⟨data, hok⟩ := getVertex_mapped_ok hd hin
    rw [hok] at herr
    cases herr
  · intro hpast
    exact ⟨_, rfl, fun id hid => getVertex_mapped hd hlen hfile hid,
      fun id hid => ⟨_, getVertex_mapped_error hd (hpast id hid)⟩⟩

/-- No id past the last wraps around: byte offsets stay below `2 ^ 64`, or there is no vector and no
multiple of the dimension just below where they wrap. -/
def Unwrapped (n dim : Nat) : Prop :=
  dim < 2 ^ 30 ∨ n = 0 ∧ ¬ dim ∣ 2 ^ 62 - 2 ∧ ¬ dim ∣ 2 ^ 62 - 1 ∧ ¬ dim ∣ 2 ^ 62

/-- Below `2 ^ 30` dimensions nothing wraps. -/
theorem mappedEnd_of_small (hd : dim < 2 ^ 30) (id : UInt32) :
    mappedEnd dim id = 8 + (id.toNat + 1) * dim * 4 := by
  have hid := id.toNat_lt
  have hmul : (id.toNat + 1) * dim ≤ 2 ^ 32 * (2 ^ 30 - 1) :=
    Nat.mul_le_mul hid (Nat.le_sub_one_of_lt hd)
  exact wrap_of_lt (by omega)

/-- From there on, the first multiple past the wrap is the end of a vertex within any file of vectors. -/
theorem exists_wrapped (hn : n < 2 ^ 31) (hpos : 0 < n) (hd : dim < 2 ^ 31) (hlarge : 2 ^ 30 ≤ dim) :
    ∃ id : UInt32, n ≤ id.toNat ∧ mappedEnd dim id ≤ 8 + n * dim * 4 := by
  have hdim : 0 < dim := by omega
  have hdiv := Nat.div_add_mod (2 ^ 62 + dim - 1) dim
  have hmod := Nat.mod_lt (2 ^ 62 + dim - 1) hdim
  rw [Nat.mul_comm] at hdiv
  set q := (2 ^ 62 + dim - 1) / dim with hq
  have hupper : q ≤ 2 ^ 32 := by
    refine Nat.le_of_lt_succ ((Nat.div_lt_iff_lt_mul hdim).mpr ?_)
    have : (2 ^ 32 + 1) * 2 ^ 30 ≤ (2 ^ 32 + 1) * dim := Nat.mul_le_mul_left _ hlarge
    omega
  have hlower : 2 ^ 31 < q := by
    refine Nat.lt_of_not_le fun hle => ?_
    have : q * dim ≤ 2 ^ 31 * (2 ^ 31 - 1) := Nat.mul_le_mul hle (Nat.le_sub_one_of_lt hd)
    omega
  have hid : (UInt32.ofNat (q - 1)).toNat = q - 1 := UInt32.toNat_ofNat_of_lt' (by
    show q - 1 < 2 ^ 32
    omega)
  have hone : dim ≤ n * dim := Nat.le_mul_of_pos_left dim hpos
  refine ⟨UInt32.ofNat (q - 1), by omega, ?_⟩
  rw [mappedEnd, hid, Nat.sub_add_cancel (by omega), wrap]
  omega

/-- Without vectors, the ends that wrap into the header are those of three multiples. -/
theorem forall_lt_mappedEnd_iff (hd : dim < 2 ^ 31) (hlarge : 2 ^ 30 ≤ dim) :
    (∀ id : UInt32, 8 < mappedEnd dim id) ↔
      ¬ dim ∣ 2 ^ 62 - 2 ∧ ¬ dim ∣ 2 ^ 62 - 1 ∧ ¬ dim ∣ 2 ^ 62 := by
  constructor
  · intro h
    have hnot : ∀ m, 0 < m → m ≤ 2 ^ 62 → wrap (8 + m * 4) ≤ 8 → ¬ dim ∣ m := by
      rintro m hm hle hwrap ⟨q, rfl⟩
      have hq : 0 < q := Nat.pos_of_mul_pos_left hm
      have hq' : q ≤ 2 ^ 32 := by
        refine Nat.le_of_mul_le_mul_left (Nat.le_trans ?_ hle) (by decide : 0 < 2 ^ 30)
        exact Nat.mul_le_mul_right q hlarge
      have hid : (UInt32.ofNat (q - 1)).toNat = q - 1 := UInt32.toNat_ofNat_of_lt' (by
        show q - 1 < 2 ^ 32
        omega)
      have hend := h (UInt32.ofNat (q - 1))
      rw [mappedEnd, hid, Nat.sub_add_cancel hq, Nat.mul_comm q] at hend
      omega
    exact ⟨hnot _ (by decide) (by decide) (by decide), hnot _ (by decide) (by decide) (by decide),
      hnot _ (by decide) (by decide) (by decide)⟩
  · rintro ⟨htwo, hone, hzero⟩ id
    have hid := id.toNat_lt
    have hmul : (id.toNat + 1) * dim ≤ 2 ^ 32 * (2 ^ 31 - 1) :=
      Nat.mul_le_mul hid (Nat.le_sub_one_of_lt hd)
    have hpos : 0 < (id.toNat + 1) * dim := Nat.mul_pos (Nat.succ_pos _) (by omega)
    have hdvd : dim ∣ (id.toNat + 1) * dim := Nat.dvd_mul_left _ _
    rw [mappedEnd, wrap]
    have htwo' : (id.toNat + 1) * dim ≠ 2 ^ 62 - 2 := fun h => htwo (h ▸ hdvd)
    have hone' : (id.toNat + 1) * dim ≠ 2 ^ 62 - 1 := fun h => hone (h ▸ hdvd)
    have hzero' : (id.toNat + 1) * dim ≠ 2 ^ 62 := fun h => hzero (h ▸ hdvd)
    omega

theorem forall_past_iff (hn : n < 2 ^ 31) (hd : dim < 2 ^ 31) (hdim : 0 < dim) :
    (∀ id : UInt32, n ≤ id.toNat → 8 + n * dim * 4 < mappedEnd dim id) ↔ Unwrapped n dim := by
  rcases Nat.lt_or_ge dim (2 ^ 30) with hsmall | hlarge
  · refine ⟨fun _ => .inl hsmall, fun _ id hid => ?_⟩
    rw [mappedEnd_of_small hsmall]
    have : n * dim < (id.toNat + 1) * dim := Nat.mul_lt_mul_of_pos_right (Nat.lt_succ_of_le hid) hdim
    omega
  · rcases Nat.eq_zero_or_pos n with rfl | hpos
    · have hzero := forall_lt_mappedEnd_iff hd hlarge
      constructor
      · intro h
        exact .inr ⟨rfl, hzero.mp fun id => by simpa using h id (Nat.zero_le _)⟩
      · rintro (hsmall | ⟨-, hnot⟩) id -
        · omega
        · simpa using hzero.mpr hnot id
    · obtain ⟨id, hid, hend⟩ := exists_wrapped hn hpos hd hlarge
      constructor
      · intro h
        exact absurd (h id hid) (Nat.not_lt.mpr hend)
      · rintro (hsmall | ⟨hzero, -⟩)
        · omega
        · omega

end

/-- Both datasets give the vectors of every file exactly for the sizes that the rounded capacity is right
for and whose ids do not wrap. -/
theorem datasets_agree_iff (n dim : Nat) (values : List F32) (hn : n < 2 ^ 31) (hdim : 1 ≤ dim)
    (hd : dim < 2 ^ 31) (hlen : values.length = n * dim)
    (hfile : (dataFile n dim values).length < 2 ^ 63) :
    (Gives n dim values (loadDataset n dim (dataFile n dim values)) ∧
      Gives n dim values (mapDataset n dim (dataFile n dim values))) ↔
    n * dim ≤ f32OfUsize (n * dim) ∧ f32OfUsize (n * dim) < (n + 1) * dim ∧
      f32OfUsize (n * dim) * 4 ≤ 2 ^ 63 - 64 ∧ Unwrapped n dim := by
  rw [gives_loadDataset_iff hn hdim hd hlen, gives_mapDataset_iff hn hdim hd hlen hfile,
    dataFile_length, hlen, forall_past_iff hn hd hdim]
  simp only [and_assoc]

/-- Two vectors of three values. -/
theorem datasets_agree_iff_two :
    (Gives 2 3 (List.replicate 6 F32.zero) (loadDataset 2 3 (dataFile 2 3 (List.replicate 6 F32.zero))) ∧
      Gives 2 3 (List.replicate 6 F32.zero)
        (mapDataset 2 3 (dataFile 2 3 (List.replicate 6 F32.zero)))) ↔
    2 * 3 ≤ f32OfUsize (2 * 3) ∧ f32OfUsize (2 * 3) < (2 + 1) * 3 ∧
      f32OfUsize (2 * 3) * 4 ≤ 2 ^ 63 - 64 ∧ Unwrapped 2 3 :=
  datasets_agree_iff 2 3 (List.replicate 6 F32.zero) (by decide) (by decide) (by decide) rfl
    (by rw [dataFile_length]; decide)

/-- With one value more than an `f32` counts exactly, the buffer is one value too short. -/
theorem datasets_disagree :
    ¬ ∀ (n dim : Nat) (values : List F32), n < 2 ^ 31 → 1 ≤ dim → dim < 2 ^ 31 →
      values.length = n * dim → (dataFile n dim values).length < 2 ^ 63 →
      Gives n dim values (loadDataset n dim (dataFile n dim values)) ∧
        Gives n dim values (mapDataset n dim (dataFile n dim values)) := by
  intro h
  have hlen : (List.replicate (2 ^ 24 + 1) F32.zero).length = (2 ^ 24 + 1) * 1 := by
    rw [List.length_replicate, Nat.mul_one]
  have hgives := h (2 ^ 24 + 1) 1 (List.replicate (2 ^ 24 + 1) F32.zero) (by decide) (by decide)
    (by decide) hlen (by rw [dataFile_length, hlen]; decide)
  have hfit := ((gives_loadDataset_iff (by decide) (by decide) (by decide) hlen).mp hgives.1).1
  exact absurd hfit (by decide)

end ForgeANN
