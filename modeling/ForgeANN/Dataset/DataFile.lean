-- SUMMARY: Data files: a header with the number of points and the dimension, and the values of the points.
import ForgeANN.Graph.MemIndex
import ForgeANN.Points.VectorRun

/-!
# Data files
-/
namespace ForgeANN

open Lib

/-- A header and the values, point after point. -/
def dataFile (numPoints dim : Nat) (values : List F32) : Bytes :=
  leU32 (UInt32.ofNat numPoints) ++ leU32 (UInt32.ofNat dim) ++ f32SliceAsBytes values

/-- `v as usize` of an `i32`: the sign is extended. -/
def i32AsUsize (v : UInt32) : Nat :=
  if v.toNat < 2 ^ 31 then v.toNat else v.toNat + (2 ^ 64 - 2 ^ 32)

def readI32AsUsize (r : BufReader) : AnnResult (Nat × BufReader) := do
  let (v, r) ← readU32 r
  .ok (i32AsUsize v, r)

def loadMetadataFromFile (file : Bytes) : AnnResult (Nat × Nat) := do
  let (npoints, r) ← readI32AsUsize ⟨file, 0⟩
  let (ndims, _) ← readI32AsUsize r
  .ok (npoints, ndims)

section

variable {n dim : Nat} {values : List F32} {r : BufReader} {tail : Bytes}

theorem i32AsUsize_ofNat (h : n < 2 ^ 31) : i32AsUsize (UInt32.ofNat n) = n := by
  have hn : (UInt32.ofNat n).toNat = n := UInt32.toNat_ofNat_of_lt' (Nat.lt_trans h (by decide))
  rw [i32AsUsize, hn, if_pos h]

theorem readI32AsUsize_leU32 {v : UInt32} (h : r.rest = leU32 v ++ tail) :
    readI32AsUsize r = .ok (i32AsUsize v, r.advance 4) ∧ (r.advance 4).rest = tail := by
  obtain ⟨hread, hrest⟩ := readU32_of_rest h
  refine ⟨?_, hrest⟩
  rw [readI32AsUsize, hread]
  rfl

theorem readI32AsUsize_of_rest (hn : n < 2 ^ 31) (h : r.rest = leU32 (UInt32.ofNat n) ++ tail) :
    readI32AsUsize r = .ok (n, r.advance 4) ∧ (r.advance 4).rest = tail := by
  obtain ⟨hread, hrest⟩ := readI32AsUsize_leU32 h
  rw [i32AsUsize_ofNat hn] at hread
  exact ⟨hread, hrest⟩

theorem dataFile_length (n dim : Nat) (values : List F32) :
    (dataFile n dim values).length = 8 + values.length * 4 := by
  rw [dataFile, List.length_append, List.length_append, leU32_length, leU32_length,
    f32SliceAsBytes_length]

/-- What comes after the header. -/
theorem rest_dataFile (n dim : Nat) (values : List F32) :
    (BufReader.mk (dataFile n dim values) 8).rest = f32SliceAsBytes values := by
  rw [BufReader.rest, dataFile]
  exact List.drop_left' (by rw [List.length_append, leU32_length, leU32_length])

/-- The values of a stretch of the payload. -/
theorem f32sOfBytes_dataFile {start len : Nat} (h : start + len ≤ values.length) :
    f32sOfBytes ((dataFile n dim values).readAt (8 + start * 4) (len * 4)) =
      (values.drop start).take len := by
  rw [← f32sOfBytes_readAt h]
  congr 1
  apply Bytes.ext_at' (by simp)
  intro i hi
  rw [Bytes.readAt_length] at hi
  rw [Bytes.at'_readAt hi, Bytes.at'_readAt hi, dataFile, Bytes.at'_append, List.length_append,
    leU32_length, leU32_length, if_neg (by omega)]
  congr 1
  omega

theorem f32sOfBytes_f32SliceAsBytes (values : List F32) :
    f32sOfBytes (f32SliceAsBytes values) = values := by
  have hread : f32sOfBytes ((f32SliceAsBytes values).readAt (0 * 4) (values.length * 4)) =
      (values.drop 0).take values.length := f32sOfBytes_readAt (Nat.le_of_eq (Nat.zero_add _))
  rw [Nat.zero_mul, ← f32SliceAsBytes_length, Bytes.readAt_eq_take_drop (by simp)] at hread
  simpa using hread

theorem header_dataFile (hn : n < 2 ^ 32) (hdim : dim < 2 ^ 32) (values : List F32) :
    (u32OfLe ((dataFile n dim values).take 4)).toNat = n ∧
      (u32OfLe (((dataFile n dim values).drop 4).take 4)).toNat = dim := by
  rw [dataFile, List.append_assoc, List.take_left' (leU32_length _), List.drop_left' (leU32_length _),
    List.take_left' (leU32_length _), u32OfLe_leU32, u32OfLe_leU32]
  exact ⟨UInt32.toNat_ofNat_of_lt' hn, UInt32.toNat_ofNat_of_lt' hdim⟩

end

end ForgeANN
