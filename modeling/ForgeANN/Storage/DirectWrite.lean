-- SUMMARY: Positioned writes with short transfers: what they leave alone, and files written by appending.
import ForgeANN.Storage.DirectRead

/-!
# Positioned writes

A direct write puts whole blocks back, so it writes again what stood around its
payload. Past the end of the file that is zeros, which the next append
overwrites and `set_len` cuts off.
-/
namespace ForgeANN

open Lib

/-- How many bytes `write_at` accepts: some, if it is given any. -/
structure WriteAt where
  count : Nat → Nat → Nat
  count_le : ∀ offset len, count offset len ≤ len
  count_pos : ∀ offset len, 0 < len → 0 < count offset len

def WriteAt.writeAllAtBuffered (writes : WriteAt) (path : String) (file buf : Bytes)
    (offset : Nat) : AnnResult Bytes :=
  if _h : buf = [] then .ok file
  else
    let written := writes.count offset buf.length
    if _hw : written = 0 then
      .error (.index s!"Short write while writing {path} at offset {offset}")
    else
      writes.writeAllAtBuffered path (file.writeAt offset (buf.take written)) (buf.drop written)
        (offset + written)
termination_by buf.length
decreasing_by
  rw [List.length_drop]
  have := List.length_pos_iff.mpr _h
  omega

/-- How the file system transfers bytes. -/
structure Transfers where
  reads : ∀ file, ReadAt file
  writes : WriteAt

/-- `DirectIoFile::write_all_at`. -/
def Transfers.writeAllAt (io : Transfers) (cfg : DirectIoConfig) (path : String) (file buf : Bytes)
    (offset : Nat) : AnnResult Bytes :=
  if cfg.enabled then
    let scratch :=
      if leadLen cfg offset ≠ 0 ∨ alignedLen cfg offset buf.length ≠ buf.length then
        (io.reads file).readExactAtBufferedPartialOk (alignedOffset cfg offset)
          (alignedLen cfg offset buf.length)
      else List.replicate (alignedLen cfg offset buf.length) 0
    io.writes.writeAllAtBuffered path file (scratch.writeAt (leadLen cfg offset) buf)
      (alignedOffset cfg offset)
  else io.writes.writeAllAtBuffered path file buf offset

/-! ## Short transfers -/

/-- Two writes next to each other are one. -/
theorem writeAt_split (file buf : Bytes) (offset : Nat) {n : Nat} (hn : 0 < n)
    (hle : n ≤ buf.length) :
    (file.writeAt offset (buf.take n)).writeAt (offset + n) (buf.drop n) = file.writeAt offset buf := by
  have htake : (buf.take n).length = n := List.length_take_of_le hle
  have hdrop : (buf.drop n).length = buf.length - n := List.length_drop
  have hne : buf.take n ≠ [] := List.ne_nil_of_length_pos (htake.symm ▸ hn)
  have hne' : buf ≠ [] := List.ne_nil_of_length_pos (Nat.lt_of_lt_of_le hn hle)
  have hbytes : ∀ i, buf.at' i =
      if i < n then Bytes.at' (buf.take n) i else Bytes.at' (buf.drop n) (i - n) := by
    intro i
    conv_lhs => rw [← List.take_append_drop n buf, Bytes.at'_append, htake]
  apply Bytes.ext_at'
  · rw [Bytes.writeAt_length, Bytes.writeAt_length, Bytes.writeAt_length, if_neg hne, if_neg hne',
      htake, hdrop]
    split_ifs with hnil
    · have hlen := congrArg List.length hnil
      rw [hdrop, List.length_nil] at hlen
      omega
    · omega
  · intro i _
    rw [Bytes.at'_writeAt, Bytes.at'_writeAt, Bytes.at'_writeAt, htake, hdrop, hbytes]
    by_cases hfirst : offset ≤ i ∧ i < offset + n
    · rw [if_neg (by omega), if_pos hfirst, if_pos (by omega), if_pos (by omega)]
    · rw [if_neg hfirst]
      by_cases hrest : offset + n ≤ i ∧ i < offset + n + (buf.length - n)
      · rw [if_pos hrest, if_pos (by omega), if_neg (by omega), Nat.sub_sub]
      · rw [if_neg hrest, if_neg (by omega)]

namespace WriteAt

variable (writes : WriteAt)

/-- However the bytes are accepted, they all get written. -/
theorem writeAllAtBuffered_eq (path : String) (file buf : Bytes) (offset : Nat) :
    writes.writeAllAtBuffered path file buf offset = .ok (file.writeAt offset buf) := by
  induction hlen : buf.length using Nat.strong_induction_on generalizing file buf offset with
  | h len ih =>
      rw [writeAllAtBuffered]
      by_cases hnil : buf = []
      · rw [dif_pos hnil, hnil]
        rfl
      · have hpos : 0 < buf.length := List.length_pos_iff.mpr hnil
        have hcount := writes.count_pos offset buf.length hpos
        have hle := writes.count_le offset buf.length
        rw [dif_neg hnil]
        dsimp only
        rw [dif_neg (Nat.pos_iff_ne_zero.mp hcount),
          ih (buf.drop (writes.count offset buf.length)).length _ _ _ _ rfl,
          writeAt_split file buf offset hcount hle]
        rw [List.length_drop]
        omega

end WriteAt

namespace Transfers

variable (io : Transfers) (cfg : DirectIoConfig) (path : String)

/-- The loops come to what single transfers would have done. -/
theorem writeAllAt_eq (file buf : Bytes) (offset : Nat) :
    io.writeAllAt cfg path file buf offset = .ok (DirectIoFile.writeAllAt cfg file buf offset) := by
  rw [writeAllAt, DirectIoFile.writeAllAt]
  cases cfg.enabled with
  | false => exact io.writes.writeAllAtBuffered_eq path file buf offset
  | true =>
      simp only [↓reduceIte]
      rw [WriteAt.writeAllAtBuffered_eq, ReadAt.readExactAtBufferedPartialOk_eq]
      rfl

end Transfers

/-! ## What a write leaves alone -/

namespace DirectIoFile

variable (cfg : DirectIoConfig) (file buf : Bytes) (offset : Nat)

/-- Up to where a write may extend the file. -/
def extent (len : Nat) : Nat :=
  if cfg.enabled then roundUp (offset + len) cfg.effectiveAlignment else offset + len

theorem roundUp_mul_add (k n a : Nat) (hn : n ≠ 0) :
    roundUp (k * a + n) a = k * a + roundUp n a := by
  have hmod : (k * a + n) % a = n % a := Nat.mul_add_mod_self_right k a n
  have hne : k * a + n ≠ 0 := by omega
  rw [roundUp, roundUp, if_neg hne, if_neg hn, hmod]
  split_ifs <;> omega

/-- The blocks a write puts back end at the first boundary behind the payload. -/
theorem alignedOffset_add_alignedLen_le (len : Nat) :
    alignedOffset cfg offset + alignedLen cfg offset len ≤
      roundUp (offset + len) cfg.effectiveAlignment := by
  have hsplit := alignedOffset_add_leadLen cfg offset
  by_cases hzero : leadLen cfg offset + len = 0
  · rw [alignedLen, hzero, roundUp, if_pos rfl]
    exact Nat.le_trans (by omega) (le_roundUp ..)
  · have hround := roundUp_mul_add (offset / cfg.effectiveAlignment) (leadLen cfg offset + len)
      cfg.effectiveAlignment hzero
    rw [alignedLen, alignedOffset, ← hround]
    rw [alignedOffset] at hsplit
    rw [← Nat.add_assoc, hsplit]

theorem length_writeAllAt_le : file.length ≤ (writeAllAt cfg file buf offset).length ∧
    (writeAllAt cfg file buf offset).length ≤ max file.length (extent cfg offset buf.length) := by
  rw [writeAllAt, extent]
  cases cfg.enabled with
  | false =>
      simp only [Bool.false_eq_true, ↓reduceIte]
      rw [Bytes.writeAt_length]
      split_ifs <;> omega
  | true =>
      have hend := alignedOffset_add_alignedLen_le cfg offset buf.length
      simp only [↓reduceIte]
      rw [writeBlocks, Bytes.writeAt_length, readBlocks_length]
      split_ifs <;> omega

/-- The payload stands in the file, unless there is none and the file ends before it. -/
theorem holds_writeAllAt_of_le_length (h : offset ≤ file.length) :
    (writeAllAt cfg file buf offset).Holds offset buf := by
  by_cases hne : buf = []
  · subst hne
    exact ⟨Nat.le_trans h (length_writeAllAt_le cfg file [] offset).1, fun i hi => nomatch hi⟩
  · exact holds_writeAllAt cfg file buf offset hne

/-- Behind what stands in the file, the next payload. -/
theorem holds_append {written : Bytes} (h : file.Holds 0 written) :
    (writeAllAt cfg file buf written.length).Holds 0 (written ++ buf) := by
  have hlen := h.1
  rw [Nat.zero_add] at hlen
  apply Bytes.Holds.both
  · refine ⟨?_, fun i hi => ?_⟩
    · rw [Nat.zero_add]
      exact Nat.le_trans hlen (length_writeAllAt_le cfg file buf written.length).1
    · rw [at'_writeAllAt, if_neg (by omega), h.2 i hi]
  · rw [Nat.zero_add]
    exact holds_writeAllAt_of_le_length cfg file buf written.length hlen

end DirectIoFile

/-! ## Appending -/

/-- Buffers appended one after the other, each at the running offset: the file and the offset. -/
def Transfers.appendAll (io : Transfers) (cfg : DirectIoConfig) (path : String) (file : Bytes)
    (offset : Nat) : List Bytes → AnnResult (Bytes × Nat)
  | [] => .ok (file, offset)
  | buf :: bufs => do
      let file ← io.writeAllAt cfg path file buf offset
      io.appendAll cfg path file (offset + buf.length) bufs

theorem Transfers.appendAll_holds (io : Transfers) (cfg : DirectIoConfig) (path : String)
    {file written : Bytes} (h : file.Holds 0 written) (bufs : List Bytes) :
    ∃ last, io.appendAll cfg path file written.length bufs =
        .ok (last, (written ++ bufs.flatten).length) ∧
      last.Holds 0 (written ++ bufs.flatten) := by
  induction bufs generalizing file written with
  | nil =>
      rw [List.flatten_nil, List.append_nil]
      exact ⟨file, rfl, h⟩
  | cons buf bufs ih =>
      obtain ⟨last, hlast, hholds⟩ := ih (DirectIoFile.holds_append cfg file buf h)
      rw [List.append_assoc, ← List.flatten_cons] at hlast hholds
      refine ⟨last, ?_, hholds⟩
      rw [List.length_append] at hlast
      rw [appendAll, writeAllAt_eq]
      exact hlast

/-- However bytes are transferred, a write succeeds and changes no byte of the file outside its
payload; it extends the file with zeros, to a block boundary at most. Appending then leaves the
concatenation once the file is cut off at the running offset. -/
theorem directWrite_frame (io : Transfers) (cfg : DirectIoConfig) (path : String) (file : Bytes) :
    (∀ (buf : Bytes) (offset : Nat), ∃ new, io.writeAllAt cfg path file buf offset = .ok new ∧
      (∀ i < buf.length, new.at' (offset + i) = buf.at' i) ∧
      (∀ b, ¬ (offset ≤ b ∧ b < offset + buf.length) → new.at' b = file.at' b) ∧
      (∀ b, file.length ≤ b → ¬ (offset ≤ b ∧ b < offset + buf.length) → new.at' b = 0) ∧
      file.length ≤ new.length ∧
      new.length ≤ max file.length (DirectIoFile.extent cfg offset buf.length)) ∧
    ∀ bufs : List Bytes, ∃ last,
      io.appendAll cfg path file 0 bufs = .ok (last, bufs.flatten.length) ∧
      last.setLen bufs.flatten.length = bufs.flatten := by
  refine ⟨fun buf offset => ⟨_, io.writeAllAt_eq cfg path file buf offset, ?_, ?_, ?_, ?_⟩,
    fun bufs => ?_⟩
  · intro i hi
    rw [DirectIoFile.at'_writeAllAt, if_pos (by omega), Nat.add_sub_cancel_left]
  · intro b hb
    rw [DirectIoFile.at'_writeAllAt, if_neg hb]
  · intro b hend hb
    rw [DirectIoFile.at'_writeAllAt, if_neg hb, Bytes.at'_of_le hend]
  · exact DirectIoFile.length_writeAllAt_le cfg file buf offset
  · have hstart : file.Holds 0 [] := ⟨Nat.zero_le _, fun i hi => nomatch hi⟩
    obtain ⟨last, hlast, hholds⟩ := io.appendAll_holds cfg path hstart bufs
    rw [List.nil_append] at hlast hholds
    exact ⟨last, hlast, hholds.readAt⟩

/-- Writes that always take all they are given. -/
def WriteAt.full : WriteAt where
  count _ len := len
  count_le _ _ := Nat.le_refl _
  count_pos _ _ h := h

/-- One byte into a file of three, by blocks; and two appends. -/
theorem directWrite_frame_full :
    let io : Transfers := ⟨ReadAt.full, .full⟩
    let cfg : DirectIoConfig := .enabledWithAlignment 4096
    (∃ new, io.writeAllAt cfg "points.bin" [1, 2, 3] [9] 1 = .ok new ∧ new.at' 1 = 9 ∧
      new.at' 0 = 1 ∧ new.at' 2 = 3 ∧ new.at' 3 = 0) ∧
    ∃ last, io.appendAll cfg "points.bin" [1, 2, 3] 0 [[7], [8, 9]] = .ok (last, 3) ∧
      last.setLen 3 = [7, 8, 9] := by
  obtain ⟨hwrite, happend⟩ := directWrite_frame ⟨ReadAt.full, .full⟩ (.enabledWithAlignment 4096)
    "points.bin" [1, 2, 3]
  obtain ⟨new, hnew, hpayload, hframe, hzero, -, -⟩ := hwrite [9] 1
  refine ⟨⟨new, hnew, hpayload 0 (by decide), hframe 0 (by decide), hframe 2 (by decide),
    hzero 3 (by decide) (by decide)⟩, happend [[7], [8, 9]]⟩

/-- A write of one byte into a short file: its block is filled up with zeros. -/
example : (DirectIoFile.extent (.enabledWithAlignment 4096) 5000 1) = 8192 := by
  rw [DirectIoFile.extent, DirectIoConfig.effectiveAlignment_4096]
  rfl

end ForgeANN
