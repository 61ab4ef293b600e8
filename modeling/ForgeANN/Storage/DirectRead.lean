-- SUMMARY: Positioned reads with short transfers, and how far direct reads refine buffered ones.
import ForgeANN.Storage.DirectIo

/-!
# Positioned reads

`read_at` may deliver fewer bytes than it was asked for, so both ways to fill a
buffer are loops. The buffered one fails at the end of the file; the direct one
stops there and pads with zeros.
-/
namespace ForgeANN

open Lib

/-- How many bytes `read_at` delivers: some, unless none are asked for or the file has ended. -/
structure ReadAt (file : Bytes) where
  count : Nat → Nat → Nat
  count_le : ∀ offset len, count offset len ≤ min len (file.length - offset)
  count_pos : ∀ offset len, 0 < len → offset < file.length → 0 < count offset len

namespace ReadAt

variable {file : Bytes} (reads : ReadAt file)

theorem count_eq_zero {offset len : Nat} (hlen : 0 < len) :
    reads.count offset len = 0 ↔ file.length ≤ offset := by
  have hle := reads.count_le offset len
  constructor
  · intro hzero
    by_contra hlt
    have := reads.count_pos offset len hlen (by omega)
    omega
  · intro hend
    omega

def readExactAtBuffered (path : String) (offset len : Nat) : AnnResult Bytes :=
  if _h : len = 0 then .ok []
  else
    let read := reads.count offset len
    if _hr : read = 0 then
      .error (.index s!"Unexpected EOF while reading {path} at offset {offset}")
    else do
      let rest ← readExactAtBuffered path (offset + read) (len - read)
      .ok (file.readAt offset read ++ rest)
termination_by len
decreasing_by omega

def readExactAtBufferedPartialOk (offset len : Nat) : Bytes :=
  if _h : len = 0 then []
  else
    let read := reads.count offset len
    if _hr : read = 0 then List.replicate len 0
    else file.readAt offset read ++ readExactAtBufferedPartialOk (offset + read) (len - read)
termination_by len
decreasing_by omega

/-- `DirectIoFile::read_exact_at`, with the bytes it leaves in a buffer of length `len`. -/
def readExactAt (cfg : DirectIoConfig) (path : String) (offset len : Nat) : AnnResult Bytes :=
  if cfg.enabled then
    let scratch := reads.readExactAtBufferedPartialOk (alignedOffset cfg offset)
      (alignedLen cfg offset len)
    .ok ((scratch.drop (leadLen cfg offset)).take len)
  else reads.readExactAtBuffered path offset len

/-- One delivery of a read. -/
theorem readAt_split {offset len read : Nat} (hle : read ≤ len) :
    file.readAt offset read ++ file.readAt (offset + read) (len - read) = file.readAt offset len := by
  rw [← Bytes.readAt_add, Nat.add_sub_cancel' hle]

theorem readExactAtBuffered_eq (path : String) (offset len : Nat) :
    reads.readExactAtBuffered path offset len =
      if len = 0 ∨ offset + len ≤ file.length then .ok (file.readAt offset len)
      else .error (.index
        s!"Unexpected EOF while reading {path} at offset {max offset file.length}") := by
  induction len using Nat.strong_induction_on generalizing offset with
  | h len ih =>
      have hle := reads.count_le offset len
      rw [readExactAtBuffered]
      by_cases hlen : len = 0
      · rw [dif_pos hlen, if_pos (.inl hlen), hlen]
        rfl
      · rw [dif_neg hlen]
        dsimp only
        by_cases hread : reads.count offset len = 0
        · have hend := (reads.count_eq_zero (by omega)).mp hread
          rw [dif_pos hread, if_neg (by omega), Nat.max_eq_left hend]
        · rw [dif_neg hread, ih _ (by omega)]
          have hmax : max (offset + reads.count offset len) file.length =
              max offset file.length := by omega
          by_cases hfits : offset + len ≤ file.length
          · rw [if_pos (.inr (by omega)), if_pos (.inr hfits)]
            exact congrArg Except.ok (readAt_split (by omega))
          · rw [if_neg (by omega), if_neg (by omega), hmax]
            rfl

/-- The padding is what reading past the end of the file amounts to. -/
theorem readExactAtBufferedPartialOk_eq (offset len : Nat) :
    reads.readExactAtBufferedPartialOk offset len = file.readAt offset len := by
  induction len using Nat.strong_induction_on generalizing offset with
  | h len ih =>
      have hle := reads.count_le offset len
      rw [readExactAtBufferedPartialOk]
      by_cases hlen : len = 0
      · rw [dif_pos hlen, hlen]
        rfl
      · rw [dif_neg hlen]
        dsimp only
        by_cases hread : reads.count offset len = 0
        · have hend := (reads.count_eq_zero (by omega)).mp hread
          rw [dif_pos hread]
          apply Bytes.ext_at'
          · simp
          · intro i hi
            rw [List.length_replicate] at hi
            have hzero : file.at' (offset + i) = 0 := Bytes.at'_of_le (by omega)
            rw [Bytes.at'_readAt hi, hzero]
            simp [Bytes.at', hi]
        · rw [dif_neg hread, ih _ (by omega), readAt_split (by omega)]

/-- The payload sliced out of the aligned range. -/
theorem take_drop_readAt {offset len lead total : Nat} (h : lead + len ≤ total) :
    ((file.readAt offset total).drop lead).take len = file.readAt (offset + lead) len := by
  have hsplit : total = lead + (len + (total - lead - len)) := by omega
  rw [hsplit, Bytes.readAt_add, Bytes.readAt_add, List.drop_left' (by simp),
    List.take_left' (by simp)]

/-- Whatever the deliveries: a direct read never fails, and delivers zeros past the file's end. -/
theorem readExactAt_eq (cfg : DirectIoConfig) (path : String) (offset len : Nat) :
    reads.readExactAt cfg path offset len =
      if cfg.enabled ∨ len = 0 ∨ offset + len ≤ file.length then .ok (file.readAt offset len)
      else .error (.index
        s!"Unexpected EOF while reading {path} at offset {max offset file.length}") := by
  unfold readExactAt
  cases cfg.enabled with
  | false => simp [readExactAtBuffered_eq]
  | true =>
      dsimp only
      rw [if_pos rfl, if_pos (.inl rfl), readExactAtBufferedPartialOk_eq,
        take_drop_readAt (leadLen_add_le cfg offset len), alignedOffset_add_leadLen]

/-- The loops come to what a single transfer would have delivered. -/
theorem readExactAt_eq_directIoFile (cfg : DirectIoConfig) (path : String) (offset len : Nat) :
    reads.readExactAt cfg path offset len = DirectIoFile.readExactAt cfg file offset path len :=
  reads.readExactAt_eq cfg path offset len

end ReadAt

/-! ## Refinement -/

/-- The direct read returns the bytes of the buffered one, and fails where that fails. -/
def DirectReadRefines (buffered direct : AnnResult Bytes) : Prop :=
  match buffered with
  | .ok bytes => direct = .ok bytes
  | .error _ => ∃ err, direct = .error err

/-- A direct read refines a buffered one exactly if it asks for nothing past the end of the file. -/
theorem directRead_refines_iff {file : Bytes} (reads : ReadAt file) (directReads : ReadAt file)
    (path : String) (alignment offset len : Nat) :
    DirectReadRefines (reads.readExactAt ⟨false, alignment⟩ path offset len)
        (directReads.readExactAt ⟨true, alignment⟩ path offset len) ↔
      len = 0 ∨ offset + len ≤ file.length := by
  simp only [ReadAt.readExactAt_eq, Bool.false_eq_true, false_or, true_or, if_true]
  split_ifs with hfits
  · exact iff_of_true rfl hfits
  · refine iff_of_false ?_ hfits
    rintro ⟨err, herr⟩
    cases herr

/-- A file whose reads always deliver all there is. -/
def ReadAt.full (file : Bytes) : ReadAt file where
  count offset len := min len (file.length - offset)
  count_le _ _ := Nat.le_refl _
  count_pos _ _ _ _ := by omega

/-- One byte of an empty file: the buffered read fails, and the direct one delivers a zero. -/
theorem directRead_past_end :
    ¬ DirectReadRefines ((ReadAt.full []).readExactAt ⟨false, 4096⟩ "points.bin" 0 1)
      ((ReadAt.full []).readExactAt ⟨true, 4096⟩ "points.bin" 0 1) := by
  simp only [ReadAt.readExactAt_eq, true_or, if_true]
  rw [if_neg (by simp)]
  rintro ⟨err, herr⟩
  cases herr

end ForgeANN
