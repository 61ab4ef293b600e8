-- SUMMARY: Direct-I/O files: aligned read-modify-write, as the two steps other writers can come between.
import ForgeANN.Common.Basic
import ForgeANN.Lib.ByteFile
import Mathlib.Data.Nat.Log

/-!
# Direct-I/O files

With `O_DIRECT` every transfer covers whole alignment blocks, so a positioned
write first reads the blocks it touches, patches its payload in and writes the
blocks back.
-/
namespace ForgeANN

open Lib

def DEFAULT_DIRECT_IO_ALIGNMENT : Nat := 4096

/-- `usize::next_power_of_two`. -/
def nextPowerOfTwo (n : Nat) : Nat := 2 ^ Nat.clog 2 n

structure DirectIoConfig where
  enabled : Bool
  alignment : Nat
deriving DecidableEq, Repr

namespace DirectIoConfig

def disabled : DirectIoConfig := ⟨false, DEFAULT_DIRECT_IO_ALIGNMENT⟩

def enabledWithAlignment (alignment : Nat) : DirectIoConfig :=
  ⟨true, nextPowerOfTwo (max alignment DEFAULT_DIRECT_IO_ALIGNMENT)⟩

def effectiveAlignment (cfg : DirectIoConfig) : Nat :=
  nextPowerOfTwo (max cfg.alignment DEFAULT_DIRECT_IO_ALIGNMENT)

theorem effectiveAlignment_pos (cfg : DirectIoConfig) : 0 < cfg.effectiveAlignment :=
  Nat.two_pow_pos _

theorem nextPowerOfTwo_4096 : nextPowerOfTwo 4096 = 4096 := by
  rw [nextPowerOfTwo, show (4096 : Nat) = 2 ^ 12 from rfl, Nat.clog_pow 2 12 (by decide)]

@[simp] theorem effectiveAlignment_4096 : (enabledWithAlignment 4096).effectiveAlignment = 4096 := by
  simp [effectiveAlignment, enabledWithAlignment, DEFAULT_DIRECT_IO_ALIGNMENT, nextPowerOfTwo_4096]

end DirectIoConfig

def roundUp (value alignment : Nat) : Nat :=
  if value = 0 then 0
  else if value % alignment = 0 then value
  else value + (alignment - value % alignment)

theorem le_roundUp (value alignment : Nat) : value ≤ roundUp value alignment := by
  unfold roundUp
  split_ifs <;> omega

/-! ## One write -/

section

variable (cfg : DirectIoConfig) (offset len : Nat)

def alignedOffset : Nat := offset / cfg.effectiveAlignment * cfg.effectiveAlignment

/-- The bytes between the block boundary and the payload; `prefix` in the source. -/
def leadLen : Nat := offset - alignedOffset cfg offset

def alignedLen : Nat := roundUp (leadLen cfg offset + len) cfg.effectiveAlignment

theorem alignedOffset_le : alignedOffset cfg offset ≤ offset := Nat.div_mul_le_self ..

theorem alignedOffset_add_leadLen : alignedOffset cfg offset + leadLen cfg offset = offset :=
  Nat.add_sub_cancel' (alignedOffset_le cfg offset)

theorem leadLen_add_le : leadLen cfg offset + len ≤ alignedLen cfg offset len := le_roundUp ..

/-- The bytes a write of `len` bytes at `offset` puts back. -/
def InBlocks (b : Nat) : Prop :=
  alignedOffset cfg offset ≤ b ∧ b < alignedOffset cfg offset + alignedLen cfg offset len

instance (b : Nat) : Decidable (InBlocks cfg offset len b) := inferInstanceAs (Decidable (_ ∧ _))

theorem inBlocks_of_payload {b : Nat} (h : offset ≤ b ∧ b < offset + len) :
    InBlocks cfg offset len b := by
  have h₁ := alignedOffset_add_leadLen cfg offset
  have h₂ := leadLen_add_le cfg offset len
  unfold InBlocks
  omega

end

namespace DirectIoFile

/-- First step of a direct write: the scratch buffer with the payload patched
in. The blocks are read unless the payload fills them. -/
def readBlocks (cfg : DirectIoConfig) (file : Bytes) (buf : Bytes) (offset : Nat) : Bytes :=
  let scratch :=
    if leadLen cfg offset ≠ 0 ∨ alignedLen cfg offset buf.length ≠ buf.length then
      file.readAt (alignedOffset cfg offset) (alignedLen cfg offset buf.length)
    else List.replicate (alignedLen cfg offset buf.length) 0
  scratch.writeAt (leadLen cfg offset) buf

/-- Second step of a direct write: put the scratch buffer back. -/
def writeBlocks (cfg : DirectIoConfig) (file : Bytes) (scratch : Bytes) (offset : Nat) : Bytes :=
  file.writeAt (alignedOffset cfg offset) scratch

def writeAllAt (cfg : DirectIoConfig) (file : Bytes) (buf : Bytes) (offset : Nat) : Bytes :=
  if cfg.enabled then writeBlocks cfg file (readBlocks cfg file buf offset) offset
  else file.writeAt offset buf

variable (cfg : DirectIoConfig) (file buf : Bytes) (offset : Nat)

@[simp] theorem readBlocks_length :
    (readBlocks cfg file buf offset).length = alignedLen cfg offset buf.length := by
  have h := leadLen_add_le cfg offset buf.length
  simp only [readBlocks]
  rw [Bytes.writeAt_length]
  split_ifs <;> simp <;> omega

/-- The patched scratch buffer: the payload, and around it the file as it was read. -/
theorem at'_readBlocks {b : Nat} (h : InBlocks cfg offset buf.length b) :
    (readBlocks cfg file buf offset).at' (b - alignedOffset cfg offset) =
      if offset ≤ b ∧ b < offset + buf.length then buf.at' (b - offset) else file.at' b := by
  have hoff := alignedOffset_add_leadLen cfg offset
  obtain ⟨hlo, hhi⟩ := h
  simp only [readBlocks]
  rw [Bytes.at'_writeAt]
  by_cases hp : offset ≤ b ∧ b < offset + buf.length
  · rw [if_pos hp, if_pos (by omega)]
    congr 1
    omega
  · rw [if_neg hp, if_neg (by omega)]
    -- outside the payload the blocks have been read
    have hread : leadLen cfg offset ≠ 0 ∨ alignedLen cfg offset buf.length ≠ buf.length := by
      omega
    rw [if_pos hread, Bytes.at'_readAt (by omega)]
    congr 1
    omega

theorem at'_writeBlocks {scratch : Bytes} {len : Nat}
    (hl : scratch.length = alignedLen cfg offset len) (b : Nat) :
    (writeBlocks cfg file scratch offset).at' b =
      if InBlocks cfg offset len b then scratch.at' (b - alignedOffset cfg offset)
      else file.at' b := by
  rw [writeBlocks, Bytes.at'_writeAt, hl]
  rfl

/-- Undisturbed, a write changes its payload's bytes and no others, direct or not. -/
theorem at'_writeAllAt (b : Nat) :
    (writeAllAt cfg file buf offset).at' b =
      if offset ≤ b ∧ b < offset + buf.length then buf.at' (b - offset) else file.at' b := by
  unfold writeAllAt
  cases cfg.enabled with
  | false => exact Bytes.at'_writeAt ..
  | true =>
      simp only [↓reduceIte]
      rw [at'_writeBlocks cfg file offset (readBlocks_length ..)]
      by_cases hb : InBlocks cfg offset buf.length b
      · rw [if_pos hb, at'_readBlocks cfg file buf offset hb]
      · rw [if_neg hb, if_neg fun hp => hb (inBlocks_of_payload cfg offset buf.length hp)]

theorem le_writeAllAt_length (hne : buf ≠ []) :
    max file.length (offset + buf.length) ≤ (writeAllAt cfg file buf offset).length := by
  have hoff := alignedOffset_add_leadLen cfg offset
  have hlead := leadLen_add_le cfg offset buf.length
  have hpos : 0 < buf.length := List.length_pos_iff.mpr hne
  unfold writeAllAt
  cases cfg.enabled with
  | false =>
      simp only [Bool.false_eq_true, ↓reduceIte]
      rw [Bytes.writeAt_length, if_neg hne]
  | true =>
      simp only [↓reduceIte]
      have hscratch := readBlocks_length cfg file buf offset
      have hne' : readBlocks cfg file buf offset ≠ [] :=
        List.ne_nil_of_length_pos (by omega)
      rw [writeBlocks, Bytes.writeAt_length, if_neg hne', hscratch]
      omega

theorem holds_writeAllAt (hne : buf ≠ []) :
    (writeAllAt cfg file buf offset).Holds offset buf := by
  have hlen := le_writeAllAt_length cfg file buf offset hne
  refine ⟨by omega, fun i hi => ?_⟩
  rw [at'_writeAllAt, if_pos (by omega), Nat.add_sub_cancel_left]

/-- A write leaves what stands below it in the file. -/
theorem holds_writeAllAt_of_le {a : Bytes} {off : Nat} (h : file.Holds off a) (hne : buf ≠ [])
    (hle : off + a.length ≤ offset) : (writeAllAt cfg file buf offset).Holds off a := by
  have hlen := le_writeAllAt_length cfg file buf offset hne
  refine ⟨le_trans h.1 (by omega), fun i hi => ?_⟩
  rw [at'_writeAllAt, if_neg (by omega), h.2 i hi]

/-- Fills a buffer; with direct I/O what lies past the end of the file is zero. -/
def readExactAt (path : String) (len : Nat) : AnnResult Bytes :=
  if cfg.enabled ∨ len = 0 ∨ offset + len ≤ file.length then .ok (file.readAt offset len)
  else .error (.index
    s!"Unexpected EOF while reading {path} at offset {max offset file.length}")

theorem readExactAt_of_holds {a : Bytes} {off : Nat} (h : file.Holds off a) (path : String) :
    readExactAt cfg file off path a.length = .ok a := by
  rw [readExactAt, if_pos (.inr (.inr h.1)), h.readAt]

end DirectIoFile
end ForgeANN
