-- SUMMARY: Bit-level `f32` with the IEEE comparisons the crate uses, and its truncation to `bf16`.
import Mathlib.Algebra.GroupWithZero.Nat
import Mathlib.Data.List.Basic
import Mathlib.Order.Lattice
import Mathlib.Tactic.SplitIfs

/-!
# Single-precision values and their `bf16` truncation

Distances travel through the crate as `f32` and are stored as `bf16`. Only
comparisons and the truncation matter for what is kept, so a value is its bit
pattern, and the comparisons are read off the sign and the magnitude.
-/
namespace ForgeANN

/-- A Rust `f32`, as its bit pattern. -/
structure F32 where
  bits : UInt32
deriving DecidableEq, Repr

namespace F32

/-- The bits below the sign. -/
def mag (v : F32) : Nat := v.bits.toNat % 2 ^ 31

/-- A magnitude above that of infinity encodes a NaN. -/
def isNaN (v : F32) : Bool := 0x7f800000 < v.mag

/-- The position of a value on the number line; both zeros sit at `0`. -/
def key (v : F32) : Int := if v.bits.toNat < 2 ^ 31 then v.mag else -v.mag

/-- Rust's `a < b`: false as soon as one side is a NaN. -/
def lt (a b : F32) : Bool := !a.isNaN && !b.isNaN && decide (a.key < b.key)

/-- Rust's `a >= b`. -/
def ge (a b : F32) : Bool := !a.isNaN && !b.isNaN && decide (b.key ≤ a.key)

/-- Rust's `a == b`: a NaN equals nothing, and the two zeros are equal. -/
def eq (a b : F32) : Bool := !a.isNaN && !b.isNaN && decide (a.key = b.key)

/-- `0.0f32`. -/
def zero : F32 := ⟨0⟩

theorem isNaN_iff {v : F32} : v.isNaN = true ↔ 0x7f800000 < v.mag := by
  simp [isNaN]

theorem lt_iff {a b : F32} :
    a.lt b = true ↔ a.isNaN = false ∧ b.isNaN = false ∧ a.key < b.key := by
  simp [lt, and_assoc]

theorem ge_iff {a b : F32} :
    a.ge b = true ↔ a.isNaN = false ∧ b.isNaN = false ∧ b.key ≤ a.key := by
  simp [ge, and_assoc]

theorem eq_iff {a b : F32} :
    a.eq b = true ↔ a.isNaN = false ∧ b.isNaN = false ∧ a.key = b.key := by
  simp [eq, and_assoc]

theorem eq_comm {a b : F32} : a.eq b = b.eq a := by
  rw [Bool.eq_iff_iff, eq_iff, eq_iff]
  constructor <;> rintro ⟨h₁, h₂, h₃⟩ <;> exact ⟨h₂, h₁, h₃.symm⟩

/-! ## The total order -/

/-- What `total_cmp` compares: the sign, and then the magnitude. -/
def totalKey (v : F32) : Int := if v.bits.toNat < 2 ^ 31 then v.mag else -1 - v.mag

theorem totalKey_injective : Function.Injective totalKey := by
  intro a b h
  have ha := a.bits.toNat_lt
  have hb := b.bits.toNat_lt
  have hbits : a.bits.toNat = b.bits.toNat := by
    unfold totalKey mag at h
    split_ifs at h <;> omega
  exact congrArg F32.mk (UInt32.toNat_inj.mp hbits)

/-- Values in the order of `total_cmp`. -/
instance : LinearOrder F32 := LinearOrder.lift' totalKey totalKey_injective

theorem le_iff_totalKey {a b : F32} : a ≤ b ↔ a.totalKey ≤ b.totalKey := Iff.rfl

/-- `f32::INFINITY`. -/
def infinity : F32 := ⟨0x7f800000⟩

/-- `f32::min`: a NaN is passed over, and of two zeros the negative one is taken. -/
def min (a b : F32) : F32 := if a.isNaN then b else if b.isNaN then a else a ⊓ b

/-- The distance that counts: that of a NaN is `+∞`. -/
def capped (v : F32) : F32 := infinity.min v

theorem min_of_numbers {a b : F32} (ha : a.isNaN = false) (hb : b.isNaN = false) :
    a.min b = a ⊓ b := by
  simp [min, ha, hb]

theorem isNaN_inf {a b : F32} (ha : a.isNaN = false) (hb : b.isNaN = false) :
    (a ⊓ b).isNaN = false := by
  rcases le_total a b with h | h
  · rwa [inf_eq_left.mpr h]
  · rwa [inf_eq_right.mpr h]

theorem isNaN_infinity : infinity.isNaN = false := by decide

theorem le_infinity {v : F32} (h : v.isNaN = false) : v ≤ infinity := by
  rw [le_iff_totalKey]
  rw [← Bool.not_eq_true, isNaN_iff] at h
  have hinf : infinity.totalKey = 0x7f800000 := by decide
  rw [hinf, totalKey]
  split_ifs <;> omega

theorem capped_of_isNaN {v : F32} (h : v.isNaN = true) : v.capped = infinity := by
  rw [capped, min, isNaN_infinity, if_neg Bool.false_ne_true, if_pos h]

theorem capped_of_number {v : F32} (h : v.isNaN = false) : v.capped = v := by
  rw [capped, min_of_numbers isNaN_infinity h]
  exact inf_eq_right.mpr (le_infinity h)

theorem isNaN_capped (v : F32) : v.capped.isNaN = false := by
  cases h : v.isNaN with
  | true => rw [capped_of_isNaN h, isNaN_infinity]
  | false => rw [capped_of_number h, h]

theorem capped_capped (v : F32) : v.capped.capped = v.capped := capped_of_number (isNaN_capped v)

/-- For a number, `min` is the infimum with what counts of the other value. -/
theorem min_eq_inf_capped {a : F32} (h : a.isNaN = false) (v : F32) : a.min v = a ⊓ v.capped := by
  cases hv : v.isNaN with
  | true =>
      rw [min, h, if_neg Bool.false_ne_true, if_pos hv, capped_of_isNaN hv]
      exact (inf_eq_left.mpr (le_infinity h)).symm
  | false => rw [min_of_numbers h hv, capped_of_number hv]

end F32

/-! ## Truncation to `bf16` -/

/-- A `bf16`: the upper half of an `f32`. -/
structure BFloat16 where
  bits : UInt16
deriving DecidableEq, Repr

namespace BFloat16

/-- Drop the low 16 bits. -/
def fromF32 (v : F32) : BFloat16 := ⟨(v.bits >>> 16).toUInt16⟩

/-- Pad with 16 zero bits. -/
def toF32 (b : BFloat16) : F32 := ⟨b.bits.toUInt32 <<< 16⟩

/-- `f32::INFINITY` as a `bf16`. -/
def infinity : BFloat16 := ⟨0x7f80⟩

theorem fromF32_bits (v : F32) : (fromF32 v).bits.toNat = v.bits.toNat / 65536 := by
  have h : v.bits.toNat < 4294967296 := v.bits.toNat_lt
  simp only [fromF32, UInt32.toNat_toUInt16, UInt32.toNat_shiftRight,
    Nat.shiftRight_eq_div_pow, UInt32.reduceToNat, Nat.reduceMod, Nat.reducePow]
  omega

theorem toF32_bits (b : BFloat16) : b.toF32.bits.toNat = b.bits.toNat * 65536 := by
  have h : b.bits.toNat < 65536 := b.bits.toNat_lt
  simp only [toF32, UInt32.toNat_shiftLeft, UInt16.toNat_toUInt32, Nat.shiftLeft_eq,
    UInt32.reduceToNat, Nat.reduceMod, Nat.reducePow]
  omega

end BFloat16

namespace F32

/-- The value a reservoir remembers of a distance. -/
def truncated (v : F32) : F32 := (BFloat16.fromF32 v).toF32

theorem truncated_bits (v : F32) : v.truncated.bits.toNat = v.bits.toNat / 65536 * 65536 := by
  rw [truncated, BFloat16.toF32_bits, BFloat16.fromF32_bits]

/-- Truncation moves a value towards zero, so it never makes a NaN. -/
theorem isNaN_of_truncated {v : F32} (h : v.truncated.isNaN = true) : v.isNaN = true := by
  have hmod : v.bits.toNat / 65536 * 65536 % 2 ^ 31 = v.bits.toNat / 65536 % 32768 * 65536 :=
    Nat.mul_mod_mul_right 65536 _ 32768
  rw [isNaN_iff] at h ⊢
  simp only [mag, truncated_bits, hmod] at h ⊢
  omega

/-- For a number, comparing it with a stored distance it does not truncate to
is comparing the stored distances. -/
theorem lt_iff_truncated_key_lt {v : F32} {b : BFloat16} (hv : v.isNaN = false)
    (hb : b.toF32.isNaN = false) (hne : v.truncated.key ≠ b.toF32.key) :
    v.lt b.toF32 = true ↔ v.truncated.key < b.toF32.key := by
  rw [lt_iff]
  have hv' := v.bits.toNat_lt
  have hb' := b.bits.toNat_lt
  simp only [hv, hb, true_and]
  simp only [key, mag, truncated_bits, BFloat16.toF32_bits] at hne ⊢
  split_ifs at hne ⊢ <;> omega

/-- A NaN whose truncation is not `+∞`: it is below no stored distance, and no
distance is below what is stored of it. -/
def Blocking (v : F32) : Prop := v.isNaN = true ∧ BFloat16.fromF32 v ≠ BFloat16.infinity

instance (v : F32) : Decidable v.Blocking := inferInstanceAs (Decidable (_ ∧ _))

theorem lt_of_isNaN {v w : F32} (h : v.isNaN = true) : v.lt w = false := by
  simp [lt, h]

theorem lt_truncated_of_blocking {v : F32} (h : v.Blocking) (w : F32) :
    w.lt v.truncated = false := by
  obtain ⟨hnan, hinf⟩ := h
  by_contra hlt
  rw [Bool.not_eq_false, lt_iff] at hlt
  obtain ⟨hw, ht, hkey⟩ := hlt
  have hbits : v.bits.toNat / 65536 ≠ 0x7f80 := by
    intro heq
    have htoNat : (BFloat16.fromF32 v).bits.toNat = BFloat16.infinity.bits.toNat := by
      rw [BFloat16.fromF32_bits, heq]
      rfl
    exact hinf (congrArg BFloat16.mk (UInt16.toNat_inj.mp htoNat))
  have hv := v.bits.toNat_lt
  have hwb := w.bits.toNat_lt
  have hmod : v.bits.toNat / 65536 * 65536 % 2 ^ 31 = v.bits.toNat / 65536 % 32768 * 65536 :=
    Nat.mul_mod_mul_right 65536 _ 32768
  rw [isNaN_iff] at hnan
  rw [← Bool.not_eq_true, isNaN_iff] at hw ht
  simp only [key, mag, truncated_bits, hmod] at hnan hw ht hkey
  split_ifs at hkey <;> omega

/-- What is stored of a value that does not block is a number. -/
theorem truncated_isNaN_of_not_blocking {v : F32} (h : ¬ v.Blocking) :
    v.truncated.isNaN = false := by
  cases ht : v.truncated.isNaN with
  | false => rfl
  | true =>
      have hinf : BFloat16.fromF32 v = BFloat16.infinity := by
        by_contra hne
        exact h ⟨isNaN_of_truncated ht, hne⟩
      rw [truncated, hinf] at ht
      exact absurd ht (by decide)

/-- Unless it blocks, a value compares with a different stored number as its
own stored value does. -/
theorem lt_iff_of_not_blocking {v : F32} {b : BFloat16} (h : ¬ v.Blocking)
    (hb : b.toF32.isNaN = false) (hne : v.truncated.key ≠ b.toF32.key) :
    v.lt b.toF32 = true ↔ v.truncated.key < b.toF32.key := by
  cases hv : v.isNaN with
  | false => exact lt_iff_truncated_key_lt hv hb hne
  | true =>
      -- only `+∞` is left, and nothing is above it
      have hinf : BFloat16.fromF32 v = BFloat16.infinity := by
        by_contra h'
        exact h ⟨hv, h'⟩
      have hkey : v.truncated.key = 0x7f800000 := by rw [truncated, hinf]; decide
      rw [lt_of_isNaN hv, hkey]
      rw [← Bool.not_eq_true, isNaN_iff] at hb
      simp only [Bool.false_eq_true, false_iff, Int.not_lt, key]
      split_ifs <;> omega

end F32

/-! ## Double-precision values -/

/-- `n as f64`. -/
def asF64 (n : Nat) : Float := (UInt64.ofNat n).toFloat

/-- `x.round() as usize`: halves go up, and what does not fit saturates. -/
def roundToUsize (x : Float) : Nat :=
  let whole := x.toUInt64
  if 0.5 ≤ x - whole.toFloat then min (whole.toNat + 1) (2 ^ 64 - 1) else whole.toNat

end ForgeANN
