-- SUMMARY: Saturating word arithmetic, and words that are an exact value capped at the largest word.
import Mathlib.Data.UInt
import Mathlib.Algebra.Order.Ring.Nat

/-!
# Saturating arithmetic

A computation of saturating sums and products yields its exact value, capped at
the largest word. So a result below the largest word is exact, and any bound on
the exact value bounds the word.
-/
namespace UInt64

/-- `usize::MAX` of a 64-bit target. -/
def maxNat : Nat := 2 ^ 64 - 1

def saturatingAdd (a b : UInt64) : UInt64 := .ofNat (min (a.toNat + b.toNat) maxNat)

def saturatingMul (a b : UInt64) : UInt64 := .ofNat (min (a.toNat * b.toNat) maxNat)

def saturatingSub (a b : UInt64) : UInt64 := .ofNat (a.toNat - b.toNat)

/-- `a.div_ceil(b)`. -/
def divCeil (a b : UInt64) : UInt64 := if a % b = 0 then a / b else a / b + 1

theorem toNat_le_maxNat (a : UInt64) : a.toNat ≤ maxNat := Nat.le_sub_one_of_lt a.toNat_lt

theorem toNat_ofNat_of_le {n : Nat} (h : n ≤ maxNat) : (UInt64.ofNat n).toNat = n :=
  UInt64.toNat_ofNat_of_lt' (Nat.lt_of_le_pred (by decide) h)

@[simp] theorem toNat_saturatingAdd (a b : UInt64) :
    (a.saturatingAdd b).toNat = min (a.toNat + b.toNat) maxNat :=
  toNat_ofNat_of_le (Nat.min_le_right _ _)

@[simp] theorem toNat_saturatingMul (a b : UInt64) :
    (a.saturatingMul b).toNat = min (a.toNat * b.toNat) maxNat :=
  toNat_ofNat_of_le (Nat.min_le_right _ _)

@[simp] theorem toNat_saturatingSub (a b : UInt64) :
    (a.saturatingSub b).toNat = a.toNat - b.toNat :=
  toNat_ofNat_of_le (Nat.le_trans (Nat.sub_le _ _) a.toNat_le_maxNat)

theorem toNat_divCeil (a : UInt64) {b : UInt64} (hb : 0 < b.toNat) :
    (a.divCeil b).toNat = (a.toNat + b.toNat - 1) / b.toNat := by
  have hdiv := Nat.div_add_mod a.toNat b.toNat
  have hmod := Nat.mod_lt a.toNat hb
  have hlt := a.toNat_lt
  rw [divCeil]
  split_ifs with h
  · have hzero : a.toNat % b.toNat = 0 := by
      rw [← UInt64.toNat_mod, h]
      rfl
    rw [UInt64.toNat_div]
    symm
    apply Nat.div_eq_of_lt_le
    · rw [Nat.mul_comm]
      omega
    · rw [Nat.succ_mul, Nat.mul_comm]
      omega
  · have hpos : a.toNat % b.toNat ≠ 0 := fun hzero => h (UInt64.toNat_inj.mp (by
      rw [UInt64.toNat_mod, hzero]
      rfl))
    have hone : a.toNat / b.toNat * 1 ≤ a.toNat / b.toNat * b.toNat := Nat.mul_le_mul_left _ hb
    rw [Nat.mul_comm _ b.toNat] at hone
    have hsmall : a.toNat / b.toNat + 1 < 2 ^ 64 := by omega
    rw [UInt64.toNat_add, UInt64.toNat_div]
    have hlit : (1 : UInt64).toNat = 1 := rfl
    rw [hlit, Nat.mod_eq_of_lt hsmall]
    symm
    apply Nat.div_eq_of_lt_le
    · rw [Nat.succ_mul, Nat.mul_comm]
      omega
    · rw [Nat.succ_mul, Nat.succ_mul, Nat.mul_comm]
      omega

/-! ## Capped values -/

/-- The word is `exact`, capped at the largest word. -/
def Capped (w : UInt64) (exact : Nat) : Prop := w.toNat = min exact maxNat

namespace Capped

variable {v w : UInt64} {m n : Nat}

theorem of_toNat (w : UInt64) : w.Capped w.toNat := (Nat.min_eq_left w.toNat_le_maxNat).symm

theorem le (h : w.Capped n) : w.toNat ≤ n := h.trans_le (Nat.min_le_left _ _)

/-- Below the largest word nothing was capped. -/
theorem eq_of_lt (h : w.Capped n) (hlt : w.toNat < maxNat) : w.toNat = n := by
  unfold Capped at h
  omega

theorem eq_of_le (h : w.Capped n) (hle : n ≤ maxNat) : w.toNat = n := h.trans (Nat.min_eq_left hle)

theorem add (hv : v.Capped m) (hw : w.Capped n) : (v.saturatingAdd w).Capped (m + n) := by
  unfold Capped at hv hw ⊢
  rw [toNat_saturatingAdd, hv, hw]
  omega

theorem mul (hv : v.Capped m) (hw : w.Capped n) : (v.saturatingMul w).Capped (m * n) := by
  unfold Capped at hv hw ⊢
  rw [toNat_saturatingMul, hv, hw]
  rcases Nat.eq_zero_or_pos m with rfl | hm
  · simp
  rcases Nat.eq_zero_or_pos n with rfl | hn
  · simp
  -- where a factor is capped both products are at least the cap
  rcases Nat.le_total m maxNat with hm' | hm'
  · rw [Nat.min_eq_left hm']
    rcases Nat.le_total n maxNat with hn' | hn'
    · rw [Nat.min_eq_left hn']
    · rw [Nat.min_eq_right hn', Nat.min_eq_right (Nat.le_mul_of_pos_left _ hm),
        Nat.min_eq_right (hn'.trans (Nat.le_mul_of_pos_left _ hm))]
  · have hpos : 0 < min n maxNat := Nat.lt_min.mpr ⟨hn, by decide⟩
    rw [Nat.min_eq_right hm', Nat.min_eq_right (Nat.le_mul_of_pos_right _ hpos),
      Nat.min_eq_right (hm'.trans (Nat.le_mul_of_pos_right _ hn))]

theorem max (hv : v.Capped m) (hw : w.Capped n) : (Max.max v w).Capped (Max.max m n) := by
  unfold Capped at hv hw ⊢
  rw [UInt64.toNat_max, hv, hw]
  omega

theorem mono (hv : v.Capped m) (hw : w.Capped n) (h : m ≤ n) : v.toNat ≤ w.toNat := by
  unfold Capped at hv hw
  omega

end Capped

end UInt64
