-- SUMMARY: Bits of 64-bit words: masks of low bits, shifted masks, and the set bits taken off one by one.
import Mathlib.Data.Nat.Bitwise
import Mathlib.Data.List.Nodup

/-!
# Bit masks

A word is known by its bits. Taking the lowest set bit off with `x & (x - 1)`, as
long as there is one, gives the places of the set bits, each once.
-/
namespace Lib

/-- Whether the bit at a place of a word is set. -/
def bitAt (x : UInt64) (b : Nat) : Bool := x.toBitVec.getLsbD b

variable {x y : UInt64} {b n s : Nat}

theorem bitAt_toNat (x : UInt64) (b : Nat) : bitAt x b = x.toNat.testBit b := rfl

theorem bitAt_of_ge (h : 64 ≤ b) : bitAt x b = false := BitVec.getLsbD_of_ge _ _ h

theorem bitAt_and (x y : UInt64) (b : Nat) : bitAt (x &&& y) b = (bitAt x b && bitAt y b) := by
  rw [bitAt, UInt64.toBitVec_and, BitVec.getLsbD_and, bitAt, bitAt]

theorem bitAt_and_not (x y : UInt64) (b : Nat) :
    bitAt (x &&& ~~~y) b = (bitAt x b && !bitAt y b) := by
  rw [bitAt_and, bitAt, bitAt, bitAt, UInt64.toBitVec_not, BitVec.getLsbD_not]
  by_cases hb : b < 64
  · rw [decide_eq_true hb, Bool.true_and]
  · rw [BitVec.getLsbD_of_ge _ _ (not_lt.mp hb), Bool.false_and, Bool.false_and]

theorem toNat_shiftLeft (x : UInt64) (hs : s < 64) :
    (x <<< UInt64.ofNat s).toNat = (x.toNat <<< s) % 2 ^ 64 := by
  rw [UInt64.toNat_shiftLeft, UInt64.toNat_ofNat', Nat.mod_eq_of_lt (by omega : s < 2 ^ 64),
    Nat.mod_eq_of_lt hs]

theorem bitAt_shiftLeft (x : UInt64) (hs : s < 64) (b : Nat) :
    bitAt (x <<< UInt64.ofNat s) b = (decide (b < 64) && decide (s ≤ b) && bitAt x (b - s)) := by
  rw [bitAt_toNat, toNat_shiftLeft x hs, Nat.testBit_mod_two_pow, Nat.testBit_shiftLeft,
    Bool.and_assoc]
  rfl

theorem toNat_one_shiftLeft (hn : n < 64) : ((1 : UInt64) <<< UInt64.ofNat n).toNat = 2 ^ n := by
  rw [toNat_shiftLeft 1 hn, Nat.shiftLeft_eq, UInt64.toNat_one, Nat.one_mul]
  exact Nat.mod_eq_of_lt (Nat.pow_lt_pow_right (by decide) hn)

theorem bitAt_one_shiftLeft (hn : n < 64) (b : Nat) :
    bitAt ((1 : UInt64) <<< UInt64.ofNat n) b = decide (n = b) := by
  rw [bitAt_toNat, toNat_one_shiftLeft hn, Nat.testBit_two_pow]

/-- The mask of the lowest bits. -/
theorem bitAt_one_shiftLeft_sub_one (hn : n < 64) (b : Nat) :
    bitAt (((1 : UInt64) <<< UInt64.ofNat n) - 1) b = decide (b < n) := by
  have hle : (1 : UInt64) ≤ (1 : UInt64) <<< UInt64.ofNat n := by
    rw [UInt64.le_iff_toNat_le, toNat_one_shiftLeft hn, UInt64.toNat_one]
    exact Nat.one_le_two_pow
  rw [bitAt_toNat, UInt64.toNat_sub_of_le _ _ hle, toNat_one_shiftLeft hn, UInt64.toNat_one,
    Nat.testBit_two_pow_sub_one]

/-! ## The set bits -/

theorem testBit_and_pred {m t : Nat} (ht : m.testBit t = true) (hlow : ∀ j < t, m.testBit j = false)
    (j : Nat) : (m &&& (m - 1)).testBit j = (m.testBit j && decide (j ≠ t)) := by
  rw [Nat.testBit_and]
  induction t generalizing m j with
  | zero =>
      rw [Nat.testBit_zero, decide_eq_true_eq] at ht
      cases j with
      | zero =>
          have hpred : (m - 1) % 2 ≠ 1 := by omega
          rw [Nat.testBit_zero (x := m - 1), decide_eq_false hpred, Bool.and_false]
          exact (Bool.and_false _).symm
      | succ j =>
          have hhalf : (m - 1) / 2 = m / 2 := by omega
          rw [Nat.testBit_succ (m - 1), hhalf, ← Nat.testBit_succ, Bool.and_self,
            decide_eq_true (Nat.succ_ne_zero j), Bool.and_true]
  | succ t ih =>
      have heven : m % 2 ≠ 1 := by
        have hzero := hlow 0 (Nat.succ_pos t)
        rwa [Nat.testBit_zero, decide_eq_false_iff_not] at hzero
      cases j with
      | zero => rw [hlow 0 (Nat.succ_pos t), Bool.false_and, Bool.false_and]
      | succ j =>
          -- an even number goes down where its half does
          have hhalf : (m - 1) / 2 = m / 2 - 1 := by omega
          rw [Nat.testBit_succ] at ht
          rw [Nat.testBit_succ, Nat.testBit_succ, hhalf, ih ht fun i hi => by
            rw [← Nat.testBit_succ]
            exact hlow (i + 1) (Nat.succ_lt_succ hi)]
          congr 1
          rw [decide_eq_decide]
          omega

/-- `while x != 0`: `x.trailing_zeros()`, and `x &= x - 1`. -/
def setBits (x : UInt64) : List Nat :=
  if x = 0 then [] else x.toBitVec.ctz.toNat :: setBits (x &&& (x - 1))
termination_by x.toNat
decreasing_by
  rename_i h
  have hpos : x.toNat ≠ 0 := fun hzero => h (UInt64.toNat_inj.mp hzero)
  have hone : (1 : UInt64) ≤ x := by
    rw [UInt64.le_iff_toNat_le, UInt64.toNat_one]
    omega
  rw [UInt64.toNat_and, UInt64.toNat_sub_of_le _ _ hone, UInt64.toNat_one]
  have := @Nat.and_le_right x.toNat (x.toNat - 1)
  omega

theorem bitAt_lowest (h : x ≠ 0) : bitAt x x.toBitVec.ctz.toNat = true :=
  BitVec.getLsbD_true_ctz_of_ne_zero fun hzero => h (UInt64.toBitVec_inj.mp hzero)

theorem bitAt_clearLowest (h : x ≠ 0) (b : Nat) :
    bitAt (x &&& (x - 1)) b = (bitAt x b && decide (b ≠ x.toBitVec.ctz.toNat)) := by
  have hpos : x.toNat ≠ 0 := fun hzero => h (UInt64.toNat_inj.mp hzero)
  have hone : (1 : UInt64) ≤ x := by
    rw [UInt64.le_iff_toNat_le, UInt64.toNat_one]
    omega
  rw [bitAt_toNat, UInt64.toNat_and, UInt64.toNat_sub_of_le _ _ hone, UInt64.toNat_one]
  exact testBit_and_pred (bitAt_lowest h) (fun j hj => BitVec.getLsbD_false_of_lt_ctz hj) b

theorem mem_setBits (x : UInt64) (b : Nat) : b ∈ setBits x ↔ bitAt x b = true := by
  induction x using setBits.induct with
  | case1 =>
      rw [setBits, if_pos rfl, bitAt, UInt64.toBitVec_zero, BitVec.getLsbD_zero]
      exact ⟨fun h => (nomatch h), fun h => (nomatch h)⟩
  | case2 x h ih =>
      rw [setBits, if_neg h, List.mem_cons, ih, bitAt_clearLowest h, Bool.and_eq_true,
        decide_eq_true_eq]
      constructor
      · rintro (rfl | ⟨hb, -⟩)
        · exact bitAt_lowest h
        · exact hb
      · intro hb
        by_cases heq : b = x.toBitVec.ctz.toNat
        · exact .inl heq
        · exact .inr ⟨hb, heq⟩

theorem setBits_nodup (x : UInt64) : (setBits x).Nodup := by
  induction x using setBits.induct with
  | case1 =>
      rw [setBits, if_pos rfl]
      exact List.nodup_nil
  | case2 x h ih =>
      rw [setBits, if_neg h, List.nodup_cons, mem_setBits, bitAt_clearLowest h, Bool.and_eq_true,
        decide_eq_true_eq]
      exact ⟨fun hin => hin.2 rfl, ih⟩

end Lib
