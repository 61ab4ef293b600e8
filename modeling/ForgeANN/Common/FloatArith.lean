-- SUMMARY: The `f32` arithmetic of the crate: sums, products, quotients and the larger of two values.
import ForgeANN.Common.Float

/-!
# Single-precision arithmetic

The operations are those of IEEE 754 on the bit patterns. `f32::max` passes over
a NaN, so the larger of two values is above a bound when one of them is.
-/
namespace ForgeANN

namespace F32

def add (a b : F32) : F32 := ⟨(Float32.ofBits a.bits + Float32.ofBits b.bits).toBits⟩

def sub (a b : F32) : F32 := ⟨(Float32.ofBits a.bits - Float32.ofBits b.bits).toBits⟩

def mul (a b : F32) : F32 := ⟨(Float32.ofBits a.bits * Float32.ofBits b.bits).toBits⟩

def div (a b : F32) : F32 := ⟨(Float32.ofBits a.bits / Float32.ofBits b.bits).toBits⟩

/-- `f32::max`: a NaN is passed over. -/
def max (a b : F32) : F32 := if a.isNaN then b else if b.isNaN then a else if a.lt b then b else a

/-- `f32::MAX`. -/
def maxValue : F32 := ⟨0x7f7fffff⟩

variable {a b c : F32}

theorem isNaN_max_right (hb : b.isNaN = false) : (a.max b).isNaN = false := by
  rw [max]
  split_ifs with ha
  · exact hb
  · exact Bool.not_eq_true _ ▸ ha
  · exact hb
  · exact Bool.not_eq_true _ ▸ ha

/-- The larger value is above a bound when one of the two is. -/
theorem lt_max (a b c : F32) : c.lt (a.max b) = (c.lt a || c.lt b) := by
  rw [Bool.eq_iff_iff, Bool.or_eq_true, max]
  split_ifs with ha hb hlt
  · simp [lt, ha]
  · simp [lt, hb]
  · rw [lt_iff, lt_iff]
    rw [lt_iff] at hlt
    constructor
    · exact .inr
    · rintro (⟨hc, -, h⟩ | h)
      · exact ⟨hc, hlt.2.1, h.trans hlt.2.2⟩
      · exact h
  · rw [lt_iff, lt_iff]
    rw [lt_iff] at hlt
    rw [Bool.not_eq_true] at ha hb
    constructor
    · exact .inl
    · rintro (h | ⟨hc, -, h⟩)
      · exact h
      · refine ⟨hc, ha, lt_of_lt_of_le h ?_⟩
        by_contra hba
        exact hlt ⟨ha, hb, not_le.mp hba⟩

end F32

end ForgeANN
