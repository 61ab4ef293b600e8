-- SUMMARY: The crate's error type and the order of point ids.
import Mathlib.Algebra.GroupWithZero.Nat
import Mathlib.Data.UInt
import Mathlib.Order.Defs.LinearOrder
import Mathlib.Order.Lattice

/-!
# Errors and point ids
-/
namespace ForgeANN

/-- The I/O failures the modelled code can run into by itself. -/
inductive IoErrorKind where
  | notFound
  | unexpectedEof
deriving DecidableEq, Repr

/-- `AnnError`, with the aborts of the modelled code as `panic`. -/
inductive AnnError where
  | index (err : String)
  | io (err : IoErrorKind)
  | panic (msg : String)
deriving DecidableEq, Repr

abbrev AnnResult := Except AnnError

/-- Point ids are `u32`s, compared as numbers. -/
instance instLinearOrderUInt32 : LinearOrder UInt32 where
  le_refl := UInt32.le_refl
  le_trans _ _ _ := UInt32.le_trans
  le_antisymm _ _ := UInt32.le_antisymm
  le_total := UInt32.le_total
  lt_iff_le_not_ge a b := by
    simp only [UInt32.lt_iff_toNat_lt, UInt32.le_iff_toNat_le]
    omega
  toDecidableLE := inferInstance
  toDecidableEq := inferInstance
  toDecidableLT := inferInstance

instance instLawfulBEqUInt32 : LawfulBEq UInt32 := inferInstance

end ForgeANN
