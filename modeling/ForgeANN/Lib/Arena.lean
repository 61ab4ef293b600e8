-- SUMMARY: Regions of one list: reading a slice, overwriting one, and what a write leaves alone.
import Mathlib.Data.List.Basic
import Mathlib.Tactic.SplitIfs

/-!
# Arenas

Several lists kept in one: each has a region, and writes to one region are not
seen in another.
-/
namespace Lib

variable {α : Type} {arena new more : List α} {off off' n i : Nat}

/-- The `n` items from `off` on. -/
def slice (arena : List α) (off n : Nat) : List α := (arena.drop off).take n

/-- The arena with the items from `off` on overwritten. -/
def splice (arena : List α) (off : Nat) (new : List α) : List α :=
  arena.take off ++ new ++ arena.drop (off + new.length)

theorem length_slice (h : off + n ≤ arena.length) : (slice arena off n).length = n := by
  rw [slice, List.length_take, List.length_drop]
  exact Nat.min_eq_left (by omega)

theorem length_splice (h : off + new.length ≤ arena.length) :
    (splice arena off new).length = arena.length := by
  rw [splice, List.length_append, List.length_append, List.length_take, List.length_drop]
  omega

theorem getElem?_slice (i : Nat) :
    (slice arena off n)[i]? = if i < n then arena[off + i]? else none := by
  rw [slice, List.getElem?_take, List.getElem?_drop]

theorem getElem?_splice (h : off + new.length ≤ arena.length) (i : Nat) :
    (splice arena off new)[i]? =
      if i < off then arena[i]? else if i < off + new.length then new[i - off]? else arena[i]? := by
  have hlen : (arena.take off).length = off := by
    rw [List.length_take]
    omega
  rw [splice, List.append_assoc, List.getElem?_append, hlen]
  split_ifs with hbefore hin
  · rw [List.getElem?_take, if_pos hbefore]
  · rw [List.getElem?_append, if_pos (by omega)]
  · rw [List.getElem?_append, if_neg (by omega), List.getElem?_drop]
    congr 1
    omega

/-- What was written is read back. -/
theorem slice_splice_self (h : off + new.length ≤ arena.length) (n : Nat) (hn : n ≤ new.length) :
    slice (splice arena off new) off n = new.take n := by
  apply List.ext_getElem?
  intro i
  rw [getElem?_slice, List.getElem?_take]
  split_ifs with hi
  · rw [getElem?_splice h, if_neg (by omega), if_pos (by omega), Nat.add_sub_cancel_left]
  · rfl

/-- A write to another region is not seen. -/
theorem slice_splice_of_disjoint (h : off + new.length ≤ arena.length)
    (hdisjoint : off' + n ≤ off ∨ off + new.length ≤ off') :
    slice (splice arena off new) off' n = slice arena off' n := by
  apply List.ext_getElem?
  intro i
  rw [getElem?_slice, getElem?_slice]
  split_ifs with hi
  · rw [getElem?_splice h]
    split_ifs <;> first | rfl | omega
  · rfl

/-- Growing the arena leaves the regions alone. -/
theorem slice_append_left (h : off + n ≤ arena.length) (more : List α) :
    slice (arena ++ more) off n = slice arena off n := by
  apply List.ext_getElem?
  intro i
  rw [getElem?_slice, getElem?_slice]
  split_ifs with hi
  · exact List.getElem?_append_left (by omega)
  · rfl

theorem slice_append_right (n : Nat) : slice (arena ++ more) arena.length n = more.take n := by
  rw [slice, List.drop_left]

theorem slice_take {m : Nat} (h : m ≤ n) : (slice arena off n).take m = slice arena off m := by
  rw [slice, slice, List.take_take, Nat.min_eq_left h]

@[simp] theorem slice_zero : slice arena off 0 = [] := List.take_zero

end Lib
