-- SUMMARY: A list of rows, updated one row at a time: each row sees its own updates only.
import Mathlib.Data.List.Basic

/-!
# Rows

Updates that each change one row of a list: a row ends up as its own updates,
in their order, leave it.
-/
namespace Lib

variable {σ ι : Type}

theorem eq_mapIdx {α β : Type} {l : List β} {rows : List α} {f : Nat → α → β}
    (h : ∀ s, l[s]? = rows[s]?.map (f s)) : l = rows.mapIdx f := by
  apply List.ext_getElem?
  intro s
  rw [List.getElem?_mapIdx, h]

theorem eq_mapIdx_self {rows : List σ} {f : Nat → σ → σ} (h : ∀ s row, f s row = row) :
    rows = rows.mapIdx f := by
  apply eq_mapIdx
  intro s
  cases rows[s]? with
  | none => rfl
  | some row => exact (congrArg some (h s row)).symm

theorem foldl_modify (place : ι → Nat) (f : ι → σ → σ) (items : List ι) (rows : List σ) :
    items.foldl (fun rows item => rows.modify (place item) (f item)) rows =
      rows.mapIdx fun s row =>
        (items.filter fun item => place item = s).foldl (fun row item => f item row) row := by
  induction items generalizing rows with
  | nil => exact eq_mapIdx_self fun _ _ => rfl
  | cons item items ih =>
      rw [List.foldl_cons, ih]
      apply List.ext_getElem?
      intro s
      rw [List.getElem?_mapIdx, List.getElem?_mapIdx, List.getElem?_modify]
      cases rows[s]? with
      | none => rfl
      | some row =>
          by_cases h : place item = s
          · rw [List.filter_cons_of_pos (by simpa using h)]
            simp [h]
          · rw [List.filter_cons_of_neg (by simpa using h)]
            simp [h]

/-- Where there is no row, there is nothing to update. -/
theorem modify_of_none {rows : List σ} {s : Nat} (h : rows[s]? = none) (f : σ → σ) :
    rows.modify s f = rows := by
  apply List.ext_getElem?
  intro t
  rw [List.getElem?_modify]
  by_cases ht : s = t
  · rw [← ht, h]
    rfl
  · simp [ht]

theorem modify_of_some {rows : List σ} {s : Nat} {row : σ} (h : rows[s]? = some row) (f : σ → σ) :
    rows.modify s f = rows.set s (f row) := by
  apply List.ext_getElem?
  intro t
  rw [List.getElem?_modify]
  by_cases ht : s = t
  · rw [← ht, h, List.getElem?_set_self (List.getElem?_eq_some_iff.mp h).1]
    simp
  · rw [List.getElem?_set_ne ht]
    simp [ht]

end Lib
