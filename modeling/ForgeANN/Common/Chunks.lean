-- SUMMARY: A list cut into chunks of one size, and a range of it.
import ForgeANN.Common.Basic
import Mathlib.Data.List.Basic

/-!
# Chunks and ranges
-/
namespace ForgeANN

/-- `&l[start..stop]`. -/
def indexRange {α : Type} (l : List α) (start stop : Nat) : AnnResult (List α) :=
  if stop < start then .error (.panic "slice index starts behind its end")
  else if l.length < stop then .error (.panic "range end index out of range for slice")
  else .ok ((l.take stop).drop start)

/-- `slice::chunks`. -/
def chunks {α : Type} (size : Nat) (l : List α) : List (List α) :=
  if l = [] ∨ size = 0 then [] else l.take size :: chunks size (l.drop size)
termination_by l.length
decreasing_by
  rename_i h
  have := List.length_pos_iff.mpr (not_or.mp h).1
  simp only [List.length_drop]
  omega

theorem chunks_flatten {α : Type} {size : Nat} (hsize : 0 < size) (l : List α) :
    (chunks size l).flatten = l := by
  induction l using chunks.induct size with
  | case1 l h =>
      rw [chunks, if_pos h]
      exact (h.resolve_right (by omega)).symm
  | case2 l h ih => rw [chunks, if_neg h, List.flatten_cons, ih, List.take_append_drop]

theorem mem_chunks {α : Type} {size : Nat} {l part : List α} (h : part ∈ chunks size l) :
    part ≠ [] ∧ part.length ≤ size := by
  induction l using chunks.induct size with
  | case1 l hnil =>
      rw [chunks, if_pos hnil] at h
      cases h
  | case2 l hnil ih =>
      rw [chunks, if_neg hnil] at h
      rcases List.mem_cons.mp h with rfl | h
      · refine ⟨?_, List.length_take_le ..⟩
        simpa [and_comm] using not_or.mp hnil
      · exact ih h

/-- All chunks but the last are full. -/
theorem length_of_chunks {α : Type} {size : Nat} {l part : List α} {i : Nat}
    (h : (chunks size l)[i]? = some part) (hnext : i + 1 < (chunks size l).length) :
    part.length = size := by
  induction l using chunks.induct size generalizing i with
  | case1 l hnil =>
      rw [chunks, if_pos hnil] at h
      cases h
  | case2 l hnil ih =>
      rw [chunks, if_neg hnil] at h hnext
      rw [List.length_cons] at hnext
      cases i with
      | zero =>
          cases h
          rw [List.length_take, Nat.min_eq_left]
          -- there is more behind the first chunk
          apply Nat.le_of_lt
          apply Nat.lt_of_not_le
          intro hle
          rw [List.drop_eq_nil_of_le hle, chunks, if_pos (.inl rfl), List.length_nil] at hnext
          omega
      | succ i =>
          rw [List.getElem?_cons_succ] at h
          exact ih h (by omega)

end ForgeANN
