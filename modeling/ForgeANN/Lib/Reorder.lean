-- SUMMARY: A map from sequence numbers to what has arrived for them, taken out in order.
import Mathlib.Data.List.Basic

/-!
# Reorder buffers

Results that arrive in any order wait under their sequence number until it is
their turn.
-/
namespace Lib

/-- An ordered map keyed by sequence numbers. -/
abbrev Pending (β : Type) := List (Nat × β)

namespace Pending

variable {β : Type} {pending : Pending β} {seq : Nat} {item : β}

/-- `insert`: the new item replaces one of the same number. -/
def put (pending : Pending β) (seq : Nat) (item : β) : Pending β :=
  (seq, item) :: pending.filter fun entry => entry.1 ≠ seq

/-- `remove`: the item of a number and what is left. -/
def take? (pending : Pending β) (seq : Nat) : Option (β × Pending β) :=
  (pending.find? fun entry => entry.1 = seq).map fun entry =>
    (entry.2, pending.filter fun entry => entry.1 ≠ seq)

theorem mem_put {entry : Nat × β} (h : entry ∈ pending.put seq item) :
    entry = (seq, item) ∨ entry ∈ pending := by
  rcases List.mem_cons.mp h with h | h
  · exact .inl h
  · exact .inr (List.mem_filter.mp h).1

theorem length_put_le (pending : Pending β) (seq : Nat) (item : β) :
    (pending.put seq item).length ≤ pending.length + 1 :=
  Nat.succ_le_succ (List.length_filter_le ..)

theorem take?_eq_some {rest : Pending β} (h : pending.take? seq = some (item, rest)) :
    (seq, item) ∈ pending ∧ ∀ entry ∈ rest, entry ∈ pending := by
  obtain ⟨entry, hfind, hentry⟩ := Option.map_eq_some_iff.mp h
  cases hentry
  have hseq : entry.1 = seq := by simpa using List.find?_some hfind
  exact ⟨hseq ▸ List.mem_of_find?_eq_some hfind, fun e he => (List.mem_filter.mp he).1⟩

theorem length_lt_of_take? {rest : Pending β} (h : pending.take? seq = some (item, rest)) :
    rest.length < pending.length := by
  obtain ⟨entry, hfind, hentry⟩ := Option.map_eq_some_iff.mp h
  cases hentry
  refine List.length_filter_lt_length_iff_exists.mpr ⟨entry, List.mem_of_find?_eq_some hfind, ?_⟩
  simpa using List.find?_some hfind

theorem take?_eq_none : pending.take? seq = none ↔ seq ∉ pending.map Prod.fst := by
  rw [take?, Option.map_eq_none_iff, List.find?_eq_none]
  constructor
  · intro h hmem
    obtain ⟨entry, hentry, heq⟩ := List.mem_map.mp hmem
    exact h entry hentry (decide_eq_true heq)
  · intro h entry hentry heq
    exact h (List.mem_map.mpr ⟨entry, hentry, of_decide_eq_true heq⟩)

theorem filter_of_not_mem (h : seq ∉ pending.map Prod.fst) :
    pending.filter (fun entry => entry.1 ≠ seq) = pending := by
  rw [List.filter_eq_self]
  intro entry hentry
  exact decide_eq_true fun heq => h (List.mem_map.mpr ⟨entry, hentry, heq⟩)

theorem put_of_not_mem (h : seq ∉ pending.map Prod.fst) :
    pending.put seq item = (seq, item) :: pending := by
  rw [put, filter_of_not_mem h]

/-- With one item to a number, what is left is all the rest. -/
theorem take?_perm {rest : Pending β} (hnodup : (pending.map Prod.fst).Nodup)
    (h : pending.take? seq = some (item, rest)) : pending.Perm ((seq, item) :: rest) := by
  obtain ⟨entry, hfind, hentry⟩ := Option.map_eq_some_iff.mp h
  cases hentry
  have hseq : entry.1 = seq := by simpa using List.find?_some hfind
  subst hseq
  obtain ⟨front, tail, rfl⟩ := List.append_of_mem (List.mem_of_find?_eq_some hfind)
  have hperm : (front ++ entry :: tail).Perm (entry :: (front ++ tail)) := List.perm_middle
  have hmap := (hperm.map Prod.fst).nodup_iff.mp hnodup
  rw [List.map_cons, List.nodup_cons] at hmap
  rw [List.filter_append, List.filter_cons_of_neg (by simp), ← List.filter_append,
    filter_of_not_mem hmap.1]
  exact hperm

end Pending

end Lib
