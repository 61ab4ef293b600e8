-- SUMMARY: A list as slots of one width: reading a slot, filling a slot.
import ForgeANN.Lib.ByteFile
import Mathlib.Tactic.Common

/-!
# Slots of one width
-/
namespace Lib

variable {α : Type}

def slot (width : Nat) (l : List α) (p : Nat) : List α := (l.drop (p * width)).take width

def setSlot (width : Nat) (l : List α) (p : Nat) (row : List α) : List α :=
  l.take (p * width) ++ row ++ l.drop (p * width + width)

variable {width n p q : Nat} {l row : List α}

theorem slot_bound (width : Nat) (h : p < n) : p * width + width ≤ n * width := by
  rw [← Nat.succ_mul]
  exact Nat.mul_le_mul_right width h

theorem setSlot_length (hl : l.length = n * width) (hp : p < n) (hrow : row.length = width) :
    (setSlot width l p row).length = n * width := by
  have hle := slot_bound width hp
  simp only [setSlot, List.length_append, List.length_take, List.length_drop]
  omega

theorem slot_setSlot_self (hl : l.length = n * width) (hp : p < n) (hrow : row.length = width) :
    slot width (setSlot width l p row) p = row := by
  have hle := slot_bound width hp
  have htake : (l.take (p * width)).length = p * width := List.length_take_of_le (by omega)
  rw [slot, setSlot, List.append_assoc, List.drop_append_of_le_length (Nat.le_of_eq htake.symm),
    List.drop_of_length_le (Nat.le_of_eq htake), List.nil_append,
    List.take_append_of_le_length (Nat.le_of_eq hrow.symm), List.take_of_length_le (Nat.le_of_eq hrow)]

theorem slot_getElem? (i : Nat) :
    (slot width l p)[i]? = if i < width then l[p * width + i]? else none := by
  rw [slot, List.getElem?_take, List.getElem?_drop]

theorem slot_getD {i : Nat} (hi : i < width) (d : α) :
    (slot width l p).getD i d = l.getD (p * width + i) d := by
  rw [List.getD_eq_getElem?_getD, List.getD_eq_getElem?_getD, slot_getElem?, if_pos hi]

theorem slot_setSlot_of_ne (hl : l.length = n * width) (hp : p < n) (hrow : row.length = width)
    (hne : q ≠ p) : slot width (setSlot width l p row) q = slot width l q := by
  have hle := slot_bound width hp
  have htake : (l.take (p * width)).length = p * width := List.length_take_of_le (by omega)
  apply List.ext_getElem?
  intro i
  rw [slot_getElem?, slot_getElem?]
  split_ifs with hi
  · rw [setSlot, List.append_assoc]
    rcases Nat.lt_or_gt_of_ne hne with hlt | hgt
    · have hbefore := slot_bound width hlt
      rw [List.getElem?_append_left (by omega), List.getElem?_take_of_lt (by omega)]
    · have hbehind := slot_bound width hgt
      rw [List.getElem?_append_right (by omega), List.getElem?_append_right (by omega),
        List.getElem?_drop]
      congr 1
      omega
  · rfl

/-- A list is its slots. -/
theorem flatMap_slot (hl : l.length = n * width) : (List.range n).flatMap (slot width l) = l := by
  have htake : ∀ m, (List.range m).flatMap (slot width l) = l.take (m * width) := by
    intro m
    induction m with
    | zero => rw [List.range_zero, List.flatMap_nil, Nat.zero_mul, List.take_zero]
    | succ m ih =>
        rw [List.range_succ, List.flatMap_append, List.flatMap_singleton, ih, slot, Nat.succ_mul,
          ← List.take_add]
  rw [htake, List.take_of_length_le (Nat.le_of_eq hl)]

/-- The slots of a slice of slots. -/
theorem slot_slice {from' count k : Nat} (hk : k < count) :
    slot width ((l.drop (from' * width)).take (count * width)) k = slot width l (from' + k) := by
  have hle := slot_bound width hk
  apply List.ext_getElem?
  intro i
  rw [slot_getElem?, slot_getElem?]
  split_ifs with hi
  · rw [List.getElem?_take_of_lt (by omega), List.getElem?_drop, Nat.add_mul, Nat.add_assoc]
  · rfl

theorem slice_length {from' count : Nat} (hl : l.length = n * width) (hle : from' + count ≤ n) :
    ((l.drop (from' * width)).take (count * width)).length = count * width := by
  have hbound := Nat.mul_le_mul_right width hle
  rw [Nat.add_mul] at hbound
  rw [List.length_take, List.length_drop]
  omega

theorem slot_length (hl : l.length = n * width) (hp : p < n) : (slot width l p).length = width := by
  have hle := slot_bound width hp
  rw [slot, List.length_take, List.length_drop]
  omega

/-- A write of a whole slot of a file. -/
theorem writeAt_slot {f row : Bytes} (hl : f.length = n * width) (hp : p < n)
    (hrow : row.length = width) (hpos : 0 < width) :
    f.writeAt (p * width) row = setSlot width f p row := by
  have hle := slot_bound width hp
  have hsplit : f = f.take (p * width) ++ (f.drop (p * width)).take width ++
      f.drop (p * width + width) := by
    rw [← List.take_add, List.take_append_drop]
  have hfront : (f.take (p * width)).length = p * width := List.length_take_of_le (by omega)
  have hmiddle : ((f.drop (p * width)).take width).length = row.length := by
    rw [List.length_take, List.length_drop]
    omega
  have hwrite := Bytes.writeAt_middle (f.take (p * width)) _ row (f.drop (p * width + width))
    hmiddle (List.ne_nil_of_length_pos (hrow ▸ hpos))
  rw [← hsplit, hfront] at hwrite
  exact hwrite

/-! ## Filling the slots in any order -/

/-- A list of `n` slots, of which those at the places in `done` hold their rows. -/
structure FilledAt (width n : Nat) (rowOf : Nat → List α) (done : List Nat) (out : List α) : Prop where
  length : out.length = n * width
  rows : ∀ p ∈ done, slot width out p = rowOf p

namespace FilledAt

variable {rowOf : Nat → List α} {done : List Nat} {out : List α}

theorem nil (h : out.length = n * width) : FilledAt width n rowOf [] out :=
  ⟨h, fun _ hp => nomatch hp⟩

theorem setSlot (h : FilledAt width n rowOf done out) (hp : p < n)
    (hrow : (rowOf p).length = width) :
    FilledAt width n rowOf (done ++ [p]) (setSlot width out p (rowOf p)) := by
  refine ⟨setSlot_length h.length hp hrow, fun q hq => ?_⟩
  by_cases hqp : q = p
  · rw [hqp, slot_setSlot_self h.length hp hrow]
  · rw [slot_setSlot_of_ne h.length hp hrow hqp]
    apply h.rows
    simpa [hqp] using hq

theorem eq (h : FilledAt width n rowOf done out) (hall : ∀ p < n, p ∈ done) :
    out = (List.range n).flatMap rowOf := by
  rw [← flatMap_slot h.length]
  apply List.flatMap_congr
  intro p hp
  exact h.rows p (hall p (List.mem_range.mp hp))

end FilledAt

/-! ## Rows put into slots -/

/-- A list of `n` slots, which hold the rows put into them. -/
structure Stocked (width n : Nat) (placed : List (Nat × List α)) (out : List α) : Prop where
  length : out.length = n * width
  rows : ∀ e ∈ placed, slot width out e.1 = e.2

namespace Stocked

variable {placed : List (Nat × List α)} {out : List α}

theorem nil (h : out.length = n * width) : Stocked width n [] out := ⟨h, fun _ he => nomatch he⟩

theorem setSlot (h : Stocked width n placed out) (hp : p < n) (hrow : row.length = width)
    (hnew : p ∉ placed.map Prod.fst) :
    Stocked width n (placed ++ [(p, row)]) (setSlot width out p row) := by
  refine ⟨setSlot_length h.length hp hrow, fun e he => ?_⟩
  rcases List.mem_append.mp he with hold | he
  · have hne : e.1 ≠ p := by
      intro heq
      exact hnew (heq ▸ List.mem_map_of_mem hold)
    rw [slot_setSlot_of_ne h.length hp hrow hne]
    exact h.rows e hold
  · rcases List.mem_singleton.mp he with rfl
    exact slot_setSlot_self h.length hp hrow

/-- With every slot stocked there is one list only. -/
theorem eq (h : Stocked width n placed out) {rowOf : Nat → List α}
    (hall : (placed.map Prod.fst).Perm (List.range n)) (hrow : ∀ e ∈ placed, e.2 = rowOf e.1) :
    out = (List.range n).flatMap rowOf := by
  rw [← flatMap_slot h.length]
  apply List.flatMap_congr
  intro p hp
  obtain ⟨e, he, rfl⟩ := List.mem_map.mp (hall.mem_iff.mpr hp)
  rw [h.rows e he, hrow e he]

end Stocked

theorem length_flatMap_of_width {β : Type} {f : β → List α} {items : List β}
    (h : ∀ b ∈ items, (f b).length = width) : (items.flatMap f).length = items.length * width := by
  induction items with
  | nil => simp
  | cons b items ih =>
      rw [List.flatMap_cons, List.length_append, h b List.mem_cons_self,
        ih fun c hc => h c (List.mem_cons_of_mem b hc), List.length_cons, Nat.succ_mul, Nat.add_comm]

/-- A slot of items that are one slot each. -/
theorem slot_flatMap {β : Type} {f : β → List α} {items : List β} {i : Nat} {b : β}
    (h : ∀ b ∈ items, (f b).length = width) (hi : items[i]? = some b) :
    slot width (items.flatMap f) i = f b := by
  obtain ⟨hlt, rfl⟩ := List.getElem?_eq_some_iff.mp hi
  have hfront : ((items.take i).flatMap f).length = i * width := by
    rw [length_flatMap_of_width fun b hb => h b (List.mem_of_mem_take hb),
      List.length_take_of_le (Nat.le_of_lt hlt)]
  have hsplit : items.flatMap f =
      (items.take i).flatMap f ++ (f items[i] ++ (items.drop (i + 1)).flatMap f) := by
    rw [← List.flatMap_cons, ← List.flatMap_append, ← List.drop_eq_getElem_cons hlt,
      List.take_append_drop]
  rw [slot, hsplit, List.drop_left' hfront, List.take_left' (h _ (List.getElem_mem hlt))]

/-- Pieces of the same lengths are the same if they come to the same. -/
theorem flatMap_inj_of_length {β : Type} {f g : β → List α} {l : List β}
    (hlen : ∀ a ∈ l, (f a).length = (g a).length) (h : l.flatMap f = l.flatMap g) :
    ∀ a ∈ l, f a = g a := by
  induction l with
  | nil => exact fun a ha => nomatch ha
  | cons a l ih =>
      rw [List.flatMap_cons, List.flatMap_cons] at h
      obtain ⟨hhead, htail⟩ := List.append_inj h (hlen a List.mem_cons_self)
      intro b hb
      rcases List.mem_cons.mp hb with rfl | hb
      · exact hhead
      · exact ih (fun c hc => hlen c (List.mem_cons_of_mem _ hc)) htail b hb

theorem flatMap_range_getD {β : Type} (f : β → List α) (l : List β) (d : β) :
    (List.range l.length).flatMap (fun p => f (l.getD p d)) = l.flatMap f := by
  have hmap : (List.range l.length).map (fun p => l.getD p d) = l := by
    apply List.ext_getElem
    · simp
    · intro i hi hi'
      simp [List.getD_eq_getElem?_getD, hi']
  rw [← List.flatMap_map, hmap]

end Lib
