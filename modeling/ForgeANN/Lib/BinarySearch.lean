-- SUMMARY: Binary search by key, and inserting where it ends.
import Mathlib.Data.List.Basic
import Mathlib.Data.List.Nodup
import Mathlib.Data.List.Pairwise
import Mathlib.Order.Basic
import Mathlib.Order.Lattice

/-!
# Binary search

The search halves a range until one item is left, whether or not the list is
sorted. In a list sorted by key it finds the key's item, or the place to insert
one.
-/
namespace Lib

variable {α κ : Type} [LinearOrder κ]

/-- Halve the range of `size` items from `base` on, down to one item; `fuel` bounds the steps. -/
def bisect (key : α → κ) (l : List α) (target : κ) : Nat → Nat → Nat → Nat
  | 0, base, _ => base
  | fuel + 1, base, size =>
      if size ≤ 1 then base
      else
        let half := size / 2
        let mid := base + half
        let base := match l[mid]? with
          | some a => if target < key a then base else mid
          | none => base
        bisect key l target fuel base (size - half)

/-- The index of an item with the key, or else where the search ended. -/
def binarySearchByKey (key : α → κ) (l : List α) (target : κ) : Except Nat Nat :=
  let base := bisect key l target l.length 0 l.length
  match l[base]? with
  | none => .error base
  | some a =>
      if key a = target then .ok base
      else .error (base + if key a < target then 1 else 0)

variable {key : α → κ} {l : List α} {target : κ} {i : Nat}

/-- Sorted by key, with distinct keys. -/
def SortedBy (key : α → κ) (l : List α) : Prop := l.Pairwise fun a b => key a < key b

theorem SortedBy.getElem_lt (h : SortedBy key l) {i j : Nat} {a b : α} (hi : l[i]? = some a)
    (hj : l[j]? = some b) (hlt : i < j) : key a < key b := by
  obtain ⟨hi', rfl⟩ := List.getElem?_eq_some_iff.mp hi
  obtain ⟨hj', rfl⟩ := List.getElem?_eq_some_iff.mp hj
  exact List.pairwise_iff_getElem.mp h i j hi' hj' hlt

/-- What the search keeps: the key is not before the base, nor within the items cut off. -/
theorem bisect_spec (hsorted : SortedBy key l) {fuel base size : Nat} (hpos : 0 < size)
    (hfuel : size ≤ fuel) (hlen : base + size ≤ l.length)
    (hlow : base = 0 ∨ ∃ a, l[base]? = some a ∧ key a ≤ target)
    (hhigh : ∀ j a, base + size ≤ j → l[j]? = some a → target < key a) :
    (bisect key l target fuel base size = 0 ∨
        ∃ a, l[bisect key l target fuel base size]? = some a ∧ key a ≤ target) ∧
      bisect key l target fuel base size < l.length ∧
      ∀ j a, bisect key l target fuel base size < j → l[j]? = some a → target < key a := by
  induction fuel generalizing base size with
  | zero => omega
  | succ fuel ih =>
      rw [bisect]
      split_ifs with hsmall
      · exact ⟨hlow, by omega, fun j a hj => hhigh j a (by omega)⟩
      · have hmid : base + size / 2 < l.length := by omega
        have hsize : 0 < size - size / 2 := by omega
        have hleft : size - size / 2 ≤ fuel := by omega
        have hkeep : base + (size - size / 2) ≤ l.length := by omega
        have hmove : base + size / 2 + (size - size / 2) ≤ l.length := by omega
        dsimp only
        rw [List.getElem?_eq_getElem hmid]
        dsimp only
        split_ifs with hlt
        · apply ih hsize hleft hkeep hlow
          intro j a hj ha
          rcases Nat.lt_or_ge (base + size / 2) j with hj' | hj'
          · exact hlt.trans (hsorted.getElem_lt (List.getElem?_eq_getElem hmid) ha hj')
          · have heq : j = base + size / 2 := by omega
            subst heq
            rw [List.getElem?_eq_getElem hmid] at ha
            exact Option.some.inj ha ▸ hlt
        · apply ih hsize hleft hmove
          · exact .inr ⟨_, List.getElem?_eq_getElem hmid, not_lt.mp hlt⟩
          · exact fun j a hj => hhigh j a (by omega)

/-- What is found has the key, sorted or not. -/
theorem key_of_binarySearch_ok (h : binarySearchByKey key l target = .ok i) :
    ∃ a, l[i]? = some a ∧ key a = target := by
  rw [binarySearchByKey] at h
  split at h
  · cases h
  · rename_i a ha
    split_ifs at h with hkey
    · exact ⟨a, Except.ok.inj h ▸ ha, hkey⟩

/-- Where the search of a sorted list ends without finding the key, the items before have smaller
keys and the ones behind greater. -/
theorem split_of_binarySearch_error (hsorted : SortedBy key l)
    (h : binarySearchByKey key l target = .error i) :
    i ≤ l.length ∧ (∀ a ∈ l.take i, key a < target) ∧ ∀ a ∈ l.drop i, target < key a := by
  rcases Nat.eq_zero_or_pos l.length with hnil | hpos
  · rw [List.length_eq_zero_iff.mp hnil] at h ⊢
    have hi : i = 0 := (Except.error.inj h).symm
    rw [hi]
    simp
  · have hbeyond : ∀ j a, 0 + l.length ≤ j → l[j]? = some a → target < key a := by
      intro j a hj ha
      rw [List.getElem?_eq_none (by omega)] at ha
      cases ha
    obtain ⟨hlow, hlt, hhigh⟩ := bisect_spec hsorted hpos (Nat.le_refl _)
      (Nat.le_of_eq (Nat.zero_add _)) (.inl rfl) hbeyond
    rw [binarySearchByKey] at h
    generalize bisect key l target l.length 0 l.length = base at hlow hlt hhigh h
    rw [List.getElem?_eq_getElem hlt] at h
    dsimp only at h
    have hbase := List.getElem?_eq_getElem hlt
    split_ifs at h with hne hsmall
    · have hi : i = base + 1 := (Except.error.inj h).symm
      subst hi
      refine ⟨hlt, fun a ha => ?_, fun a ha => ?_⟩
      · obtain ⟨j, hj, rfl⟩ := List.mem_take_iff_getElem.mp ha
        rcases Nat.lt_or_ge j base with hj' | hj'
        · exact (hsorted.getElem_lt (List.getElem?_eq_getElem _) hbase hj').trans hsmall
        · have heq : j = base := by omega
          subst heq
          exact hsmall
      · obtain ⟨j, hj, rfl⟩ := List.mem_drop_iff_getElem.mp ha
        exact hhigh _ _ (by omega) (List.getElem?_eq_getElem _)
    · have hi : i = base := (Except.error.inj h).symm
      subst hi
      have hgreater : target < key l[i] := lt_of_le_of_ne (not_lt.mp hsmall) (Ne.symm hne)
      have hzero : i = 0 := by
        rcases hlow with heq | ⟨a, ha, hle⟩
        · exact heq
        · rw [hbase] at ha
          exact absurd (Option.some.inj ha ▸ hle) hgreater.not_ge
      refine ⟨Nat.le_of_lt hlt, fun a ha => ?_, fun a ha => ?_⟩
      · rw [hzero] at ha
        cases ha
      · obtain ⟨j, hj, rfl⟩ := List.mem_drop_iff_getElem.mp ha
        rcases Nat.eq_zero_or_pos j with hj' | hj'
        · subst hj'
          exact hgreater
        · exact hhigh _ _ (by omega) (List.getElem?_eq_getElem _)

/-- A key that is not found is not there. -/
theorem not_mem_of_binarySearch_error (hsorted : SortedBy key l)
    (h : binarySearchByKey key l target = .error i) : target ∉ l.map key := by
  obtain ⟨-, hbefore, hbehind⟩ := split_of_binarySearch_error hsorted h
  intro hmem
  obtain ⟨a, ha, rfl⟩ := List.mem_map.mp hmem
  rw [← List.take_append_drop i l] at ha
  rcases List.mem_append.mp ha with ha | ha
  · exact lt_irrefl _ (hbefore a ha)
  · exact lt_irrefl _ (hbehind a ha)

/-- `Vec::insert`. -/
def insertAt (l : List α) (i : Nat) (a : α) : List α := l.take i ++ a :: l.drop i

theorem insertAt_perm (l : List α) (i : Nat) (a : α) : (insertAt l i a).Perm (a :: l) := by
  refine List.perm_middle.trans (List.Perm.cons a ?_)
  rw [List.take_append_drop]

/-- Between smaller and greater keys an item stands right. -/
theorem SortedBy.insertAt (hsorted : SortedBy key l) {a : α}
    (hbefore : ∀ b ∈ l.take i, key b < key a) (hbehind : ∀ b ∈ l.drop i, key a < key b) :
    SortedBy key (insertAt l i a) := by
  have hall : SortedBy key (l.take i ++ l.drop i) := by rwa [List.take_append_drop]
  obtain ⟨htake, hdrop, hcross⟩ := List.pairwise_append.mp hall
  refine List.pairwise_append.mpr ⟨htake, List.pairwise_cons.mpr ⟨hbehind, hdrop⟩, ?_⟩
  intro b hb c hc
  rcases List.mem_cons.mp hc with rfl | hc
  · exact hbefore b hb
  · exact hcross b hb c hc

theorem SortedBy.eraseIdx (h : SortedBy key l) (i : Nat) : SortedBy key (l.eraseIdx i) :=
  h.sublist (List.eraseIdx_sublist l i)

/-- The place in a list is one less once an earlier item is gone. -/
theorem split_eraseIdx {j : Nat} {b : α} (hi : i ≤ l.length) :
    (b ∈ (l.eraseIdx j).take (if j < i then i - 1 else i) → b ∈ l.take i) ∧
      (b ∈ (l.eraseIdx j).drop (if j < i then i - 1 else i) → b ∈ l.drop i) := by
  rw [List.eraseIdx_eq_take_drop_succ]
  split_ifs with hlt
  · have hlen : (l.take j).length = j := by
      rw [List.length_take]
      omega
    constructor
    · rw [List.take_append, hlen, List.take_of_length_le (by omega)]
      intro hb
      rcases List.mem_append.mp hb with hb | hb
      · exact (List.take_subset_take_left l (Nat.le_of_lt hlt)) hb
      · rw [show i - 1 - j = i - (j + 1) by omega, ← List.drop_take] at hb
        exact List.mem_of_mem_drop hb
    · rw [List.drop_append, hlen, List.drop_of_length_le (by omega), List.nil_append,
        List.drop_drop, show j + 1 + (i - 1 - j) = i by omega]
      exact id
  · constructor
    · rw [List.take_append, List.take_take]
      intro hb
      rcases List.mem_append.mp hb with hb | hb
      · rwa [Nat.min_eq_left (by omega)] at hb
      · rw [List.length_take, show i - min j l.length = 0 by omega] at hb
        cases hb
    · intro hb
      rw [List.drop_append, List.length_take, show i - min j l.length = 0 by omega,
        List.drop_zero] at hb
      rcases List.mem_append.mp hb with hb | hb
      · rw [List.drop_take] at hb
        exact List.mem_of_mem_take hb
      · rw [show j + 1 = i + (j + 1 - i) by omega, ← List.drop_drop] at hb
        exact List.mem_of_mem_drop hb

/-- An item of a list, and the list with that item changed. -/
theorem set_perm {a : α} (hi : l[i]? = some a) :
    ∃ rest, l.Perm (a :: rest) ∧ l.eraseIdx i = rest ∧ ∀ b, (l.set i b).Perm (b :: rest) := by
  obtain ⟨hlt, rfl⟩ := List.getElem?_eq_some_iff.mp hi
  refine ⟨l.eraseIdx i, ?_, rfl, fun b => ?_⟩
  · have hsplit : l = l.take i ++ l[i] :: l.drop (i + 1) := by
      rw [← List.drop_eq_getElem_cons hlt, List.take_append_drop]
    rw [List.eraseIdx_eq_take_drop_succ]
    exact (List.Perm.of_eq hsplit).trans List.perm_middle
  · rw [List.set_eq_take_append_cons_drop, if_pos hlt, List.eraseIdx_eq_take_drop_succ]
    exact List.perm_middle

/-- Changing an item but for its key leaves the list sorted. -/
theorem SortedBy.set (h : SortedBy key l) {a b : α} (hi : l[i]? = some a) (hkey : key b = key a) :
    SortedBy key (l.set i b) := by
  have hmap : (l.set i b).map key = l.map key := by
    obtain ⟨hlt, rfl⟩ := List.getElem?_eq_some_iff.mp hi
    rw [List.map_set, hkey, ← List.getElem_map key (h := by rwa [List.length_map]),
      List.set_getElem_self]
  have hkeys : ((l.set i b).map key).Pairwise (· < ·) := hmap ▸ List.pairwise_map.mpr h
  exact List.pairwise_map.mp hkeys

theorem SortedBy.nodup (h : SortedBy key l) : (l.map key).Nodup :=
  List.pairwise_map.mpr (h.imp ne_of_lt)

/-- Two sorted lists with the same items are the same list. -/
theorem SortedBy.eq_of_perm {m : List α} (h : SortedBy key l) (h' : SortedBy key m)
    (hperm : l.Perm m) : l = m :=
  List.Perm.eq_of_pairwise (fun _ _ _ _ hab hba => absurd hab hba.not_gt) h h' hperm

/-- The search of a sorted list finds just the keys that are there. -/
theorem binarySearch_ok_iff (hsorted : SortedBy key l) :
    (∃ i, binarySearchByKey key l target = .ok i) ↔ target ∈ l.map key := by
  constructor
  · rintro ⟨i, h⟩
    obtain ⟨a, ha, rfl⟩ := key_of_binarySearch_ok h
    exact List.mem_map_of_mem (List.mem_of_getElem? ha)
  · intro hmem
    cases h : binarySearchByKey key l target with
    | ok i => exact ⟨i, rfl⟩
    | error i => exact absurd hmem (not_mem_of_binarySearch_error hsorted h)

/-! ## Finding by key -/

/-- The item with the key. -/
def findByKey (key : α → κ) (l : List α) (k : κ) : Option α := l.find? fun a => key a = k

theorem findByKey_cons (a : α) (l : List α) (k : κ) :
    findByKey key (a :: l) k = if key a = k then some a else findByKey key l k := by
  rw [findByKey, List.find?_cons]
  by_cases h : key a = k
  · simp only [h, decide_true, if_true]
  · simp only [h, decide_false, if_false]
    rfl

theorem key_of_findByKey {a : α} {k : κ} (h : findByKey key l k = some a) : a ∈ l ∧ key a = k := by
  have hkey : decide (key a = k) = true := List.find?_some (p := fun a => decide (key a = k)) h
  exact ⟨List.mem_of_find?_eq_some h, of_decide_eq_true hkey⟩

theorem findByKey_eq_some {a : α} {k : κ} (hnodup : (l.map key).Nodup) :
    findByKey key l k = some a ↔ a ∈ l ∧ key a = k := by
  constructor
  · exact key_of_findByKey
  · rintro ⟨ha, rfl⟩
    cases h : findByKey key l (key a) with
    | none => exact absurd (decide_eq_true rfl) (List.find?_eq_none.mp h a ha)
    | some b =>
        obtain ⟨hb, hkey⟩ := key_of_findByKey h
        rw [List.inj_on_of_nodup_map hnodup hb ha hkey]

theorem findByKey_eq_none {k : κ} : findByKey key l k = none ↔ k ∉ l.map key := by
  rw [findByKey, List.find?_eq_none]
  simp only [decide_eq_true_eq, List.mem_map, not_exists, not_and]

/-- Where the item is does not matter. -/
theorem findByKey_perm {m : List α} (hnodup : (l.map key).Nodup) (h : l.Perm m) (k : κ) :
    findByKey key l k = findByKey key m k := by
  apply Option.ext
  intro a
  rw [findByKey_eq_some hnodup, findByKey_eq_some ((h.map key).nodup_iff.mp hnodup), h.mem_iff]

/-- The search of a sorted list finds the item. -/
theorem findByKey_of_binarySearch_ok (hsorted : SortedBy key l)
    (h : binarySearchByKey key l target = .ok i) : findByKey key l target = l[i]? := by
  obtain ⟨a, ha, hkey⟩ := key_of_binarySearch_ok h
  rw [ha]
  exact (findByKey_eq_some hsorted.nodup).mpr ⟨List.mem_of_getElem? ha, hkey⟩

theorem findByKey_of_binarySearch_error (hsorted : SortedBy key l)
    (h : binarySearchByKey key l target = .error i) : findByKey key l target = none :=
  findByKey_eq_none.mpr (not_mem_of_binarySearch_error hsorted h)

end Lib
