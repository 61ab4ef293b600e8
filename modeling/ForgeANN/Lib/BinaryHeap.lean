-- SUMMARY: Heaps of which only the greatest item is known, and the least items of all that went through one of bounded size.
import Mathlib.Data.List.Perm.Basic
import Mathlib.Order.Compare
import Mathlib.Order.Lattice
import Mathlib.Tactic.SplitIfs

/-!
# Binary heaps

A heap hands out its greatest item. In which order it keeps the others is its
own affair, and so is which item it takes for the greatest where the comparison
is no order.
-/
namespace Lib

variable {α κ : Type} [LinearOrder κ]

/-- The comparison is a total preorder on the items. -/
structure ConsistentOn (cmp : α → α → Ordering) (items : List α) : Prop where
  swap : ∀ a ∈ items, ∀ b ∈ items, cmp a b = (cmp b a).swap
  trans : ∀ a ∈ items, ∀ b ∈ items, ∀ c ∈ items, cmp a b ≠ .gt → cmp b c ≠ .gt → cmp a c ≠ .gt

/-- A max-heap: `intoIter` is in no particular order. -/
structure BinaryHeap (α : Type) (cmp : α → α → Ordering) where
  Heap : Type
  new : Heap
  push : Heap → α → Heap
  pop : Heap → Option (α × Heap)
  intoIter : Heap → List α
  intoIter_new : intoIter new = []
  intoIter_push : ∀ h a, (intoIter (push h a)).Perm (a :: intoIter h)
  intoIter_of_pop_none : ∀ {h}, pop h = none → intoIter h = []
  intoIter_of_pop : ∀ {h a rest}, pop h = some (a, rest) → (intoIter h).Perm (a :: intoIter rest)
  greatest_of_pop : ∀ {h a rest}, pop h = some (a, rest) → ConsistentOn cmp (intoIter h) →
    ∀ b ∈ intoIter h, cmp b a ≠ .gt

theorem ConsistentOn.mono {cmp : α → α → Ordering} {items more : List α} (h : ConsistentOn cmp more)
    (hsub : items ⊆ more) : ConsistentOn cmp items where
  swap a ha b hb := h.swap a (hsub ha) b (hsub hb)
  trans a ha b hb c hc := h.trans a (hsub ha) b (hsub hb) c (hsub hc)

/-- A comparison of keys is consistent. -/
theorem ConsistentOn.of_key {cmp : α → α → Ordering} {items : List α} {key : α → κ}
    (h : ∀ a ∈ items, ∀ b ∈ items, cmp a b = compare (key a) (key b)) : ConsistentOn cmp items where
  swap a ha b hb := by rw [h a ha b hb, h b hb a ha]; exact Std.OrientedCmp.eq_swap
  trans a ha b hb c hc := by
    rw [h a ha b hb, h b hb c hc, h a ha c hc, compare_le_iff_le, compare_le_iff_le,
      compare_le_iff_le]
    exact le_trans

namespace BinaryHeap

/-! ## Items in a list -/

/-- The greatest item, and the others. -/
def takeGreatest (cmp : α → α → Ordering) : List α → Option (α × List α)
  | [] => none
  | a :: items =>
      match takeGreatest cmp items with
      | none => some (a, [])
      | some (b, rest) => if cmp a b = .lt then some (b, a :: rest) else some (a, b :: rest)

variable {cmp : α → α → Ordering} {items rest : List α} {a : α}

theorem takeGreatest_eq_none (h : takeGreatest cmp items = none) : items = [] := by
  cases items with
  | nil => rfl
  | cons a items =>
      rw [takeGreatest] at h
      cases hrest : takeGreatest cmp items with
      | none => rw [hrest] at h; cases h
      | some taken =>
          rw [hrest] at h
          dsimp only at h
          split_ifs at h

theorem takeGreatest_perm (h : takeGreatest cmp items = some (a, rest)) :
    items.Perm (a :: rest) := by
  induction items generalizing a rest with
  | nil => cases h
  | cons b items ih =>
      rw [takeGreatest] at h
      cases hrest : takeGreatest cmp items with
      | none =>
          rw [hrest] at h
          obtain ⟨rfl, rfl⟩ := Prod.mk.inj (Option.some.inj h)
          rw [takeGreatest_eq_none hrest]
      | some taken =>
          obtain ⟨c, others⟩ := taken
          rw [hrest] at h
          dsimp only at h
          split_ifs at h
          · obtain ⟨rfl, rfl⟩ := Prod.mk.inj (Option.some.inj h)
            exact ((ih hrest).cons b).trans (.swap _ _ _)
          · obtain ⟨rfl, rfl⟩ := Prod.mk.inj (Option.some.inj h)
            exact (ih hrest).cons b

theorem takeGreatest_greatest (h : takeGreatest cmp items = some (a, rest))
    (hcmp : ConsistentOn cmp items) : ∀ b ∈ items, cmp b a ≠ .gt := by
  induction items generalizing a rest with
  | nil => cases h
  | cons b items ih =>
      have hself : ∀ c ∈ b :: items, cmp c c ≠ .gt := by
        intro c hc hgt
        have hswap := hcmp.swap c hc c hc
        rw [hgt] at hswap
        cases hswap
      rw [takeGreatest] at h
      cases hrest : takeGreatest cmp items with
      | none =>
          rw [hrest] at h
          obtain ⟨rfl, rfl⟩ := Prod.mk.inj (Option.some.inj h)
          intro c hc
          rw [takeGreatest_eq_none hrest, List.mem_singleton] at hc
          rw [hc]
          exact hself _ List.mem_cons_self
      | some taken =>
          obtain ⟨c, others⟩ := taken
          have hmem : c ∈ b :: items :=
            List.mem_cons_of_mem _ ((takeGreatest_perm hrest).mem_iff.mpr List.mem_cons_self)
          have hbest := ih hrest (hcmp.mono (List.subset_cons_self _ _))
          rw [hrest] at h
          dsimp only at h
          split_ifs at h with hlt
          · obtain ⟨rfl, rfl⟩ := Prod.mk.inj (Option.some.inj h)
            intro d hd
            rcases List.mem_cons.mp hd with rfl | hd
            · rw [hlt]
              decide
            · exact hbest d hd
          · obtain ⟨rfl, rfl⟩ := Prod.mk.inj (Option.some.inj h)
            intro d hd
            rcases List.mem_cons.mp hd with rfl | hd
            · exact hself _ List.mem_cons_self
            · refine hcmp.trans d (List.mem_cons_of_mem _ hd) c hmem _ List.mem_cons_self
                (hbest d hd) fun hgt => hlt ?_
              rw [hcmp.swap _ List.mem_cons_self _ hmem, hgt]
              rfl

/-- A heap that keeps its items in a list. -/
def ofList (cmp : α → α → Ordering) : BinaryHeap α cmp where
  Heap := List α
  new := []
  push items a := a :: items
  pop := takeGreatest cmp
  intoIter := id
  intoIter_new := rfl
  intoIter_push _ _ := .refl _
  intoIter_of_pop_none := takeGreatest_eq_none
  intoIter_of_pop := takeGreatest_perm
  greatest_of_pop := takeGreatest_greatest

/-! ## The operations by a key -/

variable (heap : BinaryHeap α cmp) {h : heap.Heap}

def len (h : heap.Heap) : Nat := (heap.intoIter h).length

def peek (h : heap.Heap) : Option α := (heap.pop h).map Prod.fst

/-- `count` items fewer, the greatest first. -/
def popMany : Nat → heap.Heap → heap.Heap
  | 0, h => h
  | count + 1, h =>
      match heap.pop h with
      | none => h
      | some (_, rest) => popMany count rest

/-- `while heap.len() > size { heap.pop(); }`. -/
def trim (size : Nat) (h : heap.Heap) : heap.Heap := heap.popMany (heap.len h - size) h

variable {heap} {rest : heap.Heap} {key : α → κ} {size : Nat} {all : List α}

theorem key_le_of_pop (hpop : heap.pop h = some (a, rest))
    (hkey : ∀ b ∈ heap.intoIter h, ∀ c ∈ heap.intoIter h, cmp b c = compare (key b) (key c)) :
    ∀ b ∈ heap.intoIter h, key b ≤ key a := by
  have hmem : a ∈ heap.intoIter h := (heap.intoIter_of_pop hpop).mem_iff.mpr List.mem_cons_self
  intro b hb
  have hle := heap.greatest_of_pop hpop (.of_key hkey) b hb
  rwa [hkey b hb a hmem, compare_le_iff_le] at hle

end BinaryHeap

/-! ## The least items of all -/

/-- `kept` are `size` of the least items of `all`, or all of them. -/
structure LeastOf (key : α → κ) (size : Nat) (all kept : List α) : Prop where
  length : kept.length = min size all.length
  split : ∃ dropped, all.Perm (kept ++ dropped) ∧ ∀ a ∈ kept, ∀ b ∈ dropped, key a ≤ key b

namespace LeastOf

variable {key : α → κ} {size : Nat} {all kept more : List α} {a : α}

theorem nil (key : α → κ) (size : Nat) : LeastOf key size [] [] where
  length := (Nat.min_zero size).symm
  split := ⟨[], .nil, fun _ ha => nomatch ha⟩

theorem perm (h : LeastOf key size all kept) (hperm : kept.Perm more) :
    LeastOf key size all more := by
  obtain ⟨hlen, dropped, hall, hle⟩ := h
  exact ⟨hperm.length_eq ▸ hlen, dropped, hall.trans (hperm.append_right _),
    fun a ha => hle a (hperm.mem_iff.mpr ha)⟩

theorem subset (h : LeastOf key size all kept) : kept ⊆ all := by
  obtain ⟨-, dropped, hall, -⟩ := h
  exact fun a ha => hall.mem_iff.mpr (List.mem_append_left _ ha)

/-- One more item, while there is room. -/
theorem cons (h : LeastOf key size all kept) (hroom : kept.length < size) :
    LeastOf key size (a :: all) (a :: kept) := by
  obtain ⟨hlen, dropped, hall, -⟩ := h
  have hdropped : dropped = [] := by
    have hcount := hall.length_eq
    rw [List.length_append] at hcount
    exact List.eq_nil_of_length_eq_zero (by omega)
  subst hdropped
  refine ⟨by rw [List.length_cons, List.length_cons]; omega, [], hall.cons a, ?_⟩
  exact fun _ _ _ hb => nomatch hb

/-- One more item, and the greatest of them dropped. -/
theorem exchange (h : LeastOf key size all kept) (hfull : kept.length = size) {b : α}
    (hperm : (a :: kept).Perm (b :: more)) (hgreatest : ∀ c ∈ a :: kept, key c ≤ key b) :
    LeastOf key size (a :: all) more := by
  obtain ⟨hlen, dropped, hall, hle⟩ := h
  have hmore := hperm.length_eq
  rw [List.length_cons, List.length_cons] at hmore
  refine ⟨by rw [List.length_cons]; omega, b :: dropped, ?_, ?_⟩
  · exact (hall.cons a).trans ((hperm.append_right dropped).trans List.perm_middle.symm)
  · intro c hc d hd
    rcases List.mem_cons.mp hd with rfl | hd
    · exact hgreatest c (hperm.mem_iff.mpr (List.mem_cons_of_mem _ hc))
    · rcases List.mem_cons.mp (hperm.mem_iff.mpr List.mem_cons_self) with rfl | hb
      · exact hle c (hperm.cons_inv.mem_iff.mpr hc) d hd
      · rcases List.mem_cons.mp (hperm.mem_iff.mpr (List.mem_cons_of_mem _ hc)) with rfl | hc
        · exact (hgreatest c List.mem_cons_self).trans (hle b hb d hd)
        · exact hle c hc d hd

end LeastOf

/-- A heap of bounded size keeps the least of what was pushed. -/
theorem BinaryHeap.leastOf_trim {cmp : α → α → Ordering} {heap : BinaryHeap α cmp} {h : heap.Heap}
    {key : α → κ} {size : Nat} {all : List α} {a : α}
    (hleast : LeastOf key size all (heap.intoIter h))
    (hkey : ∀ b ∈ a :: all, ∀ c ∈ a :: all, cmp b c = compare (key b) (key c)) :
    LeastOf key size (a :: all) (heap.intoIter (heap.trim size (heap.push h a))) := by
  have hpush := heap.intoIter_push h a
  have hlen : heap.len (heap.push h a) = (heap.intoIter h).length + 1 := hpush.length_eq
  have hle : (heap.intoIter h).length ≤ size := hleast.length ▸ Nat.min_le_left _ _
  rcases Nat.lt_or_ge (heap.intoIter h).length size with hroom | hfull
  · have hzero : heap.len (heap.push h a) - size = 0 := by omega
    rw [trim, hzero]
    exact (hleast.cons hroom).perm hpush.symm
  · have hone : heap.len (heap.push h a) - size = 1 := by omega
    rw [trim, hone, popMany]
    cases hpop : heap.pop (heap.push h a) with
    | none =>
        have hempty := heap.intoIter_of_pop_none hpop
        rw [len, hempty] at hlen
        cases hlen
    | some popped =>
        obtain ⟨b, rest⟩ := popped
        have hsub : heap.intoIter (heap.push h a) ⊆ a :: all := fun c hc =>
          List.cons_subset_cons a hleast.subset (hpush.mem_iff.mp hc)
        have hgreatest := key_le_of_pop hpop fun c hc d hd => hkey c (hsub hc) d (hsub hd)
        exact hleast.exchange (by omega) (hpush.symm.trans (heap.intoIter_of_pop hpop))
          fun c hc => hgreatest c (hpush.mem_iff.mpr hc)

end Lib
