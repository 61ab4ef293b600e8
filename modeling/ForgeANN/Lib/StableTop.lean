-- SUMMARY: A stable sort as insertion at the back, and the first entries of one kept in a bounded buffer.
import Mathlib.Data.List.Basic
import Mathlib.Data.List.Induction
import Mathlib.Data.List.Sort
import Mathlib.Order.Defs.LinearOrder

/-!
# Stable sorts, item by item

A stable sort of a list with an item added at its end is the stable sort of the
list, with the item inserted behind all those not above it. Only the first `k`
entries matter for the first `k` of the result.
-/
namespace Lib

variable {α κ : Type*} [LinearOrder κ]

/-- The stable sort by a key. -/
def sortByKey (key : α → κ) (l : List α) : List α := l.mergeSort fun a b => decide (key a ≤ key b)

/-- Into a sorted list, behind all those that are not above it. -/
def insertBack (key : α → κ) (x : α) : List α → List α
  | [] => [x]
  | y :: l => if key x < key y then x :: y :: l else y :: insertBack key x l

variable {key : α → κ} {l s t : List α} {x y : α}

theorem sortByKey_perm (key : α → κ) (l : List α) : (sortByKey key l).Perm l := List.mergeSort_perm ..

theorem le_trans_decide (key : α → κ) (a b c : α) (hab : decide (key a ≤ key b) = true)
    (hbc : decide (key b ≤ key c) = true) : decide (key a ≤ key c) = true :=
  decide_eq_true (le_trans (of_decide_eq_true hab) (of_decide_eq_true hbc))

theorem le_total_decide (key : α → κ) (a b : α) :
    (decide (key a ≤ key b) || decide (key b ≤ key a)) = true := by
  rw [Bool.or_eq_true, decide_eq_true_eq, decide_eq_true_eq]
  exact le_total (key a) (key b)

theorem sortByKey_pairwise (key : α → κ) (l : List α) :
    (sortByKey key l).Pairwise fun a b => key a ≤ key b :=
  (List.pairwise_mergeSort (le_trans_decide key) (le_total_decide key) l).imp of_decide_eq_true

/-! ## Entries of one key -/

/-- The entries of one key stay in their order. -/
theorem filter_sortByKey (key : α → κ) (l : List α) (v : κ) :
    ((sortByKey key l).filter fun a => key a = v) = l.filter fun a => key a = v := by
  have hsub : (l.filter fun a => key a = v).Sublist (sortByKey key l) := by
    apply List.sublist_mergeSort (le_trans_decide key) (le_total_decide key) _ List.filter_sublist
    rw [List.pairwise_filter]
    refine List.pairwise_of_forall fun a b ha hb => decide_eq_true ?_
    rw [of_decide_eq_true ha, of_decide_eq_true hb]
  have hfilter := hsub.filter fun a => decide (key a = v)
  rw [List.filter_filter] at hfilter
  simp only [Bool.and_self] at hfilter
  exact (hfilter.eq_of_length ((sortByKey_perm key l).filter _).length_eq.symm).symm

/-- Sorted lists with the same entries of each key are the same. -/
theorem eq_of_filter_eq (hs : s.Pairwise fun a b => key a ≤ key b)
    (ht : t.Pairwise fun a b => key a ≤ key b)
    (h : ∀ v, (s.filter fun a => key a = v) = t.filter fun a => key a = v) : s = t := by
  induction s generalizing t with
  | nil =>
      cases t with
      | nil => rfl
      | cons b t => simpa using h (key b)
  | cons a s ih =>
      cases t with
      | nil => simpa using h (key a)
      | cons b t =>
          obtain ⟨ha, hs'⟩ := List.pairwise_cons.mp hs
          obtain ⟨hb, ht'⟩ := List.pairwise_cons.mp ht
          -- both lists begin with their lowest key
          have hmem : b ∈ (a :: s).filter fun c => key c = key b := by
            rw [h]
            simp
          have hmem' : a ∈ (b :: t).filter fun c => key c = key a := by
            rw [← h]
            simp
          have hab : key a ≤ key b := by
            rcases List.mem_cons.mp (List.mem_of_mem_filter hmem) with rfl | hin
            · exact le_rfl
            · exact ha b hin
          have hba : key b ≤ key a := by
            rcases List.mem_cons.mp (List.mem_of_mem_filter hmem') with rfl | hin
            · exact le_rfl
            · exact hb a hin
          have hkey : key b = key a := le_antisymm hba hab
          have hfirst := h (key a)
          rw [List.filter_cons_of_pos (by simp), List.filter_cons_of_pos (by simpa using hkey)]
            at hfirst
          obtain ⟨rfl, -⟩ := List.cons.inj hfirst
          congr 1
          apply ih hs' ht'
          intro v
          have hv := h v
          by_cases hav : key a = v
          · rw [List.filter_cons_of_pos (by simpa using hav),
              List.filter_cons_of_pos (by simpa using hav)] at hv
            exact (List.cons.inj hv).2
          · rwa [List.filter_cons_of_neg (by simpa using hav),
              List.filter_cons_of_neg (by simpa using hav)] at hv

/-! ## Inserting at the back -/

theorem insertBack_perm (key : α → κ) (x : α) (l : List α) :
    (insertBack key x l).Perm (x :: l) := by
  induction l with
  | nil => exact .refl _
  | cons y l ih =>
      rw [insertBack]
      split_ifs
      · exact .refl _
      · exact (ih.cons y).trans (.swap ..)

theorem insertBack_pairwise (h : l.Pairwise fun a b => key a ≤ key b) :
    (insertBack key x l).Pairwise fun a b => key a ≤ key b := by
  induction l with
  | nil => exact List.pairwise_singleton ..
  | cons y l ih =>
      obtain ⟨hy, hl⟩ := List.pairwise_cons.mp h
      rw [insertBack]
      split_ifs with hlt
      · refine List.pairwise_cons.mpr ⟨fun a ha => ?_, h⟩
        rcases List.mem_cons.mp ha with rfl | ha
        · exact hlt.le
        · exact hlt.le.trans (hy a ha)
      · refine List.pairwise_cons.mpr ⟨fun a ha => ?_, ih hl⟩
        rcases List.mem_cons.mp ((insertBack_perm key x l).mem_iff.mp ha) with rfl | ha
        · exact not_lt.mp hlt
        · exact hy a ha

theorem filter_insertBack (h : l.Pairwise fun a b => key a ≤ key b) (v : κ) :
    ((insertBack key x l).filter fun a => key a = v) = (l ++ [x]).filter fun a => key a = v := by
  induction l with
  | nil => rfl
  | cons y l ih =>
      obtain ⟨hy, hl⟩ := List.pairwise_cons.mp h
      rw [insertBack]
      split_ifs with hlt
      · rw [List.filter_append]
        by_cases hv : key x = v
        · -- what is behind is above
          have hnone : ((y :: l).filter fun a => key a = v) = [] := by
            rw [List.filter_eq_nil_iff]
            intro a ha
            have hya : key y ≤ key a := by
              rcases List.mem_cons.mp ha with rfl | ha
              · exact le_rfl
              · exact hy a ha
            rw [decide_eq_true_eq, ← hv]
            exact (hlt.trans_le hya).ne'
          rw [List.filter_cons_of_pos (by simpa using hv), hnone,
            List.filter_cons_of_pos (by simpa using hv), List.filter_nil, List.nil_append]
        · have hx : ([x].filter fun a => key a = v) = [] := List.filter_singleton.trans (by simp [hv])
          rw [hx, List.append_nil, List.filter_cons_of_neg (by simpa using hv)]
      · rw [List.cons_append, List.filter_cons, List.filter_cons, ih hl]

/-- The stable sort grows by insertion at the back. -/
theorem sortByKey_concat (key : α → κ) (l : List α) (x : α) :
    sortByKey key (l ++ [x]) = insertBack key x (sortByKey key l) := by
  have hsorted := sortByKey_pairwise key l
  apply eq_of_filter_eq (sortByKey_pairwise key _) (insertBack_pairwise hsorted)
  intro v
  rw [filter_sortByKey, filter_insertBack hsorted, List.filter_append, List.filter_append,
    filter_sortByKey]

theorem insertBack_concat_of_lt (h : key x < key y) :
    insertBack key x (l ++ [y]) = insertBack key x l ++ [y] := by
  induction l with
  | nil => exact if_pos h
  | cons z l ih =>
      rw [List.cons_append, insertBack, insertBack, ih]
      split_ifs <;> rfl

theorem insertBack_of_ge (h : ∀ a ∈ l, key a ≤ key x) : insertBack key x l = l ++ [x] := by
  induction l with
  | nil => rfl
  | cons y l ih =>
      rw [insertBack, if_neg (not_lt.mpr (h y List.mem_cons_self)),
        ih fun a ha => h a (List.mem_cons_of_mem y ha), List.cons_append]

/-- The first entries depend on the first entries only. -/
theorem take_insertBack (key : α → κ) (x : α) (l : List α) (k : Nat) :
    (insertBack key x l).take k = (insertBack key x (l.take k)).take k := by
  induction l generalizing k with
  | nil => rw [List.take_nil]
  | cons y l ih =>
      cases k with
      | zero => rw [List.take_zero, List.take_zero]
      | succ k =>
          rw [List.take_succ_cons, insertBack, insertBack]
          split_ifs
          · rw [List.take_succ_cons, List.take_succ_cons]
            cases k with
            | zero => rfl
            | succ k => rw [List.take_succ_cons, List.take_succ_cons, List.take_take, Nat.min_eq_left
                (Nat.le_succ k)]
          · rw [List.take_succ_cons, List.take_succ_cons, ih]

/-! ## A bounded buffer

The buffer keeps the first `k` entries, the last of them at its head. Two
comparisons decide what a new entry does: `lt` whether it moves past one there is,
`stays` whether the last one stays in a full buffer.
-/

/-- Past those it is below, and behind the others. -/
def insertFromBack (lt : α → α → Bool) (x : α) : List α → List α
  | [] => [x]
  | y :: l => if lt x y then y :: insertFromBack lt x l else x :: y :: l

def pushBounded (lt stays : α → α → Bool) (k : Nat) (l : List α) (x : α) : List α :=
  if l.length < k then insertFromBack lt x l
  else
    match l with
    | [] => []
    | last :: rest => if stays x last then last :: rest else insertFromBack lt x rest

def pushAllBounded (lt stays : α → α → Bool) (k : Nat) (entries : List α) : List α :=
  entries.foldl (pushBounded lt stays k) []

section

variable {lt stays : α → α → Bool} {k : Nat} {entries : List α}

omit [LinearOrder κ] in
theorem insertFromBack_perm (lt : α → α → Bool) (x : α) (l : List α) :
    (insertFromBack lt x l).Perm (x :: l) := by
  induction l with
  | nil => exact .refl _
  | cons y l ih =>
      rw [insertFromBack]
      split_ifs
      · exact (ih.cons y).trans (.swap ..)
      · exact .refl _

/-- Where the comparison is that of the keys, this is the insertion at the back. -/
theorem reverse_insertFromBack (hlt : ∀ y ∈ l, lt x y = true ↔ key x < key y)
    (hsorted : l.reverse.Pairwise fun a b => key a ≤ key b) :
    (insertFromBack lt x l).reverse = insertBack key x l.reverse := by
  induction l with
  | nil => rfl
  | cons last l ih =>
      rw [List.reverse_cons] at hsorted ⊢
      obtain ⟨hrest, -, hlast⟩ := List.pairwise_append.mp hsorted
      have hiff := hlt last List.mem_cons_self
      rw [insertFromBack]
      split_ifs with hd
      · rw [List.reverse_cons, ih (fun y hy => hlt y (List.mem_cons_of_mem last hy)) hrest,
          insertBack_concat_of_lt (hiff.mp hd)]
      · have hge : key last ≤ key x := not_lt.mp fun h => hd (hiff.mpr h)
        rw [List.reverse_cons, List.reverse_cons, insertBack_of_ge]
        intro a ha
        rcases List.mem_append.mp ha with ha | ha
        · exact (hlast a ha last (List.mem_singleton_self last)).trans hge
        · rw [List.mem_singleton.mp ha]
          exact hge

theorem length_pushBounded (hle : l.length ≤ k) :
    (pushBounded lt stays k l x).length = min k (l.length + 1) := by
  unfold pushBounded
  split_ifs with hroom
  · rw [(insertFromBack_perm lt x l).length_eq, List.length_cons]
    omega
  · cases l with
    | nil =>
        rw [List.length_nil] at hroom ⊢
        omega
    | cons last rest =>
        rw [List.length_cons] at hle hroom ⊢
        simp only
        split_ifs
        · rw [List.length_cons]
          omega
        · rw [(insertFromBack_perm lt x rest).length_eq, List.length_cons]
          omega

theorem mem_pushBounded (h : y ∈ pushBounded lt stays k l x) : y ∈ l ∨ y = x := by
  have hinsert : ∀ {s : List α}, (∀ z ∈ s, z ∈ l) → y ∈ insertFromBack lt x s → y ∈ l ∨ y = x := by
    intro s hs hy
    rcases List.mem_cons.mp ((insertFromBack_perm lt x s).mem_iff.mp hy) with rfl | hy
    · exact .inr rfl
    · exact .inl (hs y hy)
  unfold pushBounded at h
  split_ifs at h with hroom
  · exact hinsert (fun _ hz => hz) h
  · cases l with
    | nil => cases h
    | cons last rest =>
        simp only at h
        split_ifs at h
        · exact .inl h
        · exact hinsert (fun z hz => List.mem_cons_of_mem last hz) h

theorem reverse_pushBounded (hlt : ∀ y ∈ l, lt x y = true ↔ key x < key y)
    (hstays : ∀ y ∈ l, stays x y = true ↔ key y ≤ key x)
    (hsorted : l.reverse.Pairwise fun a b => key a ≤ key b) (hle : l.length ≤ k) :
    (pushBounded lt stays k l x).reverse = (insertBack key x l.reverse).take k := by
  have hinsert : ∀ s : List α, (insertBack key x s.reverse).length = s.length + 1 := by
    intro s
    rw [(insertBack_perm _ _ _).length_eq, List.length_cons, List.length_reverse]
  unfold pushBounded
  split_ifs with hroom
  · rw [List.take_of_length_le (by rw [hinsert]; exact hroom)]
    exact reverse_insertFromBack hlt hsorted
  have hfull : l.length = k := le_antisymm hle (not_lt.mp hroom)
  cases l with
  | nil => rw [← hfull, List.length_nil, List.take_zero, List.reverse_nil]
  | cons last rest =>
      rw [List.reverse_cons] at hsorted ⊢
      obtain ⟨hrest, -, hlast⟩ := List.pairwise_append.mp hsorted
      have hiff := hstays last List.mem_cons_self
      rw [List.length_cons] at hfull
      simp only
      split_ifs with hd
      · have hge := hiff.mp hd
        rw [List.reverse_cons, insertBack_of_ge, List.take_append_of_le_length, List.take_of_length_le]
        · rw [List.length_append, List.length_reverse, List.length_singleton, hfull]
        · rw [List.length_append, List.length_reverse, List.length_singleton, hfull]
        · intro a ha
          rcases List.mem_append.mp ha with ha | ha
          · exact (hlast a ha last (List.mem_singleton_self last)).trans hge
          · rw [List.mem_singleton.mp ha]
            exact hge
      · rw [insertBack_concat_of_lt (not_le.mp fun h => hd (hiff.mpr h)),
          reverse_insertFromBack (fun y hy => hlt y (List.mem_cons_of_mem last hy)) hrest,
          List.take_append_of_le_length (by rw [hinsert, hfull]),
          List.take_of_length_le (by rw [hinsert, hfull])]

theorem pushAllBounded_concat (entries : List α) (x : α) :
    pushAllBounded lt stays k (entries ++ [x]) =
      pushBounded lt stays k (pushAllBounded lt stays k entries) x :=
  List.foldl_concat ..

theorem length_pushAllBounded (lt stays : α → α → Bool) (k : Nat) (entries : List α) :
    (pushAllBounded lt stays k entries).length = min k entries.length := by
  induction entries using List.reverseRecOn with
  | nil => exact (Nat.min_zero k).symm
  | append_singleton entries x ih =>
      rw [pushAllBounded_concat, length_pushBounded (by rw [ih]; exact Nat.min_le_left ..), ih,
        List.length_append, List.length_singleton]
      omega

theorem mem_pushAllBounded (h : y ∈ pushAllBounded lt stays k entries) : y ∈ entries := by
  induction entries using List.reverseRecOn with
  | nil => cases h
  | append_singleton entries x ih =>
      rw [pushAllBounded_concat] at h
      rcases mem_pushBounded h with hin | rfl
      · exact List.mem_append_left _ (ih hin)
      · exact List.mem_append_right _ (List.mem_singleton_self y)

/-- What the buffer keeps is the beginning of the stable sort. -/
theorem pushAllBounded_eq_take_sort
    (hlt : ∀ x ∈ entries, ∀ y ∈ entries, lt x y = true ↔ key x < key y)
    (hstays : ∀ x ∈ entries, ∀ y ∈ entries, stays x y = true ↔ key y ≤ key x) :
    (pushAllBounded lt stays k entries).reverse = (sortByKey key entries).take k := by
  induction entries using List.reverseRecOn with
  | nil =>
      rw [sortByKey, List.mergeSort_nil, List.take_nil]
      rfl
  | append_singleton entries x ih =>
      have hin : ∀ y ∈ entries, y ∈ entries ++ [x] := fun y hy => List.mem_append_left _ hy
      have hx : x ∈ entries ++ [x] := List.mem_append_right _ (List.mem_singleton_self x)
      have hkept := ih (fun a ha b hb => hlt a (hin a ha) b (hin b hb))
        fun a ha b hb => hstays a (hin a ha) b (hin b hb)
      rw [pushAllBounded_concat, sortByKey_concat, take_insertBack, ← hkept]
      apply reverse_pushBounded
      · exact fun y hy => hlt x hx y (hin y (mem_pushAllBounded hy))
      · exact fun y hy => hstays x hx y (hin y (mem_pushAllBounded hy))
      · rw [hkept]
        exact (sortByKey_pairwise key entries).sublist (List.take_sublist k _)
      · rw [length_pushAllBounded]
        exact Nat.min_le_left _ _

end

end Lib
