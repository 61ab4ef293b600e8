-- SUMMARY: Sorting a list and dropping repeated neighbours, as a canonical form of its set of elements.
import Mathlib.Data.List.Basic
import Mathlib.Data.List.Sort
import Mathlib.Order.Defs.LinearOrder
import Mathlib.Data.List.Nodup

/-!
# Sort and dedup

Sorting and then dropping equal neighbours leaves the strictly increasing list
of the elements, so the result depends only on which elements there are.
-/
namespace Lib

variable {α : Type*}

/-- `Vec::dedup`: of equal neighbours keep one. -/
def dedupAdjacent [DecidableEq α] : List α → List α
  | [] => []
  | [a] => [a]
  | a :: b :: l => if a = b then dedupAdjacent (b :: l) else a :: dedupAdjacent (b :: l)

theorem mem_dedupAdjacent [DecidableEq α] {l : List α} {x : α} : x ∈ dedupAdjacent l ↔ x ∈ l := by
  induction l using dedupAdjacent.induct with
  | case1 => rfl
  | case2 a => rfl
  | case3 a l ih => simp [dedupAdjacent, ih]
  | case4 a b l hab ih => simp [dedupAdjacent, hab, ih]

/-- A list is made up of the buckets of its elements' keys. -/
theorem perm_flatMap_filter {β : Type} [DecidableEq α] (f : β → α) {keys : List α} {l : List β}
    (hnodup : keys.Nodup) (hmem : ∀ b ∈ l, f b ∈ keys) :
    (keys.flatMap fun key => l.filter fun b => f b = key).Perm l := by
  induction keys generalizing l with
  | nil =>
      have hnil : l = [] := List.eq_nil_iff_forall_not_mem.mpr fun b hb => by simpa using hmem b hb
      rw [hnil]
      exact .refl _
  | cons key keys ih =>
      obtain ⟨hkey, hnodup⟩ := List.nodup_cons.mp hnodup
      rw [List.flatMap_cons]
      refine .trans (.append_left _ ?_) (List.filter_append_perm (fun b => f b = key) l)
      have hrest : ∀ other ∈ keys, (l.filter fun b => f b = other) =
          (l.filter fun b => !decide (f b = key)).filter fun b => f b = other := by
        intro other hother
        rw [List.filter_filter]
        apply List.filter_congr
        intro b _
        have hne : other ≠ key := fun heq => hkey (heq ▸ hother)
        by_cases hb : f b = other
        · simp [hb, hne]
        · simp [hb]
      rw [List.flatMap_congr hrest]
      apply ih hnodup
      intro b hb
      obtain ⟨hb, hne⟩ := List.mem_filter.mp hb
      exact (List.mem_cons.mp (hmem b hb)).resolve_left (by simpa using hne)

/-- Only one key's bucket has anything in it. -/
theorem flatMap_eq_of_unique {β : Type} {f : α → List β} {keys : List α} {key : α}
    (hnodup : keys.Nodup) (hmem : key ∈ keys) (hnil : ∀ other ∈ keys, other ≠ key → f other = []) :
    keys.flatMap f = f key := by
  induction keys with
  | nil => cases hmem
  | cons other keys ih =>
      obtain ⟨hother, hnodup⟩ := List.nodup_cons.mp hnodup
      rw [List.flatMap_cons]
      rcases List.mem_cons.mp hmem with rfl | hmem
      · have hrest : keys.flatMap f = [] := List.flatMap_eq_nil_iff.mpr fun k hk =>
          hnil k (List.mem_cons_of_mem _ hk) fun heq => hother (heq ▸ hk)
        rw [hrest, List.append_nil]
      · have hne : other ≠ key := fun heq => hother (heq ▸ hmem)
        rw [hnil other List.mem_cons_self hne, List.nil_append]
        exact ih hnodup hmem fun k hk => hnil k (List.mem_cons_of_mem _ hk)

/-! ## Dropping neighbours with equal keys -/

section

variable {β : Type}

/-- What stays of the items behind `last`, where those with the key of the one kept last go. -/
def dedupFrom [DecidableEq α] (key : β → α) : β → List β → List β
  | _, [] => []
  | last, b :: l => if key b = key last then dedupFrom key last l else b :: dedupFrom key b l

/-- `Vec::dedup_by_key`: of neighbours with equal keys keep the first. -/
def dedupByKey [DecidableEq α] (key : β → α) : List β → List β
  | [] => []
  | b :: l => b :: dedupFrom key b l

variable {key : β → α} {l : List β} {last b : β}

theorem dedupFrom_sublist [DecidableEq α] : (dedupFrom key last l).Sublist l := by
  induction l generalizing last with
  | nil => exact .slnil
  | cons b l ih =>
      rw [dedupFrom]
      split_ifs
      · exact ih.cons b
      · exact ih.cons_cons b

theorem dedupByKey_sublist [DecidableEq α] (key : β → α) (l : List β) :
    (dedupByKey key l).Sublist l := by
  cases l with
  | nil => exact .slnil
  | cons b l => exact dedupFrom_sublist.cons_cons b

theorem exists_key_dedupFrom [DecidableEq α] (h : b ∈ l) :
    key b = key last ∨ ∃ c ∈ dedupFrom key last l, key c = key b := by
  induction l generalizing last with
  | nil => cases h
  | cons a l ih =>
      rw [dedupFrom]
      split_ifs with hkey
      · rcases List.mem_cons.mp h with rfl | hmem
        · exact .inl hkey
        · exact ih hmem
      · rcases List.mem_cons.mp h with rfl | hmem
        · exact .inr ⟨b, List.mem_cons_self, rfl⟩
        · have hkept : key b = key a ∨ ∃ c ∈ dedupFrom key a l, key c = key b := ih hmem
          rcases hkept with heq | ⟨c, hc, heq⟩
          · exact .inr ⟨a, List.mem_cons_self, heq.symm⟩
          · exact .inr ⟨c, List.mem_cons_of_mem a hc, heq⟩

/-- No key gets lost. -/
theorem exists_key_dedupByKey [DecidableEq α] (h : b ∈ l) :
    ∃ c ∈ dedupByKey key l, key c = key b := by
  cases l with
  | nil => cases h
  | cons a l =>
      rw [dedupByKey]
      rcases List.mem_cons.mp h with rfl | hmem
      · exact ⟨b, List.mem_cons_self, rfl⟩
      · have hkept : key b = key a ∨ ∃ c ∈ dedupFrom key a l, key c = key b :=
          exists_key_dedupFrom hmem
        rcases hkept with heq | ⟨c, hc, heq⟩
        · exact ⟨a, List.mem_cons_self, heq.symm⟩
        · exact ⟨c, List.mem_cons_of_mem a hc, heq⟩

theorem pairwise_dedupFrom [LinearOrder α] (hlast : ∀ b ∈ l, key last ≤ key b)
    (h : l.Pairwise fun a b => key a ≤ key b) :
    (last :: dedupFrom key last l).Pairwise fun a b => key a < key b := by
  induction l generalizing last with
  | nil => exact List.pairwise_singleton ..
  | cons b l ih =>
      obtain ⟨hb, hl⟩ := List.pairwise_cons.mp h
      rw [dedupFrom]
      split_ifs with hkey
      · exact ih (fun c hc => hlast c (List.mem_cons_of_mem b hc)) hl
      · have hlt : key last < key b := lt_of_le_of_ne (hlast b List.mem_cons_self) (Ne.symm hkey)
        refine List.pairwise_cons.mpr ⟨fun c hc => ?_, ih hb hl⟩
        rcases List.mem_cons.mp hc with rfl | hmem
        · exact hlt
        · exact lt_of_lt_of_le hlt (hb c (dedupFrom_sublist.mem hmem))

/-- What was sorted by key has distinct keys behind it. -/
theorem pairwise_dedupByKey [LinearOrder α] (h : l.Pairwise fun a b => key a ≤ key b) :
    (dedupByKey key l).Pairwise fun a b => key a < key b := by
  cases l with
  | nil => exact .nil
  | cons b l =>
      obtain ⟨hb, hl⟩ := List.pairwise_cons.mp h
      exact pairwise_dedupFrom hb hl

theorem dedupFrom_first [LinearOrder α] {R : β → β → Prop} {c : β}
    (hlast : ∀ b ∈ l, key last ≤ key b) (h : l.Pairwise fun a b => key a ≤ key b)
    (hR : l.Pairwise R) (hc : c ∈ dedupFrom key last l) (hb : b ∈ l) (hkey : key b = key c) :
    b = c ∨ R c b := by
  induction l generalizing last with
  | nil => cases hb
  | cons a l ih =>
      have hlt : key last < key c := (List.pairwise_cons.mp (pairwise_dedupFrom hlast h)).1 c hc
      obtain ⟨ha, hl⟩ := List.pairwise_cons.mp h
      obtain ⟨hRa, hRl⟩ := List.pairwise_cons.mp hR
      rw [dedupFrom] at hc
      split_ifs at hc with heq
      · rcases List.mem_cons.mp hb with rfl | hmem
        · exact absurd (heq.symm.trans hkey) hlt.ne
        · exact ih (fun c hc => hlast c (List.mem_cons_of_mem a hc)) hl hRl hc hmem
      · rcases List.mem_cons.mp hc with rfl | hc
        · rcases List.mem_cons.mp hb with rfl | hmem
          · exact .inl rfl
          · exact .inr (hRa b hmem)
        · rcases List.mem_cons.mp hb with rfl | hmem
          · have hab : key b < key c := (List.pairwise_cons.mp (pairwise_dedupFrom ha hl)).1 c hc
            exact absurd hkey hab.ne
          · exact ih ha hl hRl hc hmem

/-- Of what was sorted by key, it is the first of equal keys that stays. -/
theorem dedupByKey_first [LinearOrder α] {R : β → β → Prop} {c : β}
    (h : l.Pairwise fun a b => key a ≤ key b) (hR : l.Pairwise R) (hc : c ∈ dedupByKey key l)
    (hb : b ∈ l) (hkey : key b = key c) : b = c ∨ R c b := by
  cases l with
  | nil => cases hb
  | cons a l =>
      obtain ⟨ha, hl⟩ := List.pairwise_cons.mp h
      obtain ⟨hRa, hRl⟩ := List.pairwise_cons.mp hR
      rw [dedupByKey] at hc
      rcases List.mem_cons.mp hc with rfl | hc
      · rcases List.mem_cons.mp hb with rfl | hmem
        · exact .inl rfl
        · exact .inr (hRa b hmem)
      · rcases List.mem_cons.mp hb with rfl | hmem
        · have hab : key b < key c := (List.pairwise_cons.mp (pairwise_dedupFrom ha hl)).1 c hc
          exact absurd hkey hab.ne
        · exact dedupFrom_first ha hl hRl hc hmem hkey

end

variable [LinearOrder α]

theorem pairwise_lt_dedupAdjacent {l : List α} (h : l.Pairwise (· ≤ ·)) :
    (dedupAdjacent l).Pairwise (· < ·) := by
  induction l using dedupAdjacent.induct with
  | case1 => exact .nil
  | case2 a => exact List.pairwise_singleton _ _
  | case3 a l ih =>
      rw [dedupAdjacent, if_pos rfl]
      exact ih (List.pairwise_cons.mp h).2
  | case4 a b l hab ih =>
      rw [dedupAdjacent, if_neg hab]
      obtain ⟨ha, hbl⟩ := List.pairwise_cons.mp h
      refine List.pairwise_cons.mpr ⟨fun x hx => ?_, ih hbl⟩
      have hb : a < b := lt_of_le_of_ne (ha b List.mem_cons_self) hab
      rcases List.mem_cons.mp (mem_dedupAdjacent.mp hx) with rfl | hx
      · exact hb
      · exact lt_of_lt_of_le hb ((List.pairwise_cons.mp hbl).1 x hx)

/-- `sort_unstable` followed by `dedup`. -/
def sortDedup (l : List α) : List α := dedupAdjacent (l.mergeSort fun a b => a ≤ b)

@[simp] theorem mem_sortDedup {l : List α} {x : α} : x ∈ sortDedup l ↔ x ∈ l := by
  rw [sortDedup, mem_dedupAdjacent, List.mem_mergeSort]

theorem sortDedup_pairwise (l : List α) : (sortDedup l).Pairwise (· < ·) := by
  refine pairwise_lt_dedupAdjacent ?_
  have htrans : ∀ a b c : α, decide (a ≤ b) → decide (b ≤ c) → decide (a ≤ c) := by
    simpa using fun a b c => le_trans
  have htotal : ∀ a b : α, (decide (a ≤ b) || decide (b ≤ a)) = true := by
    simpa using le_total
  have h := List.pairwise_mergeSort htrans htotal l
  simpa using h

theorem sortDedup_nodup (l : List α) : (sortDedup l).Nodup :=
  (sortDedup_pairwise l).imp ne_of_lt

/-- Lists with the same elements have the same sorted form. -/
theorem sortDedup_congr {l m : List α} (h : ∀ x, x ∈ l ↔ x ∈ m) : sortDedup l = sortDedup m := by
  refine List.Perm.eq_of_pairwise (fun a b _ _ hab hba => absurd (lt_trans hab hba) (lt_irrefl _))
    (sortDedup_pairwise l) (sortDedup_pairwise m) ?_
  rw [List.perm_ext_iff_of_nodup (sortDedup_nodup l) (sortDedup_nodup m)]
  intro x
  rw [mem_sortDedup, mem_sortDedup, h]

/-- What is sorted and has no repetitions stays as it is. -/
theorem sortDedup_eq_self {l : List α} (h : l.Pairwise (· < ·)) : sortDedup l = l := by
  refine List.Perm.eq_of_pairwise (fun a b _ _ hab hba => absurd (lt_trans hab hba) (lt_irrefl _))
    (sortDedup_pairwise l) h ?_
  rw [List.perm_ext_iff_of_nodup (sortDedup_nodup l) (h.imp ne_of_lt)]
  exact fun x => mem_sortDedup

/-! ## Unstable sorts -/

/-- An unstable sort: of the ways to sort a list, some one. -/
structure UnstableSort {β : Type} (le : β → β → Prop) where
  sort : List β → List β
  perm : ∀ l, (sort l).Perm l
  sorted : ∀ l, (sort l).Pairwise le

/-- What is strictly sorted by its keys is sorted in one way only. -/
theorem UnstableSort.eq_self {β : Type} {key : β → α} (s : UnstableSort fun a b => key a ≤ key b)
    {l : List β} (h : l.Pairwise fun a b => key a < key b) : s.sort l = l := by
  have hinj : ∀ a ∈ l, ∀ b ∈ l, key a = key b → a = b :=
    List.inj_on_of_nodup_map (List.pairwise_map.mpr (h.imp ne_of_lt))
  apply List.Perm.eq_of_pairwise _ (s.sorted l) (h.imp le_of_lt) (s.perm l)
  intro a b ha hb hab hba
  exact hinj a ((s.perm l).mem_iff.mp ha) b hb (le_antisymm hab hba)

/-- Sorting by a key, by insertion. -/
def UnstableSort.byKey {β : Type} (key : β → α) : UnstableSort fun a b => key a ≤ key b where
  sort l := l.insertionSort fun a b => key a ≤ key b
  perm l := List.perm_insertionSort _ l
  sorted l := by
    have : Std.Total fun a b : β => key a ≤ key b := ⟨fun a b => le_total (key a) (key b)⟩
    have : IsTrans β fun a b : β => key a ≤ key b := ⟨fun _ _ _ => le_trans⟩
    exact List.pairwise_insertionSort _ l

/-- Merge sort by a comparison of the keys. -/
def UnstableSort.mergeSort {β : Type} (key : β → α) (le : β → β → Bool)
    (hle : ∀ a b, le a b = true ↔ key a ≤ key b) : UnstableSort fun a b => key a ≤ key b where
  sort l := l.mergeSort le
  perm l := List.mergeSort_perm l le
  sorted l := by
    refine (List.pairwise_mergeSort (fun a b c hab hbc => ?_) (fun a b => ?_) l).imp
      fun h => (hle _ _).mp h
    · exact (hle a c).mpr (le_trans ((hle a b).mp hab) ((hle b c).mp hbc))
    · rw [Bool.or_eq_true, hle, hle]
      exact le_total (key a) (key b)

/-- An unstable selection: some arrangement whose first `k` are the `k` smallest. -/
structure UnstableSelect {β : Type} (le : β → β → Prop) where
  select : Nat → List β → List β
  perm : ∀ k l, (select k l).Perm l
  parted : ∀ k l, k < l.length → ∀ a ∈ (select k l).take k, ∀ b ∈ (select k l).drop k, le a b

/-- A sort selects as well. -/
def UnstableSort.toSelect {β : Type} {le : β → β → Prop} (s : UnstableSort le) :
    UnstableSelect le where
  select _ l := s.sort l
  perm _ l := s.perm l
  parted k l _ := by
    have h := s.sorted l
    rw [← List.take_append_drop k (s.sort l), List.pairwise_append] at h
    exact h.2.2

end Lib
