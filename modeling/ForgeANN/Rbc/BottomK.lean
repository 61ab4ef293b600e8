-- SUMMARY: Bottom-k samples depend on the set of ids only, whatever the unstable sorts and selections do.
import ForgeANN.Lib.Rank
import ForgeANN.Rbc.LeaderKernels
import Mathlib.Data.Prod.Lex

/-!
# Bottom-k samples

Every id has a score, and a sample consists of the ids of the `k` lowest ones.
The library routines in between are unstable, so any routine that sorts, and any
that selects, may stand for them: the ids tell the scores apart, and nothing of
the order of the list is left.
-/
namespace ForgeANN

open Lib

/-- What scored entries are compared by. -/
def scoreKey (entry : UInt64 × UInt32 × Nat) : Nat ×ₗ UInt32 :=
  toLex (entry.1.toNat, entry.2.1)

/-- The key of an id in a sample. -/
def sampleKey (seed : UInt64) (id : UInt32) : Nat ×ₗ UInt32 :=
  toLex ((stableSampleScore id seed).toNat, id)

/-- The routines of the standard library: `sort_unstable_by_key` by id and position,
`select_nth_unstable_by` and `sort_unstable_by_key` by score and id. -/
structure BottomkSorts where
  byPosition : UnstableSort fun a b : UInt32 × Nat => toLex a ≤ toLex b
  nth : UnstableSelect fun a b => scoreKey a ≤ scoreKey b
  byScore : UnstableSort fun a b => scoreKey a ≤ scoreKey b

namespace BottomkSorts

variable (sorts : BottomkSorts)

def unique (ids : List UInt32) : List (UInt32 × Nat) :=
  dedupByKey Prod.fst (sorts.byPosition.sort ids.zipIdx)

/-- `sample_positions_bottomk`. -/
def samplePositions (ids : List UInt32) (k : Nat) (seed : UInt64) : List Nat :=
  if k = 0 ∨ ids = [] then []
  else
    let unique := sorts.unique ids
    if unique.length ≤ k then unique.map fun (_, idx) => idx
    else
      let scored := unique.map fun (id, idx) => (stableSampleScore id seed, id, idx)
      let scored := (sorts.nth.select k scored).take k
      (sorts.byScore.sort scored).map fun (_, _, idx) => idx

/-- `sample_set_bottomk`. -/
def sampleSet (ids : List UInt32) (k : Nat) (seed : UInt64) : List UInt32 :=
  (sorts.samplePositions ids k seed).map fun idx => ids.getD idx 0

end BottomkSorts

/-- Where an id comes first. -/
def FirstAt (ids : List UInt32) (id : UInt32) (idx : Nat) : Prop :=
  ids[idx]? = some id ∧ id ∉ ids.take idx

variable {sorts : BottomkSorts} {ids : List UInt32} {id : UInt32} {k idx : Nat} {seed : UInt64}

theorem sampleKey_injective (seed : UInt64) : Function.Injective (sampleKey seed) := by
  intro a b h
  exact (Prod.mk.inj (toLex.injective h)).2

/-! ## Unique ids -/

theorem FirstAt.unique {other : Nat} (h : FirstAt ids id idx) (h' : FirstAt ids id other) :
    idx = other := by
  rcases lt_trichotomy idx other with hlt | heq | hlt
  · exact absurd (List.mem_of_getElem? (by rw [List.getElem?_take_of_lt hlt]; exact h.1)) h'.2
  · exact heq
  · exact absurd (List.mem_of_getElem? (by rw [List.getElem?_take_of_lt hlt]; exact h'.1)) h.2

namespace BottomkSorts

theorem byPosition_pairwise_fst (l : List (UInt32 × Nat)) :
    (sorts.byPosition.sort l).Pairwise fun a b => a.1 ≤ b.1 := by
  refine (sorts.byPosition.sorted l).imp fun {a b} hab => ?_
  rcases Prod.Lex.le_iff.mp hab with hlt | ⟨heq, -⟩
  · exact le_of_lt hlt
  · exact le_of_eq heq

theorem unique_pairwise (ids : List UInt32) : (sorts.unique ids).Pairwise fun a b => a.1 < b.1 :=
  pairwise_dedupByKey (byPosition_pairwise_fst _)

theorem mem_byPosition {p : UInt32 × Nat} :
    p ∈ sorts.byPosition.sort ids.zipIdx ↔ ids[p.2]? = some p.1 := by
  rw [(sorts.byPosition.perm _).mem_iff]
  exact List.mem_zipIdx_iff_getElem?

/-- Of every id it is the first position that stays. -/
theorem firstAt_of_mem_unique {p : UInt32 × Nat} (h : p ∈ sorts.unique ids) :
    FirstAt ids p.1 p.2 := by
  refine ⟨mem_byPosition.mp ((dedupByKey_sublist _ _).mem h), fun hbefore => ?_⟩
  obtain ⟨i, hi⟩ := List.getElem?_of_mem hbefore
  have hlt : i < p.2 := by
    have hlen : i < (ids.take p.2).length := (List.getElem?_eq_some_iff.mp hi).1
    rw [List.length_take] at hlen
    omega
  rw [List.getElem?_take_of_lt hlt] at hi
  have hmem : (p.1, i) ∈ sorts.byPosition.sort ids.zipIdx := mem_byPosition.mpr hi
  rcases dedupByKey_first (byPosition_pairwise_fst _) (sorts.byPosition.sorted _) h hmem rfl with
    heq | hle
  · rw [← heq] at hlt
    exact lt_irrefl i hlt
  · rcases Prod.Lex.le_iff.mp hle with hfst | ⟨-, hsnd⟩
    · exact absurd hfst (lt_irrefl p.1)
    · exact absurd hlt (not_lt.mpr hsnd)

theorem mem_unique_iff {p : UInt32 × Nat} : p ∈ sorts.unique ids ↔ FirstAt ids p.1 p.2 := by
  refine ⟨firstAt_of_mem_unique, fun h => ?_⟩
  have hkept : ∃ c ∈ sorts.unique ids, c.1 = p.1 := exists_key_dedupByKey (mem_byPosition.mpr h.1)
  obtain ⟨c, hc, heq⟩ := hkept
  have hfirst := firstAt_of_mem_unique hc
  rw [heq] at hfirst
  have hp : c = p := Prod.ext heq (hfirst.unique h)
  exact hp ▸ hc

theorem mem_map_fst_unique : id ∈ (sorts.unique ids).map Prod.fst ↔ id ∈ ids := by
  constructor
  · intro h
    obtain ⟨p, hp, rfl⟩ := List.mem_map.mp h
    exact List.mem_of_getElem? (firstAt_of_mem_unique hp).1
  · intro h
    obtain ⟨i, hi⟩ := List.getElem?_of_mem h
    have hmem : (id, i) ∈ sorts.byPosition.sort ids.zipIdx := mem_byPosition.mpr hi
    have hkept : ∃ c ∈ sorts.unique ids, c.1 = id := exists_key_dedupByKey hmem
    obtain ⟨c, hc, rfl⟩ := hkept
    exact List.mem_map_of_mem hc

theorem map_fst_unique_nodup (ids : List UInt32) : ((sorts.unique ids).map Prod.fst).Nodup :=
  List.pairwise_map.mpr ((unique_pairwise ids).imp ne_of_lt)

theorem toFinset_map_fst_unique (sorts : BottomkSorts) (ids : List UInt32) :
    ((sorts.unique ids).map Prod.fst).toFinset = ids.toFinset := by
  ext id
  rw [List.mem_toFinset, List.mem_toFinset, mem_map_fst_unique]

theorem length_unique (sorts : BottomkSorts) (ids : List UInt32) :
    (sorts.unique ids).length = ids.toFinset.card := by
  rw [← toFinset_map_fst_unique sorts,
    List.toFinset_card_of_nodup (map_fst_unique_nodup ids), List.length_map]

end BottomkSorts

/-! ## Picks -/

/-- The order of a sample: that of the ids if they are all in it, and that of the scores if not. -/
def SampleOrder (seed : UInt64) (all : Prop) (a b : UInt32) : Prop :=
  all ∧ a < b ∨ ¬ all ∧ sampleKey seed a < sampleKey seed b

/-- The ids picked, with their positions. -/
structure BottomkPicks (ids : List UInt32) (k : Nat) (seed : UInt64)
    (picks : List (UInt32 × Nat)) : Prop where
  first : ∀ p ∈ picks, FirstAt ids p.1 p.2
  ordered : (picks.map Prod.fst).Pairwise (SampleOrder seed (ids.toFinset.card ≤ k))
  lowest : ∀ id, id ∈ picks.map Prod.fst ↔ id ∈ smallest ids.toFinset (sampleKey seed) k

theorem SampleOrder.irrefl {all : Prop} {a b : UInt32} (h : SampleOrder seed all a b)
    (h' : SampleOrder seed all b a) : False := by
  rcases h with ⟨hall, hab⟩ | ⟨hall, hab⟩
  · rcases h' with ⟨-, hba⟩ | ⟨hall', -⟩
    · exact lt_asymm hab hba
    · exact hall' hall
  · rcases h' with ⟨hall', -⟩ | ⟨-, hba⟩
    · exact hall hall'
    · exact lt_asymm hab hba

theorem SampleOrder.ne {all : Prop} {a b : UInt32} (h : SampleOrder seed all a b) : a ≠ b := by
  rintro rfl
  exact h.irrefl h

namespace BottomkPicks

variable {picks other : List (UInt32 × Nat)}

theorem nodup (h : BottomkPicks ids k seed picks) : (picks.map Prod.fst).Nodup :=
  h.ordered.imp SampleOrder.ne

/-- Nothing of the order of the ids is left. -/
theorem congr {ids' : List UInt32} (h : BottomkPicks ids k seed picks)
    (h' : BottomkPicks ids' k seed other) (hset : ids.toFinset = ids'.toFinset) :
    picks.map Prod.fst = other.map Prod.fst := by
  have hordered := h'.ordered
  rw [← hset] at hordered
  apply List.Perm.eq_of_pairwise _ h.ordered hordered
  · rw [List.perm_ext_iff_of_nodup h.nodup h'.nodup]
    intro id
    rw [h.lowest, h'.lowest, hset]
  · exact fun a b _ _ hab hba => (hab.irrefl hba).elim

theorem length_eq (h : BottomkPicks ids k seed picks) :
    picks.length = min k ids.toFinset.card := by
  have hset : (picks.map Prod.fst).toFinset = smallest ids.toFinset (sampleKey seed) k := by
    ext id
    rw [List.mem_toFinset, h.lowest]
  rw [← card_smallest ((sampleKey_injective seed).injOn), ← hset,
    List.toFinset_card_of_nodup h.nodup, List.length_map]

/-- The positions of the picks lead back to their ids. -/
theorem map_getD (h : BottomkPicks ids k seed picks) :
    (picks.map Prod.snd).map (fun idx => ids.getD idx 0) = picks.map Prod.fst := by
  rw [List.map_map]
  apply List.map_congr_left
  intro p hp
  rw [Function.comp_apply, List.getD_eq_getElem?_getD, (h.first p hp).1, Option.getD_some]

end BottomkPicks

/-- The entries selected and sorted by their scores are picks. -/
theorem bottomkPicks_of_selected {chosen : List (UInt64 × UInt32 × Nat)}
    (hlt : ¬ ids.toFinset.card ≤ k) (hnodup : (chosen.map fun s => s.2.1).Nodup)
    (hscored : ∀ s ∈ chosen, s.1 = stableSampleScore s.2.1 seed ∧ FirstAt ids s.2.1 s.2.2)
    (hsorted : chosen.Pairwise fun a b => scoreKey a ≤ scoreKey b)
    (hlowest : ∀ id, id ∈ chosen.map (fun s => s.2.1) ↔
      id ∈ smallest ids.toFinset (sampleKey seed) k) :
    BottomkPicks ids k seed (chosen.map Prod.snd) where
  first p hp := by
    obtain ⟨s, hs, rfl⟩ := List.mem_map.mp hp
    exact (hscored s hs).2
  ordered := by
    rw [List.map_map, List.pairwise_map]
    rw [List.Nodup, List.pairwise_map] at hnodup
    refine List.Pairwise.imp_of_mem (fun {a b} ha hb hab => ?_) (hsorted.and hnodup)
    have hkey : ∀ s ∈ chosen, scoreKey s = sampleKey seed s.2.1 := fun s hs => by
      rw [scoreKey, sampleKey, (hscored s hs).1]
    have hle : sampleKey seed a.2.1 ≤ sampleKey seed b.2.1 := by
      rw [← hkey a ha, ← hkey b hb]
      exact hab.1
    exact .inr ⟨hlt, lt_of_le_of_ne hle fun heq => hab.2 (sampleKey_injective seed heq)⟩
  lowest id := by
    rw [List.map_map]
    exact hlowest id

namespace BottomkSorts

/-- Every sample is one of picks. -/
theorem exists_picks (sorts : BottomkSorts) (ids : List UInt32) (k : Nat) (seed : UInt64) :
    ∃ picks, BottomkPicks ids k seed picks ∧
      sorts.samplePositions ids k seed = picks.map Prod.snd := by
  unfold samplePositions
  split_ifs with hnone
  · refine ⟨[], ⟨fun p hp => absurd hp List.not_mem_nil, .nil, fun id => ?_⟩, rfl⟩
    rw [mem_smallest]
    rcases hnone with rfl | rfl
    · simp
    · simp
  simp only
  have hlen := length_unique sorts ids
  split_ifs with hall
  · -- all of the ids, in their order
    rw [hlen] at hall
    refine ⟨sorts.unique ids, ⟨fun p => firstAt_of_mem_unique, ?_, fun id => ?_⟩, rfl⟩
    · exact List.pairwise_map.mpr ((unique_pairwise ids).imp fun hab => .inl ⟨hall, hab⟩)
    · rw [smallest_eq_self hall, List.mem_toFinset, mem_map_fst_unique]
  · set scored := (sorts.unique ids).map fun (id, idx) => (stableSampleScore id seed, id, idx)
      with hscored
    set selected := sorts.nth.select k scored with hselected
    have hperm : selected.Perm scored := sorts.nth.perm k scored
    have hsorted : (sorts.byScore.sort (selected.take k)).Perm (selected.take k) :=
      sorts.byScore.perm _
    have hids : scored.map (fun s => s.2.1) = (sorts.unique ids).map Prod.fst := by
      rw [hscored, List.map_map]
      rfl
    have hidsPerm : (selected.map fun s => s.2.1).Perm ((sorts.unique ids).map Prod.fst) :=
      hids ▸ hperm.map _
    have hnodup : (selected.map fun s => s.2.1).Nodup :=
      hidsPerm.nodup_iff.mpr (map_fst_unique_nodup ids)
    have hentry : ∀ s ∈ selected,
        s.1 = stableSampleScore s.2.1 seed ∧ FirstAt ids s.2.1 s.2.2 := by
      intro s hs
      obtain ⟨p, hp, rfl⟩ := List.mem_map.mp (hperm.mem_iff.mp hs)
      exact ⟨rfl, firstAt_of_mem_unique hp⟩
    have hk : k < scored.length := by
      rw [hscored, List.length_map]
      omega
    refine ⟨(sorts.byScore.sort (selected.take k)).map Prod.snd, ?_, by rw [List.map_map]; rfl⟩
    apply bottomkPicks_of_selected
    · rwa [← hlen]
    · rw [(hsorted.map _).nodup_iff, List.map_take]
      exact (List.take_sublist k _).nodup hnodup
    · exact fun s hs => hentry s (List.mem_of_mem_take (hsorted.mem_iff.mp hs))
    · exact sorts.byScore.sorted _
    · intro id
      rw [(hsorted.map _).mem_iff, List.map_take, mem_take_iff_smallest hnodup
        (fun a _ b _ heq => sampleKey_injective seed heq)]
      · rw [List.toFinset_eq_of_perm _ _ hidsPerm, toFinset_map_fst_unique]
      · rw [List.length_map, hperm.length_eq]
        omega
      · -- the selection is by the keys of the ids
        rw [← List.map_take, ← List.map_drop]
        intro a ha b hb
        obtain ⟨s, hs, rfl⟩ := List.mem_map.mp ha
        obtain ⟨t, ht, rfl⟩ := List.mem_map.mp hb
        have hle := sorts.nth.parted k scored hk s hs t ht
        rw [scoreKey, scoreKey, (hentry s (List.mem_of_mem_take hs)).1,
          (hentry t (List.mem_of_mem_drop ht)).1] at hle
        exact hle

theorem exists_sampleSet (sorts : BottomkSorts) (ids : List UInt32) (k : Nat) (seed : UInt64) :
    ∃ picks, BottomkPicks ids k seed picks ∧ sorts.sampleSet ids k seed = picks.map Prod.fst := by
  obtain ⟨picks, hpicks, heq⟩ := sorts.exists_picks ids k seed
  exact ⟨picks, hpicks, by rw [sampleSet, heq, hpicks.map_getD]⟩

theorem mem_sampleSet : id ∈ sorts.sampleSet ids k seed ↔
    id ∈ smallest ids.toFinset (sampleKey seed) k := by
  obtain ⟨picks, hpicks, heq⟩ := sorts.exists_sampleSet ids k seed
  rw [heq, hpicks.lowest]

def byStableScore : UnstableSort fun a b => scoreKey a ≤ scoreKey b :=
  .mergeSort scoreKey
    (fun a b : UInt64 × UInt32 × Nat => decide (a.1 < b.1 ∨ a.1 = b.1 ∧ a.2.1 ≤ b.2.1)) fun a b => by
      rw [decide_eq_true_eq, scoreKey, scoreKey, Prod.Lex.toLex_le_toLex, UInt64.lt_iff_toNat_lt,
        UInt64.toNat_inj]

/-- Stable sorts, and a selection by sorting. -/
def stable : BottomkSorts where
  byPosition := .mergeSort toLex
    (fun a b : UInt32 × Nat => decide (a.1 < b.1 ∨ a.1 = b.1 ∧ a.2 ≤ b.2)) fun a b => by
      rw [decide_eq_true_eq, Prod.Lex.toLex_le_toLex]
  nth := byStableScore.toSelect
  byScore := byStableScore

/-- What has been sorted and cut off stays as it is when it is sorted again. -/
theorem byStableScore_take (l : List (UInt64 × UInt32 × Nat)) (k : Nat) :
    byStableScore.sort ((byStableScore.sort l).take k) = (byStableScore.sort l).take k := by
  apply List.mergeSort_of_pairwise
  refine ((byStableScore.sorted l).sublist (List.take_sublist k _)).imp fun {a b} hab => ?_
  rw [scoreKey, scoreKey, Prod.Lex.toLex_le_toLex, ← UInt64.lt_iff_toNat_lt, UInt64.toNat_inj] at hab
  exact decide_eq_true hab

theorem stable_samplePositions (ids : List UInt32) (k : Nat) (seed : UInt64) :
    stable.samplePositions ids k seed = samplePositionsBottomk ids k seed := by
  unfold samplePositions samplePositionsBottomk
  have hunique : stable.unique ids = uniquePositions ids := rfl
  simp only [hunique]
  split_ifs
  · rfl
  · rfl
  · exact congrArg _ (byStableScore_take _ k)

/-- The samples that the splits are made from are those of any library routines. -/
theorem sampleSetBottomk_eq (sorts : BottomkSorts) (ids : List UInt32) (k : Nat) (seed : UInt64) :
    sampleSetBottomk ids k seed = sorts.sampleSet ids k seed := by
  obtain ⟨picks, hpicks, heq⟩ := stable.exists_sampleSet ids k seed
  obtain ⟨picks', hpicks', heq'⟩ := sorts.exists_sampleSet ids k seed
  rw [sampleSetBottomk, ← stable_samplePositions, heq', ← hpicks.congr hpicks' rfl, ← heq]
  rfl

/-- A sample is a function of the set of ids, the seed and `k`, whatever the library routines do:
distinct ids of the set, as many as there are up to `k`. A larger `k` adds to it, and what a union
picks from a part the part picks itself. The positions are those where the ids come first. -/
theorem sampleSet_of_set (k : Nat) (seed : UInt64) :
    (∀ (sorts other : BottomkSorts) (ids ids' : List UInt32), (∀ id, id ∈ ids ↔ id ∈ ids') →
      sorts.sampleSet ids k seed = other.sampleSet ids' k seed) ∧
    (∀ (sorts : BottomkSorts) (ids : List UInt32),
      (sorts.sampleSet ids k seed).Nodup ∧ sorts.sampleSet ids k seed ⊆ ids ∧
        (sorts.sampleSet ids k seed).length = min k ids.toFinset.card ∧
        sorts.sampleSet ids k seed ⊆ sorts.sampleSet ids (k + 1) seed) ∧
    (∀ (sorts : BottomkSorts) (left right both : List UInt32),
      (∀ id, id ∈ both ↔ id ∈ left ∨ id ∈ right) →
        (∀ id ∈ sorts.sampleSet both k seed, id ∈ left → id ∈ sorts.sampleSet left k seed) ∧
        ∀ id ∈ sorts.sampleSet both k seed, id ∈ right → id ∈ sorts.sampleSet right k seed) ∧
    ∀ (sorts : BottomkSorts) (ids : List UInt32),
      (sorts.samplePositions ids k seed).length = (sorts.sampleSet ids k seed).length ∧
      ∀ (i idx : Nat), (sorts.samplePositions ids k seed)[i]? = some idx →
        ∃ id, (sorts.sampleSet ids k seed)[i]? = some id ∧ FirstAt ids id idx := by
  have hpart : ∀ (sorts : BottomkSorts) (part both : List UInt32), (∀ id ∈ part, id ∈ both) →
      ∀ id ∈ sorts.sampleSet both k seed, id ∈ part → id ∈ sorts.sampleSet part k seed := by
    intro sorts part both hsub id hid hin
    rw [mem_sampleSet, mem_smallest] at hid ⊢
    have hle : part.toFinset ⊆ both.toFinset := fun x hx =>
      List.mem_toFinset.mpr (hsub x (List.mem_toFinset.mp hx))
    exact ⟨List.mem_toFinset.mpr hin, lt_of_le_of_lt (rank_subset hle) hid.2⟩
  refine ⟨fun sorts other ids ids' hset => ?_, fun sorts ids => ⟨?_, ?_, ?_, ?_⟩,
    fun sorts left right both hboth => ⟨?_, ?_⟩, fun sorts ids => ⟨?_, fun i idx hi => ?_⟩⟩
  · obtain ⟨picks, hpicks, heq⟩ := sorts.exists_sampleSet ids k seed
    obtain ⟨picks', hpicks', heq'⟩ := other.exists_sampleSet ids' k seed
    rw [heq, heq']
    apply hpicks.congr hpicks'
    ext id
    rw [List.mem_toFinset, List.mem_toFinset, hset]
  · obtain ⟨picks, hpicks, heq⟩ := sorts.exists_sampleSet ids k seed
    rw [heq]
    exact hpicks.nodup
  · intro id hid
    rw [mem_sampleSet] at hid
    exact List.mem_toFinset.mp (smallest_subset hid)
  · obtain ⟨picks, hpicks, heq⟩ := sorts.exists_sampleSet ids k seed
    rw [heq, List.length_map, hpicks.length_eq]
  · intro id hid
    rw [mem_sampleSet, mem_smallest] at hid ⊢
    exact ⟨hid.1, Nat.lt_succ_of_lt hid.2⟩
  · exact hpart sorts left both fun id hid => (hboth id).mpr (.inl hid)
  · exact hpart sorts right both fun id hid => (hboth id).mpr (.inr hid)
  · rw [sampleSet, List.length_map]
  · obtain ⟨picks, hpicks, heq⟩ := sorts.exists_picks ids k seed
    rw [heq, List.getElem?_map, Option.map_eq_some_iff] at hi
    obtain ⟨p, hp, rfl⟩ := hi
    refine ⟨p.1, ?_, hpicks.first p (List.mem_of_getElem? hp)⟩
    rw [sampleSet, heq, hpicks.map_getD, List.getElem?_map, hp]
    rfl

end BottomkSorts

end ForgeANN
