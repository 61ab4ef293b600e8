-- SUMMARY: Ranks in a finite set ordered by an injective key, and how many elements have a rank below a bound.
import Mathlib.Data.Finset.Card
import Mathlib.Data.Finset.Max
import Mathlib.Order.Interval.Finset.Nat

/-!
# Ranks in a finite set

The rank of an element is the number of elements with a strictly smaller key.
When the key tells the elements apart, the ranks are `0, 1, ..., card - 1`, so
the elements of rank below `m` are the `m` smallest ones.
-/
namespace Lib

variable {α β : Type*} [LinearOrder β]

/-- The number of elements of `S` whose key is below that of `x`. -/
def rank (S : Finset α) (key : α → β) (x : α) : Nat := (S.filter fun y => key y < key x).card

/-- The elements of `S` of rank below `m`. -/
def smallest (S : Finset α) (key : α → β) (m : Nat) : Finset α :=
  S.filter fun x => rank S key x < m

variable {S : Finset α} {key : α → β} {x y : α} {m : Nat}

theorem mem_smallest : x ∈ smallest S key m ↔ x ∈ S ∧ rank S key x < m := by
  simp [smallest]

theorem smallest_subset : smallest S key m ⊆ S := Finset.filter_subset _ _

theorem rank_mono (h : key x ≤ key y) : rank S key x ≤ rank S key y := by
  refine Finset.card_le_card fun z hz => ?_
  simp only [Finset.mem_filter] at hz ⊢
  exact ⟨hz.1, hz.2.trans_le h⟩

theorem rank_lt_of_lt (hx : x ∈ S) (h : key x < key y) : rank S key x < rank S key y := by
  refine Finset.card_lt_card (Finset.ssubset_iff_subset_ne.mpr ⟨fun z hz => ?_, fun heq => ?_⟩)
  · simp only [Finset.mem_filter] at hz ⊢
    exact ⟨hz.1, hz.2.trans h⟩
  · have hmem : x ∈ S.filter fun z => key z < key y := by simp [hx, h]
    rw [← heq] at hmem
    simp at hmem

theorem rank_lt_card (hx : x ∈ S) : rank S key x < S.card := by
  refine Finset.card_lt_card (Finset.ssubset_iff_subset_ne.mpr ⟨Finset.filter_subset _ _, fun h => ?_⟩)
  rw [← h] at hx
  simp at hx

/-- Below the bound, everything is among the smallest. -/
theorem smallest_eq_self (h : S.card ≤ m) : smallest S key m = S :=
  Finset.filter_true_of_mem fun _ hx => (rank_lt_card hx).trans_le h

/-- The smallest elements are closed downwards. -/
theorem mem_smallest_of_le (hx : x ∈ S) (h : key x ≤ key y) (hy : y ∈ smallest S key m) :
    x ∈ smallest S key m :=
  mem_smallest.mpr ⟨hx, (rank_mono h).trans_lt (mem_smallest.mp hy).2⟩

theorem rank_injOn (hkey : Set.InjOn key S) : Set.InjOn (rank S key) S := by
  intro x hx y hy h
  rcases lt_trichotomy (key x) (key y) with hlt | heq | hlt
  · exact absurd h (rank_lt_of_lt hx hlt).ne
  · exact hkey hx hy heq
  · exact absurd h (rank_lt_of_lt hy hlt).ne'

/-- Distinct keys give every rank below the size exactly once. -/
theorem image_rank (hkey : Set.InjOn key S) : S.image (rank S key) = Finset.range S.card := by
  refine Finset.eq_of_subset_of_card_le (fun k hk => ?_) ?_
  · obtain ⟨x, hx, rfl⟩ := Finset.mem_image.mp hk
    exact Finset.mem_range.mpr (rank_lt_card hx)
  · rw [Finset.card_range, Finset.card_image_of_injOn (rank_injOn hkey)]

/-- Under distinct keys `smallest` holds `m` elements, or all of `S` if there are fewer. -/
theorem card_smallest (hkey : Set.InjOn key S) : (smallest S key m).card = min m S.card := by
  have himage : (smallest S key m).image (rank S key) = Finset.range (min m S.card) := by
    ext k
    simp only [smallest, Finset.mem_image, Finset.mem_filter, Finset.mem_range, lt_min_iff]
    constructor
    · rintro ⟨x, ⟨hx, hm⟩, rfl⟩
      exact ⟨hm, rank_lt_card hx⟩
    · rintro ⟨hm, hk⟩
      have hmem : k ∈ S.image (rank S key) := by rw [image_rank hkey]; exact Finset.mem_range.mpr hk
      obtain ⟨x, hx, rfl⟩ := Finset.mem_image.mp hmem
      exact ⟨x, ⟨hx, hm⟩, rfl⟩
  have hinj : Set.InjOn (rank S key) (smallest S key m) :=
    (rank_injOn hkey).mono (Finset.coe_subset.mpr smallest_subset)
  rw [← Finset.card_image_of_injOn hinj, himage, Finset.card_range]

/-- Fewer elements around, and lower ranks. -/
theorem rank_subset {T : Finset α} (h : T ⊆ S) : rank T key x ≤ rank S key x :=
  Finset.card_le_card (Finset.filter_subset_filter _ h)

/-- In an arrangement whose first `m` are not above the others, these are the `m` smallest. -/
theorem mem_take_iff_smallest [DecidableEq α] {l : List α} (hnodup : l.Nodup)
    (hkey : ∀ a ∈ l, ∀ b ∈ l, key a = key b → a = b) (hm : m ≤ l.length)
    (hparted : ∀ a ∈ l.take m, ∀ b ∈ l.drop m, key a ≤ key b) :
    x ∈ l.take m ↔ x ∈ smallest l.toFinset key m := by
  have hsplit : ∀ y, y ∈ l ↔ y ∈ l.take m ∨ y ∈ l.drop m := by
    intro y
    rw [← List.mem_append, List.take_append_drop]
  have htake : (l.take m).toFinset.card = m := by
    rw [List.toFinset_card_of_nodup ((List.take_sublist m l).nodup hnodup), List.length_take]
    exact Nat.min_eq_left hm
  rw [mem_smallest, List.mem_toFinset]
  constructor
  · intro hx
    refine ⟨(hsplit x).mpr (.inl hx), ?_⟩
    -- whatever is smaller is one of the other `m - 1`
    have hsub : (l.toFinset.filter fun y => key y < key x) ⊆ (l.take m).toFinset.erase x := by
      intro y hy
      rw [Finset.mem_filter, List.mem_toFinset] at hy
      rw [Finset.mem_erase, List.mem_toFinset]
      refine ⟨fun heq => lt_irrefl _ (heq ▸ hy.2), ?_⟩
      rcases (hsplit y).mp hy.1 with hin | hin
      · exact hin
      · exact absurd hy.2 (not_lt.mpr (hparted x hx y hin))
    have hcard := Finset.card_le_card hsub
    have hmem : x ∈ (l.take m).toFinset := List.mem_toFinset.mpr hx
    rw [Finset.card_erase_of_mem hmem, htake] at hcard
    have hpos : 0 < m := by
      rw [← htake]
      exact Finset.card_pos.mpr ⟨x, hmem⟩
    exact lt_of_le_of_lt hcard (by omega)
  · rintro ⟨hx, hrank⟩
    rcases (hsplit x).mp hx with hin | hin
    · exact hin
    · -- all of the first `m` would be smaller
      have hsub : (l.take m).toFinset ⊆ l.toFinset.filter fun y => key y < key x := by
        intro y hy
        rw [List.mem_toFinset] at hy
        rw [Finset.mem_filter, List.mem_toFinset]
        have hyl : y ∈ l := (hsplit y).mpr (.inl hy)
        refine ⟨hyl, lt_of_le_of_ne (hparted y hy x hin) fun heq => ?_⟩
        have hxy : y = x := hkey y hyl x hx heq
        rw [← List.take_append_drop m l, List.nodup_append] at hnodup
        exact hnodup.2.2 y hy x hin hxy
      have hcard := Finset.card_le_card hsub
      rw [htake] at hcard
      exact absurd hrank (not_lt.mpr hcard)

end Lib
