-- SUMMARY: The nearest targets of a collection of offers, and the condition under which their order does not matter.
import ForgeANN.HashPrune.Offers
import ForgeANN.Lib.Rank

/-!
# Nearest targets

What a reservoir is meant to keep of a collection of offers: the `lMax` targets
with the smallest stored distances.
-/
namespace ForgeANN

/-! ## The statement -/

/-- The hash of an offer is a function of its target. -/
def HashOfTarget (offers : List Offer) : Prop :=
  ∀ a ∈ offers, ∀ b ∈ offers, a.target = b.target → a.hash = b.hash

/-- All distances are distinct after truncation to `bf16`. -/
def DistinctDists (offers : List Offer) : Prop := offers.Pairwise Offer.Apart

instance (offers : List Offer) : Decidable (HashOfTarget offers) :=
  inferInstanceAs (Decidable (∀ a ∈ offers, ∀ b ∈ offers, a.target = b.target → a.hash = b.hash))

instance (a b : Offer) : Decidable (a.Apart b) := inferInstanceAs (Decidable (_ = false))

instance (offers : List Offer) : Decidable (DistinctDists offers) :=
  inferInstanceAs (Decidable (offers.Pairwise Offer.Apart))

/-- Every order of the offers leaves the same set of slots. -/
def HistoryIndependent (lMax : Nat) (h : 0 < lMax) (offers : List Offer) : Prop :=
  ∀ p q : List Offer, p.Perm offers → q.Perm offers → ∀ s : Slot,
    s ∈ ((HashPruneReservoir.new lMax h).insertAll p).slots ↔
      s ∈ ((HashPruneReservoir.new lMax h).insertAll q).slots

/-- The offered targets. -/
def targets (offers : List Offer) : Finset UInt32 := (offers.map Offer.target).toFinset

/-- The smallest stored distance offered for a target. -/
def nearest (offers : List Offer) (target : UInt32) : Int :=
  (((offers.filter fun o => o.target = target).map fun o => o.slot.key).min?).getD 0

/-- The `lMax` nearest targets. -/
def nearestTargets (lMax : Nat) (offers : List Offer) : Finset UInt32 :=
  Lib.smallest (targets offers) (nearest offers) lMax

/-- A distance that blocks its slot (a NaN) has nothing to compete with. -/
def BlockingAlone (lMax : Nat) (offers : List Offer) : Prop :=
  ∀ a ∈ offers, a.dist.Blocking →
    (targets offers).card ≤ lMax ∧ ∀ b ∈ offers, b.target = a.target → b.slot = a.slot

/-- Two of the nearest targets share a hash only if every other target has it as well. -/
def CrowdsAgree (lMax : Nat) (offers : List Offer) : Prop :=
  ∀ a ∈ offers, ∀ b ∈ offers, ∀ c ∈ offers,
    a.target ∈ nearestTargets lMax offers → b.target ∈ nearestTargets lMax offers →
    a.target ≠ b.target → a.hash = b.hash → c.target ∉ nearestTargets lMax offers →
    c.hash = a.hash

/-- The condition for history independence. -/
structure OrderFree (lMax : Nat) (offers : List Offer) : Prop where
  blocking : BlockingAlone lMax offers
  crowding : CrowdsAgree lMax offers

instance (lMax : Nat) (offers : List Offer) : Decidable (BlockingAlone lMax offers) :=
  inferInstanceAs (Decidable (∀ a ∈ offers, a.dist.Blocking → _ ∧ _))

instance (lMax : Nat) (offers : List Offer) : Decidable (CrowdsAgree lMax offers) :=
  inferInstanceAs (Decidable (∀ a ∈ offers, ∀ b ∈ offers, ∀ c ∈ offers, _))

instance (lMax : Nat) (offers : List Offer) : Decidable (OrderFree lMax offers) :=
  decidable_of_iff (BlockingAlone lMax offers ∧ CrowdsAgree lMax offers)
    ⟨fun h => ⟨h.1, h.2⟩, fun h => ⟨h.blocking, h.crowding⟩⟩

section

variable {lMax : Nat} {offers : List Offer}

/-! ## Nearest offers -/

theorem mem_targets {o : Offer} (h : o ∈ offers) : o.target ∈ targets offers :=
  List.mem_toFinset.mpr (List.mem_map_of_mem h)

theorem nearest_spec {t : UInt32} (ht : t ∈ targets offers) :
    ∃ o ∈ offers, o.target = t ∧ o.slot.key = nearest offers t := by
  obtain ⟨o, ho, hot⟩ := List.mem_map.mp (List.mem_toFinset.mp ht)
  cases hmin : ((offers.filter fun o => o.target = t).map fun o => o.slot.key).min? with
  | none =>
      have hnil := List.min?_eq_none_iff.mp hmin
      have hmem : o ∈ offers.filter fun o => o.target = t := by simp [ho, hot]
      rw [List.map_eq_nil_iff.mp hnil] at hmem
      exact absurd hmem List.not_mem_nil
  | some k =>
      obtain ⟨a, ha, hak⟩ := List.mem_map.mp (List.min?_mem hmin)
      rw [List.mem_filter] at ha
      exact ⟨a, ha.1, by simpa using ha.2, by simp [nearest, hmin, hak]⟩

theorem nearest_le {o : Offer} (h : o ∈ offers) : nearest offers o.target ≤ o.slot.key := by
  have hmem : o.slot.key ∈ (offers.filter fun a => a.target = o.target).map fun a => a.slot.key :=
    List.mem_map_of_mem (by simp [h])
  cases hmin : ((offers.filter fun a => a.target = o.target).map fun a => a.slot.key).min? with
  | none =>
      rw [List.min?_eq_none_iff.mp hmin] at hmem
      exact absurd hmem List.not_mem_nil
  | some k =>
      simp only [nearest, hmin, Option.getD_some]
      exact (List.min?_eq_some_iff.mp hmin).2 _ hmem

theorem apart_of_ne (hD : DistinctDists offers) {a b : Offer} (ha : a ∈ offers) (hb : b ∈ offers)
    (hne : a ≠ b) : a.Apart b :=
  hD.forall ha hb hne

/-- Over numbers, different targets have different nearest distances. -/
theorem nearest_injOn (hD : DistinctDists offers) (hnum : ∀ o ∈ offers, ¬ o.dist.Blocking) :
    Set.InjOn (nearest offers) (targets offers) := by
  intro t ht u hu h
  obtain ⟨a, ha, rfl, hak⟩ := nearest_spec (Finset.mem_coe.mp ht)
  obtain ⟨b, hb, rfl, hbk⟩ := nearest_spec (Finset.mem_coe.mp hu)
  by_contra hne
  have hab : a ≠ b := fun h => hne (congrArg Offer.target h)
  exact (apart_of_ne hD ha hb hab).key_ne (hnum a ha) (hnum b hb) (hak.trans (h.trans hbk.symm))

/-- An offer that, once stored, no other offer of its target displaces, and that
itself displaces every other one. -/
structure Best (offers : List Offer) (o : Offer) : Prop where
  mem : o ∈ offers
  stays : ∀ a ∈ offers, a.target = o.target → a.Apart o → a.dist.lt o.slot.dist.toF32 = false
  wins : ∀ a ∈ offers, a.target = o.target → o.Apart a →
    a.slot = o.slot ∨ o.dist.lt a.slot.dist.toF32 = true

theorem exists_best
    (hblock : ∀ a ∈ offers, a.dist.Blocking → ∀ b ∈ offers, b.target = a.target → b.slot = a.slot)
    {t : UInt32} (ht : t ∈ targets offers) :
    ∃ o, Best offers o ∧ o.target = t ∧ o.slot.key = nearest offers t := by
  obtain ⟨o, ho, rfl, hok⟩ := nearest_spec ht
  refine ⟨o, ?_, rfl, hok⟩
  by_cases hb : ∃ b ∈ offers, b.target = o.target ∧ b.dist.Blocking
  · obtain ⟨b, hb, hbt, hb'⟩ := hb
    have hslot : ∀ a ∈ offers, a.target = o.target → a.slot = b.slot := fun a ha hat =>
      hblock b hb hb' a ha (hat.trans hbt.symm)
    refine ⟨ho, fun a _ _ _ => ?_, fun a ha hat _ => .inl ?_⟩
    · rw [hslot o ho rfl]
      exact F32.lt_truncated_of_blocking hb' _
    · rw [hslot a ha hat, hslot o ho rfl]
  · have hnum : ∀ a ∈ offers, a.target = o.target → ¬ a.dist.Blocking :=
      fun a ha hat h => hb ⟨a, ha, hat, h⟩
    have hle : ∀ a ∈ offers, a.target = o.target → o.slot.key ≤ a.slot.key := fun a ha hat => by
      rw [hok, ← hat]
      exact nearest_le ha
    refine ⟨ho, fun a ha hat hap => ?_, fun a ha hat hap => .inr ?_⟩
    · rw [← Bool.not_eq_true, Offer.lt_iff_key_lt hap (hnum a ha hat) (hnum o ho rfl)]
      exact not_lt.mpr (hle a ha hat)
    · rw [Offer.lt_iff_key_lt hap (hnum o ho rfl) (hnum a ha hat)]
      exact lt_of_le_of_ne (hle a ha hat) (hap.key_ne (hnum o ho rfl) (hnum a ha hat))

theorem Best.key_eq (hD : DistinctDists offers) (hnum : ∀ o ∈ offers, ¬ o.dist.Blocking)
    {o : Offer} (h : Best offers o) : o.slot.key = nearest offers o.target := by
  obtain ⟨a, ha, hat, hak⟩ := nearest_spec (mem_targets h.mem)
  refine le_antisymm ?_ (nearest_le h.mem)
  rw [← hak]
  by_cases hoa : o = a
  · rw [hoa]
  have hap := apart_of_ne hD h.mem ha hoa
  rcases h.wins a ha hat hap with heq | hlt
  · rw [heq]
  · exact ((Offer.lt_iff_key_lt hap (hnum o h.mem) (hnum a ha)).mp hlt).le

theorem nearestTargets_subset : nearestTargets lMax offers ⊆ targets offers :=
  Lib.smallest_subset

theorem mem_nearestTargets_of_le {t u : UInt32} (ht : t ∈ targets offers)
    (h : nearest offers t ≤ nearest offers u) (hu : u ∈ nearestTargets lMax offers) :
    t ∈ nearestTargets lMax offers :=
  Lib.mem_smallest_of_le ht h hu

theorem nearestTargets_eq (h : (targets offers).card ≤ lMax) :
    nearestTargets lMax offers = targets offers :=
  Lib.smallest_eq_self h

theorem OrderFree.not_blocking (hQ : OrderFree lMax offers)
    (h : lMax < (targets offers).card) : ∀ o ∈ offers, ¬ o.dist.Blocking :=
  fun o ho hb => absurd (hQ.blocking o ho hb).1 (not_le.mpr h)

theorem card_nearestTargets (hQ : OrderFree lMax offers) (hD : DistinctDists offers) :
    (nearestTargets lMax offers).card = min lMax (targets offers).card := by
  by_cases h : (targets offers).card ≤ lMax
  · rw [nearestTargets_eq h, min_eq_right h]
  · exact Lib.card_smallest (nearest_injOn hD (hQ.not_blocking (not_le.mp h)))

end

end ForgeANN
