-- SUMMARY: The nearest candidate that was ever offered stays in the reservoir, at its truncated distance.
import ForgeANN.HashPrune.Residence

/-!
# The nearest candidate

An offer is refused for a slot that is no farther, and a slot leaves for an
offer that is nearer. So for whatever is offered or stored there is something
no farther in the reservoir afterwards, on every branch of `insert`.
-/
namespace ForgeANN

/-- No offer is nearer. -/
def Offer.Closest (offers : List Offer) (o : Offer) : Prop :=
  o ∈ offers ∧ ∀ a ∈ offers, a.dist.lt o.dist = false

/-- No slot is nearer. -/
def Slot.Closest (slots : List Slot) (s : Slot) : Prop :=
  s ∈ slots ∧ ∀ x ∈ slots, x.dist.toF32.lt s.dist.toF32 = false

/-- What is stored is not truncated any further. -/
theorem BFloat16.toF32_truncated (d : BFloat16) : d.toF32.truncated.key = d.toF32.key := by
  have hd := d.bits.toNat_lt
  simp only [F32.key, F32.mag, F32.truncated_bits, BFloat16.toF32_bits]
  split_ifs <;> omega

theorem F32.key_le_of_not_lt {v w : F32} (hv : v.isNaN = false) (hw : w.isNaN = false)
    (h : v.lt w = false) : w.key ≤ v.key := by
  refine Int.not_lt.mp fun hlt => ?_
  rw [F32.lt_iff.mpr ⟨hv, hw, hlt⟩] at h
  cases h

theorem F32.not_lt_of_key_le {v w : F32} (h : w.key ≤ v.key) : v.lt w = false := by
  cases hlt : v.lt w with
  | false => rfl
  | true =>
      have hkey := (F32.lt_iff.mp hlt).2.2
      omega

/-- The least of a nonempty list. -/
theorem exists_least {α : Type} (f : α → Int) {l : List α} (hne : l ≠ []) :
    ∃ a ∈ l, ∀ b ∈ l, f a ≤ f b := by
  induction l with
  | nil => exact absurd rfl hne
  | cons first l ih =>
      by_cases hnil : l = []
      · subst hnil
        exact ⟨first, List.mem_cons_self, by simp⟩
      · obtain ⟨a, ha, hleast⟩ := ih hnil
        by_cases hle : f first ≤ f a
        · refine ⟨first, List.mem_cons_self, fun b hb => ?_⟩
          rcases List.mem_cons.mp hb with rfl | hb
          · exact Int.le_refl _
          · exact Int.le_trans hle (hleast b hb)
        · refine ⟨a, List.mem_cons_of_mem _ ha, fun b hb => ?_⟩
          rcases List.mem_cons.mp hb with rfl | hb
          · omega
          · exact hleast b hb

namespace HashPruneReservoir

section

variable {r : HashPruneReservoir} {a : Offer}

/-- For every slot there is one no farther after an insertion. -/
theorem stored_le_insert (hv : r.Valid) (ha : a.NonNegative) :
    ∀ x ∈ r.slots, ∃ s ∈ (r.insert a.target a.hash a.dist).slots, s.key ≤ x.key := by
  intro x hx
  cases insert_inserted hv a.target a.hash a.dist with
  | kept rival hrival hd he =>
      rw [he]
      exact ⟨x, hx, Int.le_refl _⟩
  | replaced rival rest hrival hd hold hslots =>
      rcases List.mem_cons.mp (hold.mem_iff.mp hx) with rfl | hrest
      · -- what takes its place is nearer
        refine ⟨a.slot, hslots.mem_iff.mpr List.mem_cons_self, ?_⟩
        have hlt := (F32.lt_iff.mp hd).2.2
        exact Int.le_trans ha.key_le (Int.le_of_lt hlt)
      · exact ⟨x, hslots.mem_iff.mpr (List.mem_cons_of_mem _ hrest), Int.le_refl _⟩
  | added hnew hroom hslots =>
      exact ⟨x, hslots.mem_iff.mpr (List.mem_cons_of_mem _ hx), Int.le_refl _⟩

/-- For an offer there is a slot no farther after its insertion, also where it was refused. -/
theorem offered_le_insert (hv : r.Valid) (ha : a.NonNegative) (hnum : ∀ s ∈ r.slots, s.Numeric) :
    ∃ s ∈ (r.insert a.target a.hash a.dist).slots, s.key ≤ a.slot.key := by
  cases insert_inserted hv a.target a.hash a.dist with
  | kept rival hrival hd he =>
      have hle := key_le_of_not_lt ha (hnum rival hrival.mem) hd
      rw [he]
      refine ⟨rival, hrival.mem, ?_⟩
      have htrunc := F32.le_truncated_key ha.2 ((BFloat16.toF32_truncated rival.dist).trans_le hle)
      exact (BFloat16.toF32_truncated rival.dist).symm.trans_le htrunc
  | replaced rival rest hrival hd hold hslots =>
      exact ⟨a.slot, hslots.mem_iff.mpr List.mem_cons_self, Int.le_refl _⟩
  | added hnew hroom hslots =>
      exact ⟨a.slot, hslots.mem_iff.mpr List.mem_cons_self, Int.le_refl _⟩

end

variable {lMax : Nat} (hpos : 0 < lMax) {offers : List Offer}

theorem numeric_insertAll (hnonneg : ∀ o ∈ offers, o.NonNegative) :
    ∀ s ∈ ((new lMax hpos).insertAll offers).slots, s.Numeric := by
  intro s hs
  obtain ⟨o, ho, rfl⟩ := exists_offer_of_mem hpos hs
  exact (hnonneg o ho).numeric

/-- For every offer of a run there is a slot no farther at its end. -/
theorem offered_le_insertAll (hnonneg : ∀ o ∈ offers, o.NonNegative) :
    ∀ a ∈ offers, ∃ s ∈ ((new lMax hpos).insertAll offers).slots, s.key ≤ a.slot.key := by
  induction offers using List.reverseRecOn with
  | nil => exact fun a ha => nomatch ha
  | append_singleton offers b ih =>
      have hnonneg' : ∀ o ∈ offers, o.NonNegative := fun o ho =>
        hnonneg o (List.mem_append_left _ ho)
      have hb : b.NonNegative := hnonneg b (List.mem_append_right _ List.mem_cons_self)
      have hv := insertAll_valid (new_valid hpos) offers
      intro a ha
      rw [insertAll_concat]
      rcases List.mem_append.mp ha with ha | ha
      · obtain ⟨x, hx, hle⟩ := ih hnonneg' a ha
        obtain ⟨s, hs, hsx⟩ := stored_le_insert hv hb x hx
        exact ⟨s, hs, Int.le_trans hsx hle⟩
      · rw [List.mem_singleton.mp ha]
        exact offered_le_insert hv hb (numeric_insertAll hpos hnonneg')

/-- The nearest slot has the truncated distance of the nearest offer. Only when zeros of both signs
are offered can it be the other zero. -/
theorem insertAll_closest (hne : offers ≠ []) (hnonneg : ∀ o ∈ offers, o.NonNegative) :
    (∃ s, Slot.Closest ((new lMax hpos).insertAll offers).slots s) ∧
      (∃ o, Offer.Closest offers o) ∧
      ∀ s o, Slot.Closest ((new lMax hpos).insertAll offers).slots s → Offer.Closest offers o →
        s.dist.toF32.eq (BFloat16.fromF32 o.dist).toF32 = true ∧
          ((∀ a ∈ offers, a.dist.bits.toNat < 2 ^ 31) → s.dist = BFloat16.fromF32 o.dist) := by
  have hnum := numeric_insertAll hpos hnonneg
  obtain ⟨first, hfirst⟩ := List.exists_mem_of_ne_nil offers hne
  obtain ⟨some', hsome, -⟩ := offered_le_insertAll hpos hnonneg first hfirst
  refine ⟨?_, ?_, ?_⟩
  · obtain ⟨s, hs, hleast⟩ := exists_least Slot.key (List.ne_nil_of_mem hsome)
    exact ⟨s, hs, fun x hx => F32.not_lt_of_key_le (hleast x hx)⟩
  · obtain ⟨o, ho, hleast⟩ := exists_least (fun o : Offer => o.dist.key) hne
    exact ⟨o, ho, fun a ha => F32.not_lt_of_key_le (hleast a ha)⟩
  · rintro s o ⟨hs, hclosest⟩ ⟨ho, hlowest⟩
    obtain ⟨a, ha, rfl⟩ := exists_offer_of_mem hpos hs
    have hkey : a.slot.key = o.slot.key := by
      apply Int.le_antisymm
      · obtain ⟨x, hx, hle⟩ := offered_le_insertAll hpos hnonneg o ho
        exact Int.le_trans (F32.key_le_of_not_lt (hnum x hx) (hnum _ hs) (hclosest x hx)) hle
      · exact F32.truncated_key_mono (hnonneg o ho).2
          (F32.key_le_of_not_lt (hnonneg a ha).1 (hnonneg o ho).1 (hlowest a ha))
    refine ⟨F32.eq_iff.mpr ⟨(hnonneg a ha).numeric, (hnonneg o ho).numeric, hkey⟩, fun hsign => ?_⟩
    exact BFloat16.eq_of_key (hsign a ha) (hsign o ho) hkey

/-- Three targets of one hash and room for two: the nearest comes last. -/
def nearestLast : List Offer :=
  [⟨1, 7, ⟨0x40400000⟩⟩, ⟨2, 7, ⟨0x40000000⟩⟩, ⟨3, 7, ⟨0x3f812345⟩⟩]

theorem insertAll_closest_last :
    (∃ s, Slot.Closest ((new 2 Nat.two_pos).insertAll nearestLast).slots s) ∧
      ∀ s, Slot.Closest ((new 2 Nat.two_pos).insertAll nearestLast).slots s →
        s.dist = ⟨0x3f81⟩ := by
  obtain ⟨hsome, -, hdist⟩ := insertAll_closest Nat.two_pos
    (List.cons_ne_nil _ _ : nearestLast ≠ []) (by decide)
  refine ⟨hsome, fun s hs => ?_⟩
  rw [(hdist s ⟨3, 7, ⟨0x3f812345⟩⟩ hs (by unfold Offer.Closest; decide)).2 (by decide)]
  decide

end HashPruneReservoir

end ForgeANN
