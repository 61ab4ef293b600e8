-- SUMMARY: What a reservoir holds after any calls: a well-formed list of slots, each at the lowest distance offered since its target came in.
import ForgeANN.HashPrune.Nearest

/-!
# Residence

A target comes in with an offer, is lowered by nearer offers, and leaves when it
is evicted or the reservoir is cleared. A slot is measured against the offers
since its target came in.
-/
namespace ForgeANN

/-- A distance is a number and not below zero. -/
def Offer.NonNegative (o : Offer) : Prop := o.dist.isNaN = false ∧ 0 ≤ o.dist.key

instance (o : Offer) : Decidable o.NonNegative := inferInstanceAs (Decidable (_ ∧ _))

/-- Truncation never makes a non-negative distance larger. -/
theorem F32.truncated_key_le {v : F32} (h : 0 ≤ v.key) : v.truncated.key ≤ v.key := by
  have hv := v.bits.toNat_lt
  simp only [key, mag, truncated_bits] at h ⊢
  split_ifs at h ⊢ <;> omega

/-- What is stored is no larger than what it is no larger than when truncated. -/
theorem F32.le_truncated_key {v w : F32} (hv : 0 ≤ v.key) (h : w.truncated.key ≤ v.key) :
    w.truncated.key ≤ v.truncated.key := by
  have hv' := v.bits.toNat_lt
  have hw' := w.bits.toNat_lt
  simp only [key, mag, truncated_bits] at hv h ⊢
  split_ifs at hv h ⊢ <;> omega

theorem F32.truncated_key_mono {v w : F32} (hv : 0 ≤ v.key) (h : v.key ≤ w.key) :
    v.truncated.key ≤ w.truncated.key :=
  F32.le_truncated_key (Int.le_trans hv h) (Int.le_trans (F32.truncated_key_le hv) h)

namespace Offer

variable {o a : Offer}

theorem NonNegative.key_le (h : o.NonNegative) : o.slot.key ≤ o.dist.key := F32.truncated_key_le h.2

theorem NonNegative.numeric (h : o.NonNegative) : o.slot.Numeric := by
  cases hnan : o.dist.truncated.isNaN with
  | false => exact hnan
  | true =>
      have hdist := F32.isNaN_of_truncated hnan
      rw [h.1] at hdist
      cases hdist

end Offer

namespace HashPruneReservoir

/-- The target is in some slot. -/
def Stores (r : HashPruneReservoir) (t : UInt32) : Prop := ∃ s ∈ r.slots, s.target = t

/-! ## One insertion -/

section

variable {r : HashPruneReservoir} {a : Offer} {s : Slot}

theorem Valid.eq_of_target (hv : r.Valid) {s x : Slot} (hs : s ∈ r.slots) (hx : x ∈ r.slots)
    (h : s.target = x.target) : s = x :=
  List.inj_on_of_nodup_map hv.nodup hs hx h

theorem key_le_of_not_lt (ha : a.NonNegative) (hs : s.Numeric)
    (h : a.dist.lt s.dist.toF32 = false) : s.key ≤ a.dist.key := by
  refine Int.not_lt.mp fun hlt => ?_
  rw [F32.lt_iff.mpr ⟨ha.1, hs, hlt⟩] at h
  cases h

/-- A slot stays, no higher than what was offered of its target; or it is the offer's own, below
what its target had. -/
theorem mem_insert (hv : r.Valid) (ha : a.NonNegative) (hnum : ∀ s ∈ r.slots, s.Numeric)
    (hs : s ∈ (r.insert a.target a.hash a.dist).slots) :
    (s ∈ r.slots ∧ (a.target = s.target → s.key ≤ a.dist.key)) ∨
      (s = a.slot ∧ ∀ x ∈ r.slots, x.target = a.target → a.dist.key < x.key) := by
  have hv' := insert_valid hv a.target a.hash a.dist
  cases insert_inserted hv a.target a.hash a.dist with
  | kept x hx hd he =>
      rw [he] at hs
      refine .inl ⟨hs, fun htarget => ?_⟩
      cases hx with
      | known hx hxt =>
          rw [hv.eq_of_target hs hx (htarget.symm.trans hxt.symm)]
          exact key_le_of_not_lt ha (hnum x hx) hd
      | sameHash _ hnew | farthest _ hnew => exact absurd htarget.symm (hnew s hs)
  | replaced x rest hx hd hold hslots =>
      rcases List.mem_cons.mp (hslots.mem_iff.mp hs) with rfl | hrest
      · refine .inr ⟨rfl, fun y hy hyt => ?_⟩
        cases hx with
        | known hx hxt =>
            rw [hv.eq_of_target hy hx (hyt.trans hxt.symm)]
            exact (F32.lt_iff.mp hd).2.2
        | sameHash _ hnew | farthest _ hnew => exact absurd hyt (hnew y hy)
      · refine .inl ⟨hold.mem_iff.mpr (List.mem_cons_of_mem _ hrest), fun htarget => ?_⟩
        -- the offer's own slot has that target already
        have hnodup := hv'.nodup
        rw [(hslots.map _).nodup_iff, List.map_cons, List.nodup_cons] at hnodup
        exact absurd (List.mem_map.mpr ⟨s, hrest, htarget.symm⟩) hnodup.1
  | added hnew _ hslots =>
      rcases List.mem_cons.mp (hslots.mem_iff.mp hs) with rfl | hold
      · exact .inr ⟨rfl, fun y hy hyt => absurd hyt (hnew y hy)⟩
      · exact .inl ⟨hold, fun htarget => absurd htarget.symm (hnew s hold)⟩

end

/-! ## Calls -/

/-- The calls that change a reservoir. Draining neighbours leaves what draining slots leaves. -/
inductive Call where
  | insert (o : Offer)
  | clear
  | drainSlots
deriving DecidableEq, Repr

/-- `drain_slots`: the slots, and what is left. -/
def drainSlots (r : HashPruneReservoir) : List Slot × HashPruneReservoir :=
  (r.slots, { r with slots := [], farthestIdx := 0, farthestDist := F32.zero })

def call (r : HashPruneReservoir) : Call → HashPruneReservoir
  | .insert o => r.insert o.target o.hash o.dist
  | .clear => r.clear
  | .drainSlots => r.drainSlots.2

def callAll (r : HashPruneReservoir) (calls : List Call) : HashPruneReservoir := calls.foldl call r

theorem callAll_concat (r : HashPruneReservoir) (calls : List Call) (c : Call) :
    r.callAll (calls ++ [c]) = (r.callAll calls).call c := by
  rw [callAll, List.foldl_append, List.foldl_cons, List.foldl_nil, callAll]

theorem clear_valid (r : HashPruneReservoir) : r.clear.Valid := new_valid r.lMax_pos

theorem call_valid {r : HashPruneReservoir} (hv : r.Valid) (c : Call) : (r.call c).Valid := by
  cases c with
  | insert o => exact insert_valid hv o.target o.hash o.dist
  | clear => exact r.clear_valid
  | drainSlots => exact r.clear_valid

theorem callAll_valid {r : HashPruneReservoir} (hv : r.Valid) (calls : List Call) :
    (r.callAll calls).Valid := by
  induction calls generalizing r with
  | nil => exact hv
  | cons c calls ih => exact ih (call_valid hv c)

@[simp] theorem callAll_lMax (r : HashPruneReservoir) (calls : List Call) :
    (r.callAll calls).lMax = r.lMax := by
  induction calls generalizing r with
  | nil => rfl
  | cons c calls ih =>
      refine (ih (r.call c)).trans ?_
      cases c with
      | insert o => exact insert_lMax r o.target o.hash o.dist
      | clear => rfl
      | drainSlots => rfl

/-! ## Residence of a target -/

/-- How a slot came about: its target came in with the first of the calls `during`, which have all
left it in. The slot is that of an offer among them, and no offer of the target among them was below
the stored distance. -/
structure Resides (r : HashPruneReservoir) (before during : List Call) (s : Slot) : Prop where
  absent : ¬ (r.callAll before).Stores s.target
  stored : ∀ calls, calls <+: during → calls ≠ [] → (r.callAll (before ++ calls)).Stores s.target
  offered : ∃ o, .insert o ∈ during ∧ s = o.slot
  lowest : ∀ o, .insert o ∈ during → o.target = s.target → s.key ≤ o.dist.key

variable {r : HashPruneReservoir} {before during calls : List Call} {a : Offer} {s x : Slot}

/-- A target that is still there after a further call has been there all along. -/
theorem Resides.stored_concat (h : r.Resides before during x) {c : Call}
    (hstores : (r.callAll (before ++ (during ++ [c]))).Stores x.target) :
    ∀ calls, calls <+: during ++ [c] → calls ≠ [] →
      (r.callAll (before ++ calls)).Stores x.target := by
  intro calls hcalls hne
  rcases List.prefix_concat_iff.mp hcalls with rfl | hcalls
  · exact hstores
  · exact h.stored calls hcalls hne

/-- The slot of a target that is not stored comes in. -/
theorem resides_new (ha : a.NonNegative)
    (hs : a.slot ∈ (r.callAll (calls ++ [.insert a])).slots)
    (habsent : ¬ (r.callAll calls).Stores a.target) :
    r.Resides calls [.insert a] a.slot where
  absent := habsent
  stored more hmore hne := by
    have hnil : more <+: [] ++ [.insert a] := hmore
    rcases List.prefix_concat_iff.mp hnil with rfl | hnil
    · exact ⟨a.slot, hs, rfl⟩
    · exact absurd (List.prefix_nil.mp hnil) hne
  offered := ⟨a, List.mem_singleton.mpr rfl, rfl⟩
  lowest o ho _ := by
    cases List.mem_singleton.mp ho
    exact ha.key_le

/-- A slot that stays resides on. -/
theorem Resides.stays (h : r.Resides before during s)
    (hs : s ∈ (r.callAll (before ++ during ++ [.insert a])).slots)
    (hle : a.target = s.target → s.key ≤ a.dist.key) :
    r.Resides before (during ++ [.insert a]) s where
  absent := h.absent
  stored := h.stored_concat ⟨s, by rwa [← List.append_assoc], rfl⟩
  offered := by
    obtain ⟨o, ho, hslot⟩ := h.offered
    exact ⟨o, List.mem_append_left _ ho, hslot⟩
  lowest o ho htarget := by
    rcases List.mem_append.mp ho with ho | ho
    · exact h.lowest o ho htarget
    · cases List.mem_singleton.mp ho
      exact hle htarget

/-- A nearer offer takes the place of its target's slot. -/
theorem Resides.lowered (h : r.Resides before during x) (ha : a.NonNegative)
    (hs : a.slot ∈ (r.callAll (before ++ during ++ [.insert a])).slots)
    (htarget : x.target = a.target) (hlt : a.dist.key < x.key) :
    r.Resides before (during ++ [.insert a]) a.slot where
  absent := by
    rw [Offer.slot_target, ← htarget]
    exact h.absent
  stored := by
    rw [Offer.slot_target, ← htarget]
    exact h.stored_concat ⟨a.slot, by rwa [← List.append_assoc], htarget.symm⟩
  offered := ⟨a, List.mem_append_right _ (List.mem_singleton.mpr rfl), rfl⟩
  lowest o ho hot := by
    rcases List.mem_append.mp ho with ho | ho
    · have hbefore := h.lowest o ho (hot.trans htarget.symm)
      have hslot := ha.key_le
      omega
    · cases List.mem_singleton.mp ho
      exact ha.key_le

theorem Resides.numeric (h : r.Resides before during s)
    (hnum : ∀ o, .insert o ∈ before ++ during → o.NonNegative) : s.Numeric := by
  obtain ⟨o, ho, rfl⟩ := h.offered
  exact (hnum o (List.mem_append_right _ ho)).numeric

/-- Every slot resides there since its target came in. -/
theorem exists_resides {lMax : Nat} (hpos : 0 < lMax)
    (hnonneg : ∀ o, .insert o ∈ calls → o.NonNegative)
    (hs : s ∈ ((new lMax hpos).callAll calls).slots) :
    ∃ before during, calls = before ++ during ∧ (new lMax hpos).Resides before during s := by
  induction calls using List.reverseRecOn generalizing s with
  | nil => exact absurd hs List.not_mem_nil
  | append_singleton calls c ih =>
      have hnonneg' : ∀ o, .insert o ∈ calls → o.NonNegative := fun o ho =>
        hnonneg o (List.mem_append_left _ ho)
      rw [callAll_concat] at hs
      cases c with
      | clear => exact absurd hs List.not_mem_nil
      | drainSlots => exact absurd hs List.not_mem_nil
      | insert a =>
          have hv := callAll_valid (new_valid hpos) calls
          have ha : a.NonNegative := hnonneg a (List.mem_append_right _ (List.mem_singleton.mpr rfl))
          have hnum : ∀ x ∈ ((new lMax hpos).callAll calls).slots, x.Numeric := by
            intro x hx
            obtain ⟨before, during, rfl, hresides⟩ := ih hnonneg' hx
            exact hresides.numeric hnonneg'
          have hs' : s ∈ ((new lMax hpos).callAll (calls ++ [.insert a])).slots := by
            rwa [callAll_concat]
          rcases mem_insert hv ha hnum hs with ⟨hold, hle⟩ | ⟨rfl, hbelow⟩
          · obtain ⟨before, during, rfl, hresides⟩ := ih hnonneg' hold
            exact ⟨before, during ++ [.insert a], List.append_assoc .., hresides.stays hs' hle⟩
          · by_cases hstores : ((new lMax hpos).callAll calls).Stores a.target
            · obtain ⟨x, hx, hxt⟩ := hstores
              obtain ⟨before, during, rfl, hresides⟩ := ih hnonneg' hx
              exact ⟨before, during ++ [.insert a], List.append_assoc ..,
                hresides.lowered ha hs' hxt (hbelow x hx hxt)⟩
            · exact ⟨calls, [.insert a], rfl, resides_new ha hs' hstores⟩

/-- Whatever is called with non-negative distances, the slots are sorted by hash, one to a target
and within capacity, the cache is at a slot of maximal distance, and every slot has the lowest
distance of its target since the target came in. -/
theorem callAll_represents {lMax : Nat} (hpos : 0 < lMax) (calls : List Call)
    (hnonneg : ∀ o, .insert o ∈ calls → o.NonNegative) (r : HashPruneReservoir)
    (hr : r = (new lMax hpos).callAll calls) :
    SortedByHash r.slots ∧ r.slots.length ≤ lMax ∧ (r.slots.map Slot.target).Nodup ∧
    (r.slots ≠ [] → ∃ s, r.slots[r.farthestIdx]? = some s ∧ r.farthestDist = s.dist.toF32 ∧
      ∀ x ∈ r.slots, x.key ≤ s.key) ∧
    ∀ s ∈ r.slots, ∃ before during, calls = before ++ during ∧
      (new lMax hpos).Resides before during s := by
  subst hr
  have hv := callAll_valid (new_valid hpos) calls
  have hresides : ∀ s ∈ ((new lMax hpos).callAll calls).slots, ∃ before during,
      calls = before ++ during ∧ (new lMax hpos).Resides before during s :=
    fun s hs => exists_resides hpos hnonneg hs
  have hnum : ∀ s ∈ ((new lMax hpos).callAll calls).slots, s.Numeric := by
    intro s hs
    obtain ⟨before, during, rfl, h⟩ := hresides s hs
    exact h.numeric hnonneg
  have hfits := hv.fits
  rw [callAll_lMax, new_lMax] at hfits
  refine ⟨hv.sorted, hfits, hv.nodup, fun hne => ?_, hresides⟩
  obtain ⟨s, hget, hdist⟩ := hv.cached hne
  have hfarthest := hv.farthest hnum
  rw [hdist] at hfarthest
  exact ⟨s, hget, hdist, hfarthest⟩

/-- Target `1` was lowered, left with the drain, and came in again. -/
theorem callAll_represents_drained : ∃ before during,
    [Call.insert ⟨1, 7, ⟨0x40000000⟩⟩, .insert ⟨1, 7, ⟨0x3f800000⟩⟩, .drainSlots,
      .insert ⟨2, 5, ⟨0x3f000000⟩⟩, .insert ⟨1, 7, ⟨0x3fc12345⟩⟩, .insert ⟨3, 5, ⟨0x3e000000⟩⟩] =
      before ++ during ∧
    (new 2 (by decide)).Resides before during (Slot.new 1 7 ⟨0x3fc12345⟩) :=
  (callAll_represents (by decide) _ (by
    intro o ho
    simp only [List.mem_cons, Call.insert.injEq, reduceCtorEq, false_or, List.not_mem_nil,
      or_false] at ho
    rcases ho with rfl | rfl | rfl | rfl | rfl <;> decide) _ rfl).2.2.2.2 _ (by decide)

/-! ## Below capacity -/

section

variable {lMax : Nat} (hpos : 0 < lMax) {offers : List Offer}

theorem exists_offer_of_mem {s : Slot} (hs : s ∈ ((new lMax hpos).insertAll offers).slots) :
    ∃ o ∈ offers, s = o.slot := by
  rcases mem_insertAll (new_valid hpos) hs with hnil | hoffer
  · exact absurd hnil List.not_mem_nil
  · exact hoffer

theorem mem_targets_of_mem {s : Slot} (hs : s ∈ ((new lMax hpos).insertAll offers).slots) :
    s.target ∈ targets offers := by
  obtain ⟨o, ho, rfl⟩ := exists_offer_of_mem hpos hs
  exact mem_targets ho

/-- Within capacity no target that was offered is missing. -/
theorem stores_of_card_le (hcard : (targets offers).card ≤ lMax) {o : Offer} (ho : o ∈ offers) :
    ((new lMax hpos).insertAll offers).Stores o.target := by
  have hv := insertAll_valid (new_valid hpos) offers
  rcases settled_insertAll (new_valid hpos) ho with hfull | hstores
  · rw [insertAll_lMax, new_lMax] at hfull
    have hcardSlots : (((new lMax hpos).insertAll offers).slots.map Slot.target).toFinset.card =
        lMax := by
      rw [List.toFinset_card_of_nodup hv.nodup, List.length_map, hfull]
    have hsubset : (((new lMax hpos).insertAll offers).slots.map Slot.target).toFinset ⊆
        targets offers := by
      intro t ht
      obtain ⟨s, hs, rfl⟩ := List.mem_map.mp (List.mem_toFinset.mp ht)
      exact mem_targets_of_mem hpos hs
    have heq := Finset.eq_of_subset_of_card_le hsubset (hcardSlots.symm ▸ hcard)
    exact List.mem_map.mp (List.mem_toFinset.mp (heq ▸ mem_targets ho))
  · exact hstores

/-- Within capacity no offer of its target is below a slot. -/
theorem key_le_of_card_le (hnonneg : ∀ o ∈ offers, o.NonNegative)
    (hcard : (targets offers).card ≤ lMax) :
    ∀ s ∈ ((new lMax hpos).insertAll offers).slots, ∀ a ∈ offers, a.target = s.target →
      s.key ≤ a.dist.key := by
  induction offers using List.reverseRecOn with
  | nil => exact fun s _ a ha => absurd ha List.not_mem_nil
  | append_singleton offers b ih =>
      have hnonneg' : ∀ o ∈ offers, o.NonNegative := fun o ho =>
        hnonneg o (List.mem_append_left _ ho)
      have hb : b.NonNegative := hnonneg b (List.mem_append_right _ (List.mem_singleton.mpr rfl))
      have hcard' : (targets offers).card ≤ lMax := by
        refine Nat.le_trans (Finset.card_le_card ?_) hcard
        intro t ht
        obtain ⟨o, ho, rfl⟩ := List.mem_map.mp (List.mem_toFinset.mp ht)
        exact mem_targets (List.mem_append_left _ ho)
      have hlowest := ih hnonneg' hcard'
      have hnum : ∀ s ∈ ((new lMax hpos).insertAll offers).slots, s.Numeric := by
        intro s hs
        obtain ⟨o, ho, rfl⟩ := exists_offer_of_mem hpos hs
        exact (hnonneg' o ho).numeric
      intro s hs a ha hat
      rw [insertAll_concat] at hs
      rcases mem_insert (insertAll_valid (new_valid hpos) offers) hb hnum hs with
        ⟨hold, hle⟩ | ⟨rfl, hbelow⟩
      · rcases List.mem_append.mp ha with ha | ha
        · exact hlowest s hold a ha hat
        · cases List.mem_singleton.mp ha
          exact hle hat
      · have hkey := hb.key_le
        rcases List.mem_append.mp ha with ha | ha
        · obtain ⟨x, hx, hxt⟩ := stores_of_card_le hpos hcard' ha
          have hx' := hlowest x hx a ha hxt.symm
          have hlt := hbelow x hx (hxt.trans hat)
          omega
        · cases List.mem_singleton.mp ha
          exact hkey

end

end HashPruneReservoir

/-- No offer of its target has a smaller distance. -/
def Offer.Lowest (offers : List Offer) (o : Offer) : Prop :=
  o ∈ offers ∧ ∀ a ∈ offers, a.target = o.target → o.dist.key ≤ a.dist.key

theorem exists_lowest {offers : List Offer} {a : Offer} (ha : a ∈ offers) :
    ∃ o : Offer, o.Lowest offers ∧ o.target = a.target := by
  have hmem : a ∈ offers.toFinset.filter fun o => o.target = a.target :=
    Finset.mem_filter.mpr ⟨List.mem_toFinset.mpr ha, rfl⟩
  obtain ⟨o, ho, hmin⟩ := Finset.exists_min_image _ (fun o => o.dist.key) ⟨a, hmem⟩
  obtain ⟨ho, hot⟩ := Finset.mem_filter.mp ho
  refine ⟨o, ⟨List.mem_toFinset.mp ho, fun b hb hbt => ?_⟩, hot⟩
  exact hmin b (Finset.mem_filter.mpr ⟨List.mem_toFinset.mpr hb, hbt.trans hot⟩)

/-- Stored values without a sign are told apart by their keys. -/
theorem BFloat16.eq_of_key {v w : F32} (hv : v.bits.toNat < 2 ^ 31) (hw : w.bits.toNat < 2 ^ 31)
    (h : v.truncated.key = w.truncated.key) : BFloat16.fromF32 v = BFloat16.fromF32 w := by
  have hbits : (BFloat16.fromF32 v).bits.toNat = (BFloat16.fromF32 w).bits.toNat := by
    rw [fromF32_bits, fromF32_bits]
    simp only [F32.key, F32.mag, F32.truncated_bits] at h
    split_ifs at h <;> omega
  exact congrArg BFloat16.mk (UInt16.toNat_inj.mp hbits)

namespace HashPruneReservoir

/-- Offers of at most `lMax` targets leave one slot per target, with its hash and its lowest
distance truncated. Only when zeros of both signs are offered can it be the other zero. -/
theorem insertAll_lossless {lMax : Nat} (hpos : 0 < lMax) {offers : List Offer}
    (hhash : HashOfTarget offers) (hnonneg : ∀ o ∈ offers, o.NonNegative)
    (hcard : (targets offers).card ≤ lMax) :
    (((new lMax hpos).insertAll offers).slots.map Slot.target).Nodup ∧
    (∀ t, t ∈ ((new lMax hpos).insertAll offers).slots.map Slot.target ↔ t ∈ targets offers) ∧
    ∀ s ∈ ((new lMax hpos).insertAll offers).slots, ∃ o : Offer, o.Lowest offers ∧ s.target = o.target ∧
      s.hash = o.hash ∧ s.dist.toF32.eq (BFloat16.fromF32 o.dist).toF32 = true ∧
      ((∀ a ∈ offers, a.dist.bits.toNat < 2 ^ 31) → s.dist = BFloat16.fromF32 o.dist) := by
  refine ⟨(insertAll_valid (new_valid hpos) offers).nodup, fun t => ⟨fun ht => ?_, fun ht => ?_⟩,
    fun s hs => ?_⟩
  · obtain ⟨s, hs, rfl⟩ := List.mem_map.mp ht
    exact mem_targets_of_mem hpos hs
  · obtain ⟨o, ho, rfl⟩ := List.mem_map.mp (List.mem_toFinset.mp ht)
    exact List.mem_map.mpr (stores_of_card_le hpos hcard ho)
  · have hlowest := key_le_of_card_le hpos hnonneg hcard s hs
    obtain ⟨a, ha, rfl⟩ := exists_offer_of_mem hpos hs
    obtain ⟨o, ⟨ho, hmin⟩, hot⟩ := exists_lowest ha
    have hkey : a.dist.truncated.key = o.dist.truncated.key := by
      apply Int.le_antisymm
      · exact F32.le_truncated_key (hnonneg o ho).2 (hlowest o ho hot)
      · exact F32.truncated_key_mono (hnonneg o ho).2 (hmin a ha hot.symm)
    refine ⟨o, ⟨ho, hmin⟩, hot.symm, hhash a ha o ho hot.symm, ?_, fun hsign => ?_⟩
    · exact F32.eq_iff.mpr ⟨(hnonneg a ha).numeric, (hnonneg o ho).numeric, hkey⟩
    · exact BFloat16.eq_of_key (hsign a ha) (hsign o ho) hkey

def repeatedOffers : List Offer :=
  [⟨1, 7, ⟨0x3f812345⟩⟩, ⟨2, 7, ⟨0x40000000⟩⟩, ⟨1, 7, ⟨0x3f811111⟩⟩]

/-- The second offer of `1` is nearer, but no nearer than what is stored of the first. -/
theorem insertAll_lossless_repeated : ∃ o : Offer, o.Lowest repeatedOffers ∧ (1 : UInt32) = o.target ∧
    (⟨0x3f81⟩ : BFloat16) = BFloat16.fromF32 o.dist := by
  have hhash : HashOfTarget repeatedOffers := by decide
  have hslots := (insertAll_lossless Nat.two_pos hhash (by decide) (by decide)).2.2
  obtain ⟨o, ho, htarget, -, -, hdist⟩ := hslots ⟨1, 7, ⟨0x3f81⟩⟩ (by decide)
  exact ⟨o, ho, htarget, hdist (by decide)⟩

end HashPruneReservoir
end ForgeANN
