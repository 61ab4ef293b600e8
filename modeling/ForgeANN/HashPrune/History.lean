-- SUMMARY: When the slots a reservoir ends with depend only on the offers, and not on their order.
import ForgeANN.HashPrune.Nearest

/-!
# History independence of the reservoir

Every point collects its candidates leaf by leaf, in whatever order the leaves
finish. This file decides for which collections of offers the kept slots are
the same in every order: whenever two of the `lMax` nearest targets share a
hash, all the other targets must carry that hash too.
-/
namespace ForgeANN

section

variable {lMax : Nat} {offers : List Offer}

/-! ## A run keeps the nearest targets -/

/-- A full reservoir of nearest targets has no room for one more. -/
theorem not_crowded (hcard : (nearestTargets lMax offers).card ≤ lMax) {r : HashPruneReservoir}
    (hv : r.Valid) (hfull : r.slots.length = lMax) {t : UInt32}
    (hnew : ∀ x ∈ r.slots, x.target ≠ t) (ht : t ∈ nearestTargets lMax offers) :
    ∃ x ∈ r.slots, x.target ∉ nearestTargets lMax offers := by
  by_contra hall
  push Not at hall
  have hsub : insert t (r.slots.map Slot.target).toFinset ⊆ nearestTargets lMax offers := by
    intro u hu
    rcases Finset.mem_insert.mp hu with rfl | hu
    · exact ht
    · obtain ⟨x, hx, rfl⟩ := List.mem_map.mp (List.mem_toFinset.mp hu)
      exact hall x hx
  have hle := Finset.card_le_card hsub
  rw [Finset.card_insert_of_notMem (by simpa using hnew), List.toFinset_card_of_nodup hv.nodup,
    List.length_map] at hle
  omega

end

section

variable {lMax : Nat} {offers : List Offer} (hD : DistinctDists offers)
  (hQ : OrderFree lMax offers) {r : HashPruneReservoir} (hv : r.Valid)
  (hl : r.lMax = lMax) {a : Offer} (ha : a ∈ offers)
  (hslots : ∀ s ∈ r.slots, ∃ o ∈ offers, s = o.slot ∧ a.Apart o)

include hD hQ hv hl ha hslots

/-- An offer of one of the nearest targets never competes with a slot that is
no farther than the best offer of some nearest target. -/
private theorem near_of_rival {s : Slot} (hr : r.Rival a.target a.hash s)
    (hak : a.target ∈ nearestTargets lMax offers)
    (hsk : (∀ o ∈ offers, ¬ o.dist.Blocking) →
      ∃ t ∈ nearestTargets lMax offers, s.key ≤ nearest offers t) :
    s.target = a.target := by
  have hcard : (nearestTargets lMax offers).card ≤ lMax := by
    rw [card_nearestTargets hQ hD]; exact min_le_left _ _
  by_cases hst : s.target = a.target
  · exact hst
  exfalso
  have hmem : ∀ x ∈ r.slots, x.target ∈ targets offers := fun x hx => by
    obtain ⟨o, ho, rfl, -⟩ := hslots x hx
    exact mem_targets ho
  by_cases hsmall : (targets offers).card ≤ lMax
  · -- every target is among the nearest
    have hall : ∀ x ∈ r.slots, x.target ∈ nearestTargets lMax offers := fun x hx => by
      rw [nearestTargets_eq hsmall]; exact hmem x hx
    cases hr with
    | known _ ht => exact hst ht
    | sameHash _ hnew hfull | farthest _ hnew hfull =>
        obtain ⟨x, hx, hxk⟩ := not_crowded hcard hv (hfull.trans hl) hnew hak
        exact hxk (hall x hx)
  · have hnum := hQ.not_blocking (not_le.mp hsmall)
    obtain ⟨t, ht, hst'⟩ := hsk hnum
    have hnear : ∀ x ∈ r.slots, x.key ≤ s.key → x.target ∈ nearestTargets lMax offers := by
      intro x hx hle
      obtain ⟨o, ho, rfl, -⟩ := hslots x hx
      exact mem_nearestTargets_of_le (mem_targets ho) ((nearest_le ho).trans (hle.trans hst')) ht
    have hnumeric : ∀ x ∈ r.slots, x.Numeric := fun x hx => by
      obtain ⟨o, ho, rfl, -⟩ := hslots x hx
      exact F32.truncated_isNaN_of_not_blocking (hnum o ho)
    cases hr with
    | known _ ht => exact hst ht
    | farthest _ hnew hfull _ hmax =>
        obtain ⟨x, hx, hxk⟩ := not_crowded hcard hv (hfull.trans hl) hnew hak
        exact hxk (hnear x hx (hmax hnumeric x hx))
    | sameHash hs hnew hfull hh hmax =>
        obtain ⟨x, hx, hxk⟩ := not_crowded hcard hv (hfull.trans hl) hnew hak
        obtain ⟨o, ho, rfl, -⟩ := hslots x hx
        obtain ⟨b, hb, rfl, -⟩ := hslots s hs
        -- a kept target that is not among the nearest shares the hash, so it is scanned
        have hxh : o.hash = a.hash :=
          hQ.crowding a ha b hb o ho hak (hnear _ hs le_rfl) (fun h => hst h.symm) hh.symm hxk
        exact hxk (hnear _ hx (hmax hnumeric _ hx hxh))

/-- The best offer of a nearest target is stored when it comes. -/
theorem best_enters (hbest : Best offers a) (hak : a.target ∈ nearestTargets lMax offers) :
    a.slot ∈ (r.insert a.target a.hash a.dist).slots := by
  cases HashPruneReservoir.insert_inserted hv a.target a.hash a.dist with
  | replaced _ _ _ _ _ hnew => exact hnew.mem_iff.mpr List.mem_cons_self
  | added _ _ hnew => exact hnew.mem_iff.mpr List.mem_cons_self
  | kept s hr hd he =>
      obtain ⟨b, hb, rfl, hab⟩ := hslots s hr.mem
      have hbt : b.target = a.target := by
        refine near_of_rival hD hQ hv hl ha hslots hr hak fun hnum => ⟨_, hak, ?_⟩
        rw [← hbest.key_eq hD hnum, ← not_lt,
          ← Offer.lt_iff_key_lt hab (hnum a ha) (hnum b hb), hd]
        exact Bool.noConfusion
      rcases hbest.wins b hb hbt hab with heq | hlt
      · rw [he, ← heq]
        exact hr.mem
      · rw [hd] at hlt
        exact Bool.noConfusion hlt

/-- The best offer of a nearest target stays stored. -/
theorem best_stays {o : Offer} (hbest : Best offers o)
    (hok : o.target ∈ nearestTargets lMax offers) (hin : o.slot ∈ r.slots) :
    o.slot ∈ (r.insert a.target a.hash a.dist).slots := by
  cases HashPruneReservoir.insert_inserted hv a.target a.hash a.dist with
  | kept _ _ _ he => rwa [he]
  | added _ _ hnew => exact hnew.mem_iff.mpr (List.mem_cons_of_mem _ hin)
  | replaced s rest hr hd hold hnew =>
      rcases List.mem_cons.mp (hold.mem_iff.mp hin) with rfl | hrest
      · obtain ⟨b, hb, hbo, hab⟩ := hslots o.slot hin
        have hao : a.Apart o := by rwa [Offer.Apart, hbo]
        have hlt : (∀ o ∈ offers, ¬ o.dist.Blocking) → a.slot.key < o.slot.key := fun hnum =>
          (Offer.lt_iff_key_lt hao (hnum a ha) (hnum o hbest.mem)).mp hd
        -- the offer is nearer than `o`, so its target is among the nearest too
        have hak : a.target ∈ nearestTargets lMax offers := by
          by_cases hsmall : (targets offers).card ≤ lMax
          · rw [nearestTargets_eq hsmall]
            exact mem_targets ha
          · have hnum := hQ.not_blocking (not_le.mp hsmall)
            refine mem_nearestTargets_of_le (mem_targets ha) ((nearest_le ha).trans ?_) hok
            rw [← hbest.key_eq hD hnum]
            exact (hlt hnum).le
        have hat := near_of_rival hD hQ hv hl ha hslots hr hak fun hnum =>
          ⟨_, hok, (hbest.key_eq hD hnum).le⟩
        rw [hbest.stays a ha hat.symm hao] at hd
        exact Bool.noConfusion hd
      · exact hnew.mem_iff.mpr (List.mem_cons_of_mem _ hrest)

end

section

variable {lMax : Nat} (hpos : 0 < lMax) {offers : List Offer} (hD : DistinctDists offers)
  (hQ : OrderFree lMax offers)

include hD hQ

/-- After any part of the offers, the best offers seen of the nearest targets are stored. -/
theorem best_mem_insertAll {p q : List Offer} (hp : (p ++ q).Perm offers) {o : Offer}
    (ho : o ∈ p) (hbest : Best offers o) (hok : o.target ∈ nearestTargets lMax offers) :
    o.slot ∈ ((HashPruneReservoir.new lMax hpos).insertAll p).slots := by
  induction p using List.reverseRecOn generalizing q with
  | nil => exact absurd ho List.not_mem_nil
  | append_singleton p a ih =>
      have hv := HashPruneReservoir.insertAll_valid (HashPruneReservoir.new_valid hpos) p
      have ha : a ∈ offers := hp.mem_iff.mp (by simp)
      have hapart : ∀ b ∈ p, b.Apart a := fun b hb =>
        (List.pairwise_append.mp (List.pairwise_append.mp
          (hD.perm hp.symm fun h => h.symm)).1).2.2 b hb a (by simp)
      have hslots : ∀ s ∈ ((HashPruneReservoir.new lMax hpos).insertAll p).slots,
          ∃ b ∈ offers, s = b.slot ∧ a.Apart b := fun s hs => by
        rcases HashPruneReservoir.mem_insertAll (HashPruneReservoir.new_valid hpos) hs with h | h
        · exact absurd h List.not_mem_nil
        · obtain ⟨b, hb, rfl⟩ := h
          exact ⟨b, hp.mem_iff.mp (by simp [hb]), rfl, (hapart b hb).symm⟩
      rw [HashPruneReservoir.insertAll_concat]
      rcases List.mem_append.mp ho with ho | ho
      · have hin := ih (q := a :: q) (by simpa using hp) ho
        exact best_stays hD hQ hv (by simp) ha hslots hbest hok hin
      · rw [List.mem_singleton] at ho
        subst ho
        exact best_enters hD hQ hv (by simp) ha hslots hbest hok

/-- In every order a run ends with exactly the best offers of the nearest targets. -/
theorem mem_insertAll_iff_best {p : List Offer} (hp : p.Perm offers) (s : Slot) :
    s ∈ ((HashPruneReservoir.new lMax hpos).insertAll p).slots ↔
      ∃ o, Best offers o ∧ o.target ∈ nearestTargets lMax offers ∧ s = o.slot := by
  have hv := HashPruneReservoir.insertAll_valid (HashPruneReservoir.new_valid hpos) p
  have hin : ∀ o, Best offers o → o.target ∈ nearestTargets lMax offers →
      o.slot ∈ ((HashPruneReservoir.new lMax hpos).insertAll p).slots := fun o hbest hok =>
    best_mem_insertAll (q := []) hpos hD hQ (by simpa using hp) (hp.mem_iff.mpr hbest.mem)
      hbest hok
  constructor
  · intro hs
    let kept := (((HashPruneReservoir.new lMax hpos).insertAll p).slots.map Slot.target).toFinset
    have hkept : kept.card ≤ lMax := by
      rw [List.toFinset_card_of_nodup hv.nodup, List.length_map]
      simpa using hv.fits
    have hoffered : kept ⊆ targets offers := by
      intro t ht
      obtain ⟨x, hx, rfl⟩ := List.mem_map.mp (List.mem_toFinset.mp ht)
      rcases HashPruneReservoir.mem_insertAll (HashPruneReservoir.new_valid hpos) hx with h | h
      · exact absurd h List.not_mem_nil
      · obtain ⟨b, hb, rfl⟩ := h
        exact mem_targets (hp.mem_iff.mp hb)
    have hsub : nearestTargets lMax offers ⊆ kept := by
      intro t ht
      obtain ⟨o, hbest, rfl, -⟩ := exists_best (fun a ha h => (hQ.blocking a ha h).2) (nearestTargets_subset ht)
      exact List.mem_toFinset.mpr (List.mem_map_of_mem (f := Slot.target) (hin o hbest ht))
    have heq : nearestTargets lMax offers = kept := by
      refine Finset.eq_of_subset_of_card_le hsub ?_
      rw [card_nearestTargets hQ hD]
      exact le_min hkept (Finset.card_le_card hoffered)
    have hst : s.target ∈ nearestTargets lMax offers := by
      rw [heq]
      exact List.mem_toFinset.mpr (List.mem_map_of_mem hs)
    obtain ⟨o, hbest, hot, -⟩ := exists_best (fun a ha h => (hQ.blocking a ha h).2) (nearestTargets_subset hst)
    have hos := hin o hbest (hot ▸ hst)
    exact ⟨o, hbest, hot ▸ hst,
      (List.inj_on_of_nodup_map hv.nodup hos hs hot).symm⟩
  · rintro ⟨o, hbest, hok, rfl⟩
    exact hin o hbest hok

end

/-! ## Orders that disagree -/

/-- A choice of one nearest offer for each target. -/
structure Choice (offers : List Offer) where
  best : UInt32 → Offer
  mem : ∀ {t}, t ∈ targets offers → best t ∈ offers
  target : ∀ {t}, t ∈ targets offers → (best t).target = t
  key : ∀ {t}, t ∈ targets offers → (best t).slot.key = nearest offers t

theorem exists_choice (offers : List Offer) : Nonempty (Choice offers) := by
  have h : ∀ t, ∃ o : Offer, t ∈ targets offers →
      o ∈ offers ∧ o.target = t ∧ o.slot.key = nearest offers t := fun t => by
    by_cases ht : t ∈ targets offers
    · obtain ⟨o, ho⟩ := nearest_spec ht
      exact ⟨o, fun _ => ho⟩
    · exact ⟨⟨0, 0, F32.zero⟩, fun h => absurd h ht⟩
  choose best hbest using h
  exact ⟨⟨best, fun ht => (hbest _ ht).1, fun ht => (hbest _ ht).2.1,
    fun ht => (hbest _ ht).2.2⟩⟩

section

variable {lMax : Nat} {offers : List Offer} (ch : Choice offers) {lead : List UInt32}
  (hlead : ∀ t ∈ lead, t ∈ targets offers) (hn : lead.Nodup)

include hlead hn

private theorem Choice.nodup_targets : ((lead.map ch.best).map Offer.target).Nodup := by
  have hmap : lead.map (Offer.target ∘ ch.best) = lead :=
    (List.map_congr_left fun t ht => ch.target (hlead t ht)).trans (List.map_id lead)
  rw [List.map_map, hmap]
  exact hn

/-- The chosen offers of some targets can be fed first. -/
theorem Choice.exists_rest {l : List Offer} (hsub : ∀ t ∈ lead, ch.best t ∈ l) :
    ∃ rest, (lead.map ch.best ++ rest).Perm l := by
  have hsub' : lead.map ch.best ⊆ l := fun o ho => by
    obtain ⟨t, ht, rfl⟩ := List.mem_map.mp ho
    exact hsub t ht
  obtain ⟨l', hperm, hl'⟩ :=
    List.subperm_of_subset (ch.nodup_targets hlead hn).of_map hsub'
  obtain ⟨rest, hrest⟩ := hl'.exists_perm_append
  exact ⟨rest, (hperm.symm.append_right rest).trans hrest.symm⟩

/-- Fed first, the chosen offers of at most `lMax` targets are what is stored. -/
theorem Choice.mem_insertAll (hpos : 0 < lMax) (hlen : lead.length ≤ lMax) (s : Slot) :
    s ∈ ((HashPruneReservoir.new lMax hpos).insertAll (lead.map ch.best)).slots ↔
      ∃ t ∈ lead, s = (ch.best t).slot := by
  rw [(HashPruneReservoir.insertAll_distinct hpos (ch.nodup_targets hlead hn)
    (by simpa using hlen)).mem_iff]
  simp [eq_comm]

theorem Choice.length_insertAll (hpos : 0 < lMax) (hlen : lead.length = lMax) :
    ((HashPruneReservoir.new lMax hpos).insertAll (lead.map ch.best)).slots.length =
      ((HashPruneReservoir.new lMax hpos).insertAll (lead.map ch.best)).lMax := by
  rw [(HashPruneReservoir.insertAll_distinct hpos (ch.nodup_targets hlead hn)
    (by simpa using hlen.le)).length_eq]
  simpa using hlen

end

section

variable {lMax : Nat} {hpos : 0 < lMax} {offers : List Offer} (hD : DistinctDists offers)

include hD

/-- Only a NaN can be stored as a blocking offer is. -/
private theorem isNaN_of_slot_eq {o a : Offer} (ho : o ∈ offers) (ha : a ∈ offers)
    (hb : o.dist.Blocking) (h : a.slot = o.slot) : a.dist.isNaN = true := by
  by_cases hab : a = o
  · exact hab ▸ hb.1
  have hap := apart_of_ne hD ha ho hab
  by_contra hnan
  have hnum : a.slot.dist.toF32.isNaN = false :=
    F32.truncated_isNaN_of_not_blocking fun h => hnan h.1
  have heq : a.slot.dist.toF32.eq o.slot.dist.toF32 = true :=
    F32.eq_iff.mpr ⟨hnum, h ▸ hnum, by rw [h]⟩
  rw [hap] at heq
  exact Bool.noConfusion heq

/-- A blocking offer is kept when it comes first, and left out when its target
is settled first without it. -/
private theorem not_independent_of_settled {o : Offer} (ho : o ∈ offers) (hb : o.dist.Blocking)
    (first rest : List Offer) (hp : (first ++ rest).Perm offers)
    (hset : ((HashPruneReservoir.new lMax hpos).insertAll first).Settled o.target)
    (hout : o.slot ∉ ((HashPruneReservoir.new lMax hpos).insertAll first).slots) :
    ¬ HistoryIndependent lMax hpos offers := by
  intro hind
  have hv := HashPruneReservoir.new_valid hpos
  have hkept : o.slot ∈ ((HashPruneReservoir.new lMax hpos).insertAll (o :: offers.erase o)).slots := by
    rw [HashPruneReservoir.insertAll_cons]
    refine HashPruneReservoir.insertAll_induction (HashPruneReservoir.insert_valid hv _ _ _)
      (P := fun r => o.slot ∈ r.slots) ?_ fun r hv hin a _ =>
        HashPruneReservoir.blocking_stays hv hb hin a
    have h := HashPruneReservoir.insertAll_distinct hpos (l := [o]) (by simp) hpos
    exact h.mem_iff.mpr List.mem_cons_self
  have hgone : o.slot ∉ ((HashPruneReservoir.new lMax hpos).insertAll (first ++ rest)).slots := by
    rw [HashPruneReservoir.insertAll_append]
    refine (HashPruneReservoir.insertAll_induction
      (P := fun r => r.Settled o.target ∧ o.slot ∉ r.slots)
      (HashPruneReservoir.insertAll_valid hv first) ⟨hset, hout⟩ fun r hv hr a ha => ?_).2
    have ha' : a ∈ offers := hp.mem_iff.mp (List.mem_append_right _ ha)
    exact ⟨HashPruneReservoir.settled_insert hv a (.inl hr.1),
      HashPruneReservoir.blocking_shut hv hr.1 hr.2 (isNaN_of_slot_eq hD ho ha' hb)⟩
  exact hgone ((hind _ _ (List.perm_cons_erase ho).symm hp o.slot).mp hkept)

/-- A blocking offer makes the order matter as soon as anything competes with it. -/
theorem blockingAlone_of_independent (hind : HistoryIndependent lMax hpos offers) :
    BlockingAlone lMax offers := by
  intro o ho hb
  have hv := HashPruneReservoir.new_valid hpos
  constructor
  · by_contra hlt
    let first := offers.filter fun a => !decide (a.target = o.target)
    let rest := offers.filter fun a => decide (a.target = o.target)
    have hfirst : ∀ a ∈ first, a.target ≠ o.target := fun a ha => by
      simpa [first] using (List.mem_filter.mp ha).2
    have hother : ∀ s ∈ ((HashPruneReservoir.new lMax hpos).insertAll first).slots,
        s.target ≠ o.target := fun s hs => by
      rcases HashPruneReservoir.mem_insertAll hv hs with h | ⟨a, ha, rfl⟩
      · exact absurd h List.not_mem_nil
      · exact hfirst a ha
    refine not_independent_of_settled hD ho hb first rest
      (List.perm_append_comm.trans (List.filter_append_perm _ _)) ?_
      (fun h => hother _ h rfl) hind
    -- the other targets alone fill the reservoir
    left
    by_contra hne
    have hall : (targets offers).erase o.target ⊆
        (((HashPruneReservoir.new lMax hpos).insertAll first).slots.map Slot.target).toFinset := by
      intro t ht
      obtain ⟨hto, ht⟩ := Finset.mem_erase.mp ht
      obtain ⟨a, ha, rfl⟩ := List.mem_map.mp (List.mem_toFinset.mp ht)
      have haf : a ∈ first := List.mem_filter.mpr ⟨ha, by simpa using hto⟩
      rcases HashPruneReservoir.settled_insertAll hv haf with h | ⟨s, hs, hst⟩
      · exact absurd h hne
      · exact List.mem_toFinset.mpr (hst ▸ List.mem_map_of_mem hs)
    have hcard := (Finset.card_le_card hall).trans (List.toFinset_card_le _)
    rw [Finset.card_erase_of_mem (mem_targets ho), List.length_map] at hcard
    have hfits := (HashPruneReservoir.insertAll_valid hv first).fits
    rw [HashPruneReservoir.insertAll_lMax, HashPruneReservoir.new_lMax] at hne hfits
    omega
  · intro b hbo hbt
    by_contra hne
    have hstored := HashPruneReservoir.insertAll_distinct hpos (l := [b]) (by simp) hpos
    refine not_independent_of_settled hD ho hb [b] (offers.erase b)
      (List.perm_cons_erase hbo).symm ?_ (fun h => ?_) hind
    · exact hbt ▸ HashPruneReservoir.settled_insertAll hv List.mem_cons_self
    · have hmem := hstored.mem_iff.mp h
      rw [List.map_singleton, List.mem_singleton] at hmem
      exact hne hmem.symm

/-- Over more than `lMax` numbers there are exactly `lMax` nearest targets. -/
private theorem length_nearest (hnum : ∀ o ∈ offers, ¬ o.dist.Blocking)
    (hlarge : lMax < (targets offers).card) : (nearestTargets lMax offers).card = lMax := by
  rw [nearestTargets, Lib.card_smallest (nearest_injOn hD hnum)]
  exact min_eq_left hlarge.le

variable (hpos)

/-- Fed first, the nearest offers of the nearest targets are what is left at the end. -/
private theorem nearest_first (ch : Choice offers) (hnum : ∀ o ∈ offers, ¬ o.dist.Blocking)
    (hlarge : lMax < (targets offers).card) :
    ∃ p, p.Perm offers ∧ ∀ t ∈ nearestTargets lMax offers,
      (ch.best t).slot ∈ ((HashPruneReservoir.new lMax hpos).insertAll p).slots := by
  let lead := (nearestTargets lMax offers).toList
  have hlead : ∀ t ∈ lead, t ∈ targets offers := fun t ht =>
    nearestTargets_subset (Finset.mem_toList.mp ht)
  have hn : lead.Nodup := Finset.nodup_toList _
  have hlen : lead.length = lMax := by
    rw [Finset.length_toList, length_nearest hD hnum hlarge]
  obtain ⟨rest, hp⟩ := ch.exists_rest hlead hn fun t ht => ch.mem (hlead t ht)
  refine ⟨lead.map ch.best ++ rest, hp, fun t ht => ?_⟩
  have hstored := ch.mem_insertAll hlead hn hpos hlen.le
  have hv := HashPruneReservoir.insertAll_valid (HashPruneReservoir.new_valid hpos)
    (lead.map ch.best)
  rw [HashPruneReservoir.insertAll_append, HashPruneReservoir.insertAll_eq_self]
  · exact (hstored _).mpr ⟨t, Finset.mem_toList.mpr ht, rfl⟩
  intro a ha
  have ha' : a ∈ offers := hp.mem_iff.mp (List.mem_append_right _ ha)
  refine HashPruneReservoir.insert_eq_self hv (ch.length_insertAll hlead hn hpos hlen)
    fun s hr => ?_
  obtain ⟨u, hu, rfl⟩ := (hstored _).mp hr.mem
  have hap : a.Apart (ch.best u) :=
    ((List.pairwise_append.mp (hD.perm hp.symm fun h => h.symm)).2.2 _
      (List.mem_map_of_mem hu) a ha).symm
  rw [← Bool.not_eq_true, Offer.lt_iff_key_lt hap (hnum a ha') (hnum _ (ch.mem (hlead u hu))),
    ch.key (hlead u hu)]
  intro hlt
  -- the target of `a` is then among the nearest, hence already stored
  have hau : a.target ∈ nearestTargets lMax offers :=
    mem_nearestTargets_of_le (mem_targets ha') ((nearest_le ha').trans hlt.le)
      (Finset.mem_toList.mp hu)
  have hin := (hstored _).mpr ⟨a.target, Finset.mem_toList.mpr hau, rfl⟩
  have hat : (ch.best a.target).slot.target = a.target := ch.target (mem_targets ha')
  cases hr with
  | known _ hst =>
      rw [Offer.slot_target, ch.target (hlead u hu)] at hst
      rw [hst] at hlt
      exact absurd (nearest_le ha') (not_le.mpr hlt)
  | sameHash _ hnew | farthest _ hnew => exact hnew _ hin hat

/-- A target stays out when the reservoir is filled first with other targets,
among them one of its hash and none of its hash that is farther. -/
private theorem shut_out (ch : Choice offers) (hnum : ∀ o ∈ offers, ¬ o.dist.Blocking)
    {lead : List UInt32} (hlead : ∀ t ∈ lead, t ∈ targets offers) (hn : lead.Nodup)
    (hlen : lead.length = lMax) {x : UInt32} (hx : x ∈ targets offers) (hxl : x ∉ lead)
    {h : UInt16} (hxh : ∀ o ∈ offers, o.target = x → o.hash = h)
    (hsame : ∃ t ∈ lead, (ch.best t).hash = h)
    (hnear : ∀ t ∈ lead, (ch.best t).hash = h → nearest offers t ≤ nearest offers x) :
    ∃ p, p.Perm offers ∧
      (ch.best x).slot ∉ ((HashPruneReservoir.new lMax hpos).insertAll p).slots := by
  have hne : ∀ t ∈ lead, t ≠ x := fun t ht h => hxl (h ▸ ht)
  let mine := offers.filter fun o => decide (o.target = x)
  let others := offers.filter fun o => !decide (o.target = x)
  obtain ⟨rest, hrest⟩ := ch.exists_rest hlead hn (l := others) fun t ht =>
    List.mem_filter.mpr ⟨ch.mem (hlead t ht), by simpa [ch.target (hlead t ht)] using hne t ht⟩
  have hp : ((lead.map ch.best ++ mine) ++ rest).Perm offers := by
    rw [List.append_assoc]
    refine List.Perm.trans ?_ (List.filter_append_perm (fun o => decide (o.target = x)) offers)
    have hswap : (mine ++ rest).Perm (rest ++ mine) := List.perm_append_comm
    refine (hswap.append_left _).trans ?_
    rw [← List.append_assoc]
    exact (hrest.append_right mine).trans List.perm_append_comm
  refine ⟨_, hp, ?_⟩
  have hstored := ch.mem_insertAll hlead hn hpos hlen.le
  have hv := HashPruneReservoir.insertAll_valid (HashPruneReservoir.new_valid hpos)
    (lead.map ch.best)
  have hskip : ∀ o ∈ mine,
      ((HashPruneReservoir.new lMax hpos).insertAll (lead.map ch.best)).insert
        o.target o.hash o.dist =
      (HashPruneReservoir.new lMax hpos).insertAll (lead.map ch.best) := by
    intro o ho
    obtain ⟨ho', hox⟩ : o ∈ offers ∧ o.target = x := by simpa [mine] using ho
    have hoh : o.hash = h := hxh o ho' hox
    refine HashPruneReservoir.insert_eq_self hv (ch.length_insertAll hlead hn hpos hlen)
      fun s hr => ?_
    obtain ⟨u, hu, rfl⟩ := (hstored _).mp hr.mem
    have hut := ch.target (hlead u hu)
    cases hr with
    | known _ hst => exact absurd (hut.symm.trans (hst.trans hox)) (hne u hu)
    | farthest _ _ _ hh =>
        obtain ⟨t, ht, hth⟩ := hsame
        exact absurd (hth.trans hoh.symm) (hh _ ((hstored _).mpr ⟨t, ht, rfl⟩))
    | sameHash _ _ _ hh =>
        have hou : o ≠ ch.best u := fun h => hne u hu (hut.symm.trans (h ▸ hox))
        have hap := apart_of_ne hD ho' (ch.mem (hlead u hu)) hou
        rw [← Bool.not_eq_true,
          Offer.lt_iff_key_lt hap (hnum o ho') (hnum _ (ch.mem (hlead u hu))),
          ch.key (hlead u hu), not_lt]
        exact (hnear u hu (hh.trans hoh)).trans (hox ▸ nearest_le ho')
  rw [HashPruneReservoir.insertAll_append, HashPruneReservoir.insertAll_append,
    HashPruneReservoir.insertAll_eq_self hskip]
  intro hin
  have hxx : (ch.best x).slot.target = x := ch.target hx
  rcases HashPruneReservoir.mem_insertAll hv hin with h | ⟨o, ho, heq⟩
  · obtain ⟨u, hu, heq⟩ := (hstored _).mp h
    rw [heq, Offer.slot_target, ch.target (hlead u hu)] at hxx
    exact hne u hu hxx
  · have hox : o ∈ others := hrest.mem_iff.mp (List.mem_append_right _ ho)
    rw [heq, Offer.slot_target] at hxx
    simp [others, hxx] at hox

variable {hpos}

/-- If two of the nearest targets share a hash that some other target does not
have, that target can take the place of the farther of the two for good. -/
theorem crowdsAgree_of_independent (hH : HashOfTarget offers)
    (hind : HistoryIndependent lMax hpos offers) : CrowdsAgree lMax offers := by
  intro a ha b hb c hc hak hbk hab hhash hck
  by_contra hne
  have hlarge : lMax < (targets offers).card := by
    by_contra hle
    exact hck (nearestTargets_eq (not_lt.mp hle) ▸ mem_targets hc)
  have hnum : ∀ o ∈ offers, ¬ o.dist.Blocking := fun o ho h =>
    absurd (blockingAlone_of_independent hD hind o ho h).1 (not_le.mpr hlarge)
  obtain ⟨ch⟩ := exists_choice offers
  have hbest : ∀ o ∈ offers, (ch.best o.target).hash = o.hash := fun o ho =>
    hH _ (ch.mem (mem_targets ho)) o ho (ch.target (mem_targets ho))
  -- `x` is the farthest of the nearest targets with the shared hash, `y` another one
  let same := (nearestTargets lMax offers).filter fun t => (ch.best t).hash = a.hash
  have hmem_a : a.target ∈ same := Finset.mem_filter.mpr ⟨hak, hbest a ha⟩
  have hmem_b : b.target ∈ same := Finset.mem_filter.mpr ⟨hbk, (hbest b hb).trans hhash.symm⟩
  obtain ⟨x, hx, hmax⟩ := Finset.exists_max_image same (nearest offers) ⟨_, hmem_a⟩
  obtain ⟨y, hy, hyx⟩ : ∃ y ∈ same, y ≠ x := by
    by_cases h : a.target = x
    · exact ⟨_, hmem_b, fun h' => hab (h.trans h'.symm)⟩
    · exact ⟨_, hmem_a, h⟩
  obtain ⟨hxk, hxh⟩ := Finset.mem_filter.mp hx
  obtain ⟨hyk, hyh⟩ := Finset.mem_filter.mp hy
  have hxt := nearestTargets_subset hxk
  obtain ⟨p, hp, hkept⟩ := nearest_first hpos hD ch hnum hlarge
  -- the nearest targets without `x`, with `c` in its place
  let lead := c.target :: ((nearestTargets lMax offers).erase x).toList
  have hmem_lead : ∀ t ∈ lead, t = c.target ∨ t ∈ nearestTargets lMax offers ∧ t ≠ x :=
    fun t ht => (List.mem_cons.mp ht).imp_right fun h =>
      (Finset.mem_erase.mp (Finset.mem_toList.mp h)).symm
  have hlead : ∀ t ∈ lead, t ∈ targets offers := fun t ht =>
    (hmem_lead t ht).elim (fun h => h ▸ mem_targets hc) fun h => nearestTargets_subset h.1
  have hxl : x ∉ lead := fun h => (hmem_lead x h).elim (fun h => hck (h ▸ hxk)) fun h => h.2 rfl
  have hn : lead.Nodup := List.nodup_cons.mpr
    ⟨fun h => hck (Finset.mem_of_mem_erase (Finset.mem_toList.mp h)), Finset.nodup_toList _⟩
  have hlen : lead.length = lMax := by
    rw [List.length_cons, Finset.length_toList, Finset.card_erase_of_mem hxk,
      length_nearest hD hnum hlarge]
    omega
  have hyl : y ∈ lead :=
    List.mem_cons_of_mem _ (Finset.mem_toList.mpr (Finset.mem_erase.mpr ⟨hyx, hyk⟩))
  have hnear : ∀ t ∈ lead, (ch.best t).hash = a.hash → nearest offers t ≤ nearest offers x := by
    intro t ht hth
    rcases hmem_lead t ht with rfl | ⟨htk, -⟩
    · exact absurd ((hbest c hc).symm.trans hth) hne
    · exact hmax t (Finset.mem_filter.mpr ⟨htk, hth⟩)
  have hxo : ∀ o ∈ offers, o.target = x → o.hash = a.hash := fun o ho hox => by
    rw [← hbest o ho, hox, hxh]
  obtain ⟨q, hq, hgone⟩ := shut_out hpos hD ch hnum hlead hn hlen hxt hxl hxo
    ⟨y, hyl, hyh⟩ hnear
  exact hgone ((hind p q hp hq _).mp (hkept x hxk))

end

/-! ## The characterisation -/

/-- The slots left are the same in every order exactly when the offers are `OrderFree`. -/
theorem historyIndependent_iff {lMax : Nat} (hpos : 0 < lMax) {offers : List Offer}
    (hH : HashOfTarget offers) (hD : DistinctDists offers) :
    HistoryIndependent lMax hpos offers ↔ OrderFree lMax offers := by
  constructor
  · intro hind
    exact ⟨blockingAlone_of_independent hD hind,
      crowdsAgree_of_independent hD hH hind⟩
  · intro hQ p q hp hq s
    rw [mem_insertAll_iff_best hpos hD hQ hp, mem_insertAll_iff_best hpos hD hQ hq]

/-- Targets `1` and `2` share a hash; `3` has another and is farther than both. -/
def sharedHashOffers : List Offer :=
  [⟨1, 7, ⟨0x3f800000⟩⟩, ⟨2, 7, ⟨0x40000000⟩⟩, ⟨3, 9, ⟨0x40400000⟩⟩]

/-- In the given order `1` and `2` stay; with `3` first, `2` is turned away. -/
theorem sharedHashOffers_order_matters :
    HashOfTarget sharedHashOffers ∧ DistinctDists sharedHashOffers ∧
      ¬ HistoryIndependent 2 (by decide) sharedHashOffers := by
  refine ⟨by decide, by decide, fun hind => ?_⟩
  have hperm : [⟨3, 9, ⟨0x40400000⟩⟩, ⟨1, 7, ⟨0x3f800000⟩⟩, ⟨2, 7, ⟨0x40000000⟩⟩].Perm
      sharedHashOffers := by decide
  have h := hind _ _ (List.Perm.refl _) hperm (Slot.new 2 7 ⟨0x40000000⟩)
  revert h
  decide

/-- Five offers of four targets with hashes of their own, two of which are kept. -/
theorem historyIndependent_distinct_hashes :
    HistoryIndependent 2 (by decide)
      [⟨1, 7, ⟨0x3f800000⟩⟩, ⟨2, 8, ⟨0x40000000⟩⟩, ⟨3, 9, ⟨0x40400000⟩⟩, ⟨1, 7, ⟨0x40800000⟩⟩,
        ⟨4, 6, ⟨0x3f000000⟩⟩] :=
  (historyIndependent_iff (by decide) (by decide) (by decide)).mpr (by decide)

end ForgeANN
