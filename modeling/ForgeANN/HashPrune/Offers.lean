-- SUMMARY: Runs of insertions: what a list of offers leaves in a reservoir.
import ForgeANN.HashPrune.Reservoir
import Mathlib.Data.List.Induction

/-!
# Runs of offers

A point is offered its candidates one at a time. These lemmas follow a
reservoir through a list of offers: where its slots come from, when a target is
settled, and what a NaN distance does to its slot.
-/
namespace ForgeANN

/-- One call of `HashPruneReservoir::insert`. -/
structure Offer where
  target : UInt32
  hash : UInt16
  dist : F32
deriving DecidableEq, Repr

namespace Offer

/-- What a reservoir stores of an offer. -/
def slot (o : Offer) : Slot := Slot.new o.target o.hash o.dist

@[simp] theorem slot_target (o : Offer) : o.slot.target = o.target := rfl
@[simp] theorem slot_hash (o : Offer) : o.slot.hash = o.hash := rfl
@[simp] theorem slot_dist (o : Offer) : o.slot.dist.toF32 = o.dist.truncated := rfl

/-- The distances of two offers are different once truncated. -/
def Apart (a b : Offer) : Prop := a.slot.dist.toF32.eq b.slot.dist.toF32 = false

theorem Apart.symm {a b : Offer} (h : a.Apart b) : b.Apart a := by
  rwa [Apart, F32.eq_comm]

instance : Std.Symm Apart := ⟨fun _ _ h => h.symm⟩

/-- Two numbers that are apart have different keys. -/
theorem Apart.key_ne {a b : Offer} (h : a.Apart b) (ha : ¬ a.dist.Blocking)
    (hb : ¬ b.dist.Blocking) : a.slot.key ≠ b.slot.key := by
  intro hkey
  have heq : a.slot.dist.toF32.eq b.slot.dist.toF32 = true :=
    F32.eq_iff.mpr ⟨F32.truncated_isNaN_of_not_blocking ha,
      F32.truncated_isNaN_of_not_blocking hb, hkey⟩
  rw [h] at heq
  exact Bool.noConfusion heq

theorem lt_iff_key_lt {a b : Offer} (h : a.Apart b) (ha : ¬ a.dist.Blocking)
    (hb : ¬ b.dist.Blocking) :
    a.dist.lt b.slot.dist.toF32 = true ↔ a.slot.key < b.slot.key :=
  F32.lt_iff_of_not_blocking ha (F32.truncated_isNaN_of_not_blocking hb) (h.key_ne ha hb)

end Offer

namespace HashPruneReservoir

/-- Feed a list of offers. -/
def insertAll (r : HashPruneReservoir) (offers : List Offer) : HashPruneReservoir :=
  offers.foldl (fun r o => r.insert o.target o.hash o.dist) r

@[simp] theorem insertAll_nil (r : HashPruneReservoir) : r.insertAll [] = r := rfl

@[simp] theorem insertAll_cons (r : HashPruneReservoir) (o : Offer) (offers : List Offer) :
    r.insertAll (o :: offers) = (r.insert o.target o.hash o.dist).insertAll offers := rfl

theorem insertAll_append (r : HashPruneReservoir) (l₁ l₂ : List Offer) :
    r.insertAll (l₁ ++ l₂) = (r.insertAll l₁).insertAll l₂ :=
  List.foldl_append ..

theorem insertAll_concat (r : HashPruneReservoir) (l : List Offer) (o : Offer) :
    r.insertAll (l ++ [o]) = (r.insertAll l).insert o.target o.hash o.dist := by
  rw [insertAll_append, insertAll_cons, insertAll_nil]

@[simp] theorem insertAll_lMax (r : HashPruneReservoir) (l : List Offer) :
    (r.insertAll l).lMax = r.lMax := by
  induction l generalizing r with
  | nil => rfl
  | cons o l ih => rw [insertAll_cons, ih, insert_lMax]

theorem insertAll_valid {r : HashPruneReservoir} (hv : r.Valid) (l : List Offer) :
    (r.insertAll l).Valid := by
  induction l generalizing r with
  | nil => exact hv
  | cons o l ih => exact ih (insert_valid hv o.target o.hash o.dist)

/-- Every slot was there before or is that of an offer. -/
theorem mem_insertAll {r : HashPruneReservoir} (hv : r.Valid) {l : List Offer} {s : Slot}
    (hs : s ∈ (r.insertAll l).slots) : s ∈ r.slots ∨ ∃ o ∈ l, s = o.slot := by
  induction l generalizing r with
  | nil => exact .inl hs
  | cons o l ih =>
      rcases ih (insert_valid hv o.target o.hash o.dist) hs with h | ⟨a, ha, rfl⟩
      · have hstep : s = o.slot ∨ s ∈ r.slots := by
          cases insert_inserted hv o.target o.hash o.dist with
          | kept _ _ _ he => exact .inr (he ▸ h)
          | replaced x rest _ _ hold hnew =>
              rcases List.mem_cons.mp (hnew.mem_iff.mp h) with rfl | h
              · exact .inl rfl
              · exact .inr (hold.mem_iff.mpr (List.mem_cons_of_mem _ h))
          | added _ _ hnew => exact List.mem_cons.mp (hnew.mem_iff.mp h)
        rcases hstep with rfl | h
        · exact .inr ⟨o, List.mem_cons_self, rfl⟩
        · exact .inl h
      · exact .inr ⟨a, List.mem_cons_of_mem _ ha, rfl⟩

/-! ## Invariants of a run -/

/-- What every insertion of a run preserves holds at its end. -/
theorem insertAll_induction {P : HashPruneReservoir → Prop} {r : HashPruneReservoir}
    (hv : r.Valid) {l : List Offer} (h₀ : P r)
    (hstep : ∀ r : HashPruneReservoir, r.Valid → P r → ∀ a ∈ l,
      P (r.insert a.target a.hash a.dist)) : P (r.insertAll l) := by
  induction l generalizing r with
  | nil => exact h₀
  | cons a l ih =>
      exact ih (insert_valid hv _ _ _) (hstep r hv h₀ a List.mem_cons_self)
        fun r hv hr b hb => hstep r hv hr b (List.mem_cons_of_mem _ hb)

theorem insertAll_eq_self {r : HashPruneReservoir} {l : List Offer}
    (h : ∀ a ∈ l, r.insert a.target a.hash a.dist = r) : r.insertAll l = r := by
  induction l with
  | nil => rfl
  | cons a l ih =>
      rw [insertAll_cons, h a List.mem_cons_self]
      exact ih fun b hb => h b (List.mem_cons_of_mem _ hb)

/-- No further slot will be added for the target. -/
def Settled (r : HashPruneReservoir) (t : UInt32) : Prop :=
  r.slots.length = r.lMax ∨ ∃ s ∈ r.slots, s.target = t

theorem settled_insert {r : HashPruneReservoir} (hv : r.Valid) (a : Offer) {t : UInt32}
    (h : r.Settled t ∨ a.target = t) : (r.insert a.target a.hash a.dist).Settled t := by
  rw [Settled, insert_lMax]
  cases insert_inserted hv a.target a.hash a.dist with
  | kept s hr _ he =>
      rw [he]
      rcases h with h | rfl
      · exact h
      · cases hr with
        | known hs ht => exact .inr ⟨s, hs, ht⟩
        | sameHash _ _ hfull | farthest _ _ hfull => exact .inl hfull
  | added hnew hroom hslots =>
      rcases h with (h | ⟨s, hs, hst⟩) | rfl
      · exact absurd h hroom.ne
      · exact .inr ⟨s, hslots.mem_iff.mpr (List.mem_cons_of_mem _ hs), hst⟩
      · exact .inr ⟨_, hslots.mem_iff.mpr List.mem_cons_self, rfl⟩
  | replaced s rest hr _ hold hslots =>
      have hlen := hslots.length_eq.trans hold.length_eq.symm
      cases hr with
      | sameHash _ _ hfull | farthest _ _ hfull => exact .inl (hlen.trans hfull)
      | known hs hst =>
          rcases h with (h | ⟨x, hx, hxt⟩) | rfl
          · exact .inl (hlen.trans h)
          · right
            rcases List.mem_cons.mp (hold.mem_iff.mp hx) with rfl | hx
            · exact ⟨_, hslots.mem_iff.mpr List.mem_cons_self, hst.symm.trans hxt⟩
            · exact ⟨x, hslots.mem_iff.mpr (List.mem_cons_of_mem _ hx), hxt⟩
          · exact .inr ⟨_, hslots.mem_iff.mpr List.mem_cons_self, rfl⟩

/-- Every offered target is settled. -/
theorem settled_insertAll {r : HashPruneReservoir} (hv : r.Valid) {l : List Offer} {o : Offer}
    (ho : o ∈ l) : (r.insertAll l).Settled o.target := by
  obtain ⟨l₁, l₂, rfl⟩ := List.append_of_mem ho
  rw [insertAll_append, insertAll_cons]
  have hv₁ := insertAll_valid hv l₁
  exact insertAll_induction (insert_valid hv₁ _ _ _) (settled_insert hv₁ o (.inr rfl))
    fun r hv hr a _ => settled_insert hv a (.inl hr)

/-- Offers of distinct targets within capacity are all stored. -/
theorem insertAll_distinct {lMax : Nat} (h : 0 < lMax) {l : List Offer}
    (hn : (l.map Offer.target).Nodup) (hlen : l.length ≤ lMax) :
    ((new lMax h).insertAll l).slots.Perm (l.map Offer.slot) := by
  induction l using List.reverseRecOn with
  | nil => exact .nil
  | append_singleton l a ih =>
      rw [List.map_append, List.nodup_append] at hn
      rw [List.length_append, List.length_singleton] at hlen
      have hperm := ih hn.1 (by omega)
      have hnew : ∀ x ∈ ((new lMax h).insertAll l).slots, x.target ≠ a.target := fun x hx => by
        obtain ⟨o, ho, rfl⟩ := List.mem_map.mp (hperm.mem_iff.mp hx)
        exact hn.2.2 _ (List.mem_map_of_mem ho) _ (by simp)
      have hroom : ((new lMax h).insertAll l).slots.length < lMax := by
        rw [hperm.length_eq, List.length_map]; omega
      rw [insertAll_concat, List.map_append]
      cases insert_inserted (insertAll_valid (new_valid h) l) a.target a.hash a.dist with
      | added _ _ hslots =>
          exact hslots.trans ((hperm.cons _).trans (List.perm_append_singleton _ _).symm)
      | kept s hr | replaced s _ hr =>
          cases hr with
          | known hs hst => exact absurd hst (hnew s hs)
          | sameHash _ _ hfull | farthest _ _ hfull =>
              exact absurd hfull (by simpa using hroom.ne)

/-- A blocking offer that is stored stays stored. -/
theorem blocking_stays {r : HashPruneReservoir} (hv : r.Valid) {o : Offer} (ho : o.dist.Blocking)
    (hin : o.slot ∈ r.slots) (a : Offer) : o.slot ∈ (r.insert a.target a.hash a.dist).slots := by
  cases insert_inserted hv a.target a.hash a.dist with
  | kept _ _ _ he => rwa [he]
  | added _ _ hnew => exact hnew.mem_iff.mpr (List.mem_cons_of_mem _ hin)
  | replaced s rest _ hd hold hnew =>
      rcases List.mem_cons.mp (hold.mem_iff.mp hin) with rfl | hrest
      · rw [Offer.slot_dist, F32.lt_truncated_of_blocking ho] at hd
        exact Bool.noConfusion hd
      · exact hnew.mem_iff.mpr (List.mem_cons_of_mem _ hrest)

/-- A blocking offer never enters once its target is settled. -/
theorem blocking_shut {r : HashPruneReservoir} (hv : r.Valid) {o : Offer}
    (hset : r.Settled o.target) (hout : o.slot ∉ r.slots) {a : Offer}
    (ha : a.slot = o.slot → a.dist.isNaN = true) :
    o.slot ∉ (r.insert a.target a.hash a.dist).slots := by
  intro hin
  cases insert_inserted hv a.target a.hash a.dist with
  | kept _ _ _ he => exact hout (he ▸ hin)
  | added hnew hroom hslots =>
      rcases List.mem_cons.mp (hslots.mem_iff.mp hin) with heq | hin
      · rcases hset with hfull | ⟨s, hs, hst⟩
        · exact hroom.ne hfull
        · exact hnew s hs (hst.trans (congrArg Slot.target heq))
      · exact hout hin
  | replaced s rest _ hd hold hslots =>
      rcases List.mem_cons.mp (hslots.mem_iff.mp hin) with heq | hin
      · rw [F32.lt_of_isNaN (ha heq.symm)] at hd
        exact Bool.noConfusion hd
      · exact hout (hold.mem_iff.mpr (List.mem_cons_of_mem _ hin))

/-- A full reservoir ignores an offer that is below none of its rivals. -/
theorem insert_eq_self {r : HashPruneReservoir} (hv : r.Valid) {a : Offer}
    (hfull : r.slots.length = r.lMax)
    (h : ∀ s, r.Rival a.target a.hash s → a.dist.lt s.dist.toF32 = false) :
    r.insert a.target a.hash a.dist = r := by
  cases insert_inserted hv a.target a.hash a.dist with
  | kept _ _ _ he => exact he
  | added _ hroom => exact absurd hfull hroom.ne
  | replaced s _ hr hd =>
      rw [h s hr] at hd
      exact Bool.noConfusion hd

end HashPruneReservoir
end ForgeANN
