-- SUMMARY: The best of what was offered: for each key its lowest value, and of these the first few by value and key.
import Mathlib.Data.List.Nodup
import Mathlib.Data.List.Perm.Subperm
import Mathlib.Data.Prod.Lex
import Mathlib.Order.BoundedOrder.Lattice
import Mathlib.Order.MinMax
import Mathlib.Order.WithBot

/-!
# Keeping the best offers

Offers are values for keys. What counts of a key is its lowest value, so offers
are the map from keys to lowest values, and more of them is the infimum. A list
of bounded width that keeps the first entries by value and key can be maintained
offer by offer, and can stand for the offers it was made of.
-/
namespace Lib

variable {κ ν : Type} [LinearOrder κ] [LinearOrder ν]

/-! ## Offers -/

/-- The lowest value offered for each key; `⊤` if there is none. -/
def lowest (offers : List (κ × ν)) : κ → WithTop ν := fun k =>
  ((offers.filter fun o => o.1 = k).map fun o => (o.2 : WithTop ν)).foldr (· ⊓ ·) ⊤

@[simp] theorem lowest_nil : lowest ([] : List (κ × ν)) = ⊤ := rfl

theorem lowest_cons_apply (o : κ × ν) (offers : List (κ × ν)) (k : κ) :
    lowest (o :: offers) k = if o.1 = k then ↑o.2 ⊓ lowest offers k else lowest offers k := by
  rw [lowest, List.filter_cons]
  by_cases h : o.1 = k
  · simp only [h, decide_true, if_true]
    rfl
  · simp only [h, decide_false, if_false]
    rfl

theorem lowest_singleton_self (k : κ) (v : ν) : lowest [(k, v)] k = v := by
  rw [lowest_cons_apply, if_pos rfl, lowest_nil]
  exact inf_top_eq _

theorem lowest_singleton_of_ne {k j : κ} (v : ν) (h : j ≠ k) : lowest [(k, v)] j = ⊤ := by
  rw [lowest_cons_apply, if_neg fun heq => h heq.symm]
  rfl

/-- Two offers for one key are as one. -/
theorem lowest_singleton_inf (k : κ) (v w : ν) :
    lowest [(k, v)] ⊓ lowest [(k, w)] = lowest [(k, v ⊓ w)] := by
  funext j
  rw [Pi.inf_apply]
  rcases eq_or_ne j k with rfl | hne
  · rw [lowest_singleton_self, lowest_singleton_self, lowest_singleton_self, WithTop.coe_min]
  · rw [lowest_singleton_of_ne v hne, lowest_singleton_of_ne w hne, lowest_singleton_of_ne _ hne,
      top_inf_eq]

theorem lowest_append (offers more : List (κ × ν)) :
    lowest (offers ++ more) = lowest offers ⊓ lowest more := by
  funext k
  induction offers with
  | nil => exact (top_inf_eq _).symm
  | cons o offers ih =>
      rw [List.cons_append, lowest_cons_apply, ih, Pi.inf_apply, Pi.inf_apply, lowest_cons_apply]
      split_ifs
      · exact (inf_assoc ..).symm
      · rfl

theorem lowest_cons (o : κ × ν) (offers : List (κ × ν)) :
    lowest (o :: offers) = lowest [o] ⊓ lowest offers :=
  lowest_append [o] offers

/-- The order of the offers does not matter. -/
theorem lowest_perm {offers more : List (κ × ν)} (h : offers.Perm more) :
    lowest offers = lowest more := by
  induction h with
  | nil => rfl
  | cons o _ ih => rw [lowest_cons, ih, ← lowest_cons]
  | swap o o' offers =>
      rw [lowest_cons o' (o :: offers), lowest_cons o offers, lowest_cons o (o' :: offers),
        lowest_cons o' offers, inf_left_comm]
  | trans _ _ ih₁ ih₂ => exact ih₁.trans ih₂

/-- A lowest value was offered. -/
theorem mem_of_lowest {offers : List (κ × ν)} {k : κ} {v : ν} (h : lowest offers k = v) :
    (k, v) ∈ offers := by
  induction offers with
  | nil => cases h
  | cons o offers ih =>
      rw [lowest_cons_apply] at h
      split_ifs at h with hk
      · rcases min_choice (o.2 : WithTop ν) (lowest offers k) with hmin | hmin
        · have hv : o.2 = v := WithTop.coe_injective (hmin.symm.trans h)
          rw [← hk, ← hv]
          exact List.mem_cons_self
        · exact List.mem_cons_of_mem _ (ih (hmin.symm.trans h))
      · exact List.mem_cons_of_mem _ (ih h)

theorem lowest_le_of_mem {offers : List (κ × ν)} {o : κ × ν} (h : o ∈ offers) :
    lowest offers o.1 ≤ o.2 := by
  induction offers with
  | nil => cases h
  | cons other offers ih =>
      rw [lowest_cons, Pi.inf_apply]
      rcases List.mem_cons.mp h with rfl | h
      · rw [lowest_singleton_self]
        exact inf_le_left
      · exact inf_le_right.trans (ih h)

/-- A list with one value for each key offers just these. -/
theorem lowest_of_nodup {kept : List (κ × ν)} (h : (kept.map Prod.fst).Nodup) {k : κ} {v : ν} :
    lowest kept k = v ↔ (k, v) ∈ kept := by
  refine ⟨mem_of_lowest, fun hmem => ?_⟩
  cases hlow : lowest kept k with
  | top =>
      have hle := lowest_le_of_mem hmem
      rw [hlow] at hle
      exact absurd (top_le_iff.mp hle) (WithTop.coe_ne_top)
  | coe w =>
      have hw := mem_of_lowest hlow
      have heq := List.inj_on_of_nodup_map h hw hmem rfl
      rw [(Prod.mk.inj heq).2]

/-! ## The best entries -/

/-- Entries are compared by value, then by key. -/
def entryKey (e : κ × ν) : ν ×ₗ κ := toLex (e.2, e.1)

omit [LinearOrder κ] [LinearOrder ν] in
theorem entryKey_inj {e e' : κ × ν} (h : entryKey e = entryKey e') : e = e' := by
  obtain ⟨hv, hk⟩ := Prod.mk.inj (toLex.injective h)
  exact Prod.ext hk hv

theorem entryKey_lt_of_value_lt {k : κ} {v w : ν} (h : v < w) : entryKey (k, v) < entryKey (k, w) :=
  Prod.Lex.toLex_lt_toLex.mpr (.inl h)

theorem entryKey_le_of_value_le {k : κ} {v w : ν} (h : v ≤ w) : entryKey (k, v) ≤ entryKey (k, w) := by
  rcases h.lt_or_eq with hlt | rfl
  · exact (entryKey_lt_of_value_lt hlt).le
  · exact le_refl _

/-- The list has the first `width` entries of the offers. -/
structure BestEntries (width : Nat) (offered : κ → WithTop ν) (kept : List (κ × ν)) : Prop where
  nodup : (kept.map Prod.fst).Nodup
  value_eq : ∀ e ∈ kept, offered e.1 = e.2
  lower : ∀ e ∈ kept, ∀ (k : κ) (v : ν), offered k = v → entryKey (k, v) < entryKey e → (k, v) ∈ kept
  length_le : kept.length ≤ width
  full : kept.length < width → ∀ (k : κ) (v : ν), offered k = v → (k, v) ∈ kept

namespace BestEntries

variable {width : Nat} {offered : κ → WithTop ν} {kept other rest : List (κ × ν)} {k : κ} {v w : ν}

theorem nil (width : Nat) : BestEntries width (⊤ : κ → WithTop ν) [] where
  nodup := .nil
  value_eq _ h := by cases h
  lower _ h := by cases h
  length_le := Nat.zero_le _
  full _ _ _ h := by cases h

theorem perm (h : BestEntries width offered kept) (hperm : kept.Perm other) :
    BestEntries width offered other where
  nodup := (hperm.map _).nodup_iff.mp h.nodup
  value_eq e he := h.value_eq e (hperm.mem_iff.mpr he)
  lower e he k v hk hlt := hperm.mem_iff.mp (h.lower e (hperm.mem_iff.mpr he) k v hk hlt)
  length_le := hperm.length_eq ▸ h.length_le
  full hlen k v hk := hperm.mem_iff.mp (h.full (hperm.length_eq ▸ hlen) k v hk)

theorem nodup_kept (h : BestEntries width offered kept) : kept.Nodup := h.nodup.of_map _

/-- What is offered but not kept ranks behind everything that is kept. -/
theorem entryKey_lt_of_not_mem (h : BestEntries width offered kept) (hk : offered k = v)
    (hnot : (k, v) ∉ kept) {e : κ × ν} (he : e ∈ kept) : entryKey e < entryKey (k, v) := by
  rcases lt_trichotomy (entryKey e) (entryKey (k, v)) with hlt | heq | hgt
  · exact hlt
  · exact absurd (entryKey_inj heq ▸ he) hnot
  · exact absurd (h.lower e he k v hk hgt) hnot

theorem length_eq_of_not_mem (h : BestEntries width offered kept) (hk : offered k = v)
    (hnot : (k, v) ∉ kept) : kept.length = width := by
  rcases h.length_le.lt_or_eq with hlt | heq
  · exact absurd (h.full hlt k v hk) hnot
  · exact heq

theorem subset (h : BestEntries width offered kept) (h' : BestEntries width offered other) : kept ⊆ other := by
  intro e he
  by_contra hnot
  have hoffered := h.value_eq e he
  have hsub : e :: other ⊆ kept := by
    intro x hx
    rcases List.mem_cons.mp hx with rfl | hx
    · exact he
    · exact h.lower e he x.1 x.2 (h'.value_eq x hx) (h'.entryKey_lt_of_not_mem hoffered hnot hx)
  have hnodup : (e :: other).Nodup := List.nodup_cons.mpr ⟨hnot, h'.nodup_kept⟩
  have hlen := (List.subperm_of_subset hnodup hsub).length_le
  have hfull := h'.length_eq_of_not_mem hoffered hnot
  have hle := h.length_le
  rw [List.length_cons] at hlen
  omega

/-- The offers determine what is kept. -/
theorem unique (h : BestEntries width offered kept) (h' : BestEntries width offered other) : kept.Perm other :=
  (List.perm_ext_iff_of_nodup h.nodup_kept h'.nodup_kept).mpr fun _ =>
    ⟨fun he => h.subset h' he, fun he => h'.subset h he⟩

/-! ## One more offer -/

theorem inf_singleton_of_ne {j : κ} (h : j ≠ k) : (offered ⊓ lowest [(k, v)]) j = offered j := by
  rw [Pi.inf_apply, lowest_singleton_of_ne v h]
  exact inf_top_eq _

theorem inf_singleton_self : (offered ⊓ lowest [(k, v)]) k = offered k ⊓ v := by
  rw [Pi.inf_apply, lowest_singleton_self]

/-- An entry of another key is offered as before. -/
theorem offered_of_ne {e : κ × ν} (h : e.1 ≠ k) (he : offered e.1 = e.2) :
    (offered ⊓ lowest [(k, v)]) e.1 = e.2 := by rwa [inf_singleton_of_ne h]

/-- A key that is kept has its value lowered. -/
theorem improve (h : BestEntries width offered kept) (hkept : kept.Perm ((k, w) :: rest)) :
    BestEntries width (offered ⊓ lowest [(k, v)]) ((k, w ⊓ v) :: rest) := by
  have hk : offered k = w := h.value_eq (k, w) (hkept.mem_iff.mpr List.mem_cons_self)
  have hnodup := (hkept.map Prod.fst).nodup_iff.mp h.nodup
  have hlow : (offered ⊓ lowest [(k, v)]) k = ↑(w ⊓ v) := by
    rw [inf_singleton_self, hk]
    rfl
  have hne : ∀ e ∈ rest, e.1 ≠ k := fun e he heq =>
    (List.nodup_cons.mp hnodup).1 (List.mem_map.mpr ⟨e, he, heq⟩)
  have hmem : ∀ e, e ∈ rest → e ∈ kept := fun e he =>
    hkept.mem_iff.mpr (List.mem_cons_of_mem _ he)
  have hother : ∀ (j : κ) (u : ν), j ≠ k → (j, u) ∈ kept → (j, u) ∈ rest := by
    intro j u hj hin
    rcases List.mem_cons.mp (hkept.mem_iff.mp hin) with heq | hin
    · exact absurd (Prod.mk.inj heq).1 hj
    · exact hin
  have hlen : ((k, w ⊓ v) :: rest).length = kept.length := by
    rw [hkept.length_eq]
    rfl
  constructor
  · exact hnodup
  · intro e he
    rcases List.mem_cons.mp he with rfl | he
    · exact hlow
    · exact offered_of_ne (hne e he) (h.value_eq e (hmem e he))
  · intro e he j u hj hlt
    by_cases heq : j = k
    · subst heq
      have hu : w ⊓ v = u := WithTop.coe_injective (hlow.symm.trans hj)
      rw [hu]
      exact List.mem_cons_self
    · rw [inf_singleton_of_ne heq] at hj
      refine List.mem_cons_of_mem _ (hother j u heq ?_)
      rcases List.mem_cons.mp he with rfl | he
      · refine h.lower (k, w) (hkept.mem_iff.mpr List.mem_cons_self) j u hj (hlt.trans_le ?_)
        exact entryKey_le_of_value_le inf_le_left
      · exact h.lower e (hmem e he) j u hj hlt
  · exact hlen ▸ h.length_le
  · intro hshort j u hj
    by_cases heq : j = k
    · subst heq
      have hu : w ⊓ v = u := WithTop.coe_injective (hlow.symm.trans hj)
      rw [hu]
      exact List.mem_cons_self
    · rw [inf_singleton_of_ne heq] at hj
      exact List.mem_cons_of_mem _ (hother j u heq (h.full (hlen ▸ hshort) j u hj))

/-- A new key is kept while there is room. -/
theorem insert (h : BestEntries width offered kept) (hkey : k ∉ kept.map Prod.fst)
    (hroom : kept.length < width) : BestEntries width (offered ⊓ lowest [(k, v)]) ((k, v) :: kept) := by
  have htop : offered k = ⊤ := by
    cases hk : offered k with
    | top => rfl
    | coe w => exact absurd (List.mem_map_of_mem (f := Prod.fst) (h.full hroom k w hk)) hkey
  have hlow : (offered ⊓ lowest [(k, v)]) k = v := by
    rw [inf_singleton_self, htop]
    exact top_inf_eq _
  have hne : ∀ e ∈ kept, e.1 ≠ k := fun e he heq => hkey (List.mem_map.mpr ⟨e, he, heq⟩)
  have hall : ∀ (j : κ) (u : ν), (offered ⊓ lowest [(k, v)]) j = u → (j, u) ∈ (k, v) :: kept := by
    intro j u hj
    by_cases heq : j = k
    · subst heq
      rw [WithTop.coe_injective (hlow.symm.trans hj)]
      exact List.mem_cons_self
    · rw [inf_singleton_of_ne heq] at hj
      exact List.mem_cons_of_mem _ (h.full hroom j u hj)
  constructor
  · exact List.nodup_cons.mpr ⟨hkey, h.nodup⟩
  · intro e he
    rcases List.mem_cons.mp he with rfl | he
    · exact hlow
    · exact offered_of_ne (hne e he) (h.value_eq e he)
  · exact fun _ _ j u hj _ => hall j u hj
  · exact hroom
  · exact fun _ => hall

/-- A value offered for a key that is not kept is the key's lowest if it ranks before something
kept. -/
theorem lowest_of_entryKey_lt (h : BestEntries width offered kept) (hkey : k ∉ kept.map Prod.fst)
    {e : κ × ν} (he : e ∈ kept) (hlt : entryKey (k, v) < entryKey e) :
    (offered ⊓ lowest [(k, v)]) k = v := by
  rw [inf_singleton_self]
  apply inf_eq_right.mpr
  cases hk : offered k with
  | top => exact le_top
  | coe w =>
      have hnot : (k, w) ∉ kept := fun hin => hkey (List.mem_map_of_mem (f := Prod.fst) hin)
      have hwlt := hlt.trans (h.entryKey_lt_of_not_mem hk hnot he)
      apply WithTop.coe_le_coe.mpr
      by_contra hvw
      exact absurd (entryKey_lt_of_value_lt (k := k) (not_le.mp hvw)) hwlt.not_gt

/-- In a full list a new key takes the place of the last entry if it ranks before it. -/
theorem replace (h : BestEntries width offered kept) (hkey : k ∉ kept.map Prod.fst) {worst : κ × ν}
    (hkept : kept.Perm (worst :: rest)) (hworst : ∀ e ∈ kept, entryKey e ≤ entryKey worst)
    (hfull : kept.length = width) (hlt : entryKey (k, v) < entryKey worst) :
    BestEntries width (offered ⊓ lowest [(k, v)]) ((k, v) :: rest) := by
  have hin : worst ∈ kept := hkept.mem_iff.mpr List.mem_cons_self
  have hlow := h.lowest_of_entryKey_lt hkey hin hlt
  have hmem : ∀ e, e ∈ rest → e ∈ kept := fun e he =>
    hkept.mem_iff.mpr (List.mem_cons_of_mem _ he)
  have hne : ∀ e ∈ rest, e.1 ≠ k := fun e he heq =>
    hkey (List.mem_map.mpr ⟨e, hmem e he, heq⟩)
  have hnodup := List.nodup_cons.mp ((hkept.map Prod.fst).nodup_iff.mp h.nodup)
  have hlen : ((k, v) :: rest).length = width := by
    rw [← hfull, hkept.length_eq]
    rfl
  constructor
  · refine List.nodup_cons.mpr ⟨fun hin => ?_, hnodup.2⟩
    obtain ⟨e, he, heq⟩ := List.mem_map.mp hin
    exact hne e he heq
  · intro e he
    rcases List.mem_cons.mp he with rfl | he
    · exact hlow
    · exact offered_of_ne (hne e he) (h.value_eq e (hmem e he))
  · intro e he j u hj hju
    by_cases heq : j = k
    · subst heq
      rw [WithTop.coe_injective (hlow.symm.trans hj)]
      exact List.mem_cons_self
    · rw [inf_singleton_of_ne heq] at hj
      -- It ranks before the worst entry, so it is kept, and is not that entry.
      have hbefore : entryKey (j, u) < entryKey worst := by
        rcases List.mem_cons.mp he with rfl | he
        · exact hju.trans hlt
        · exact hju.trans_le (hworst e (hmem e he))
      rcases List.mem_cons.mp (hkept.mem_iff.mp (h.lower worst hin j u hj hbefore)) with hw | hin
      · exact absurd (hw ▸ hbefore) (lt_irrefl _)
      · exact List.mem_cons_of_mem _ hin
  · exact hlen.le
  · exact fun hshort => absurd hlen hshort.ne

/-- A new key that ranks behind a full list is not kept. -/
theorem reject (h : BestEntries width offered kept) (hkey : k ∉ kept.map Prod.fst)
    (hbehind : ∀ e ∈ kept, entryKey e ≤ entryKey (k, v)) (hfull : kept.length = width) :
    BestEntries width (offered ⊓ lowest [(k, v)]) kept := by
  have hne : ∀ e ∈ kept, e.1 ≠ k := fun e he heq => hkey (List.mem_map.mpr ⟨e, he, heq⟩)
  constructor
  · exact h.nodup
  · exact fun e he => offered_of_ne (hne e he) (h.value_eq e he)
  · intro e he j u hj hlt
    by_cases heq : j = k
    · subst heq
      -- The key's value is the old or the new one, and both rank behind.
      exfalso
      rw [inf_singleton_self] at hj
      rcases min_choice (offered j) (v : WithTop ν) with hmin | hmin
      · have hold : offered j = u := hmin.symm.trans hj
        have hnot : (j, u) ∉ kept := fun hin => hkey (List.mem_map_of_mem (f := Prod.fst) hin)
        exact absurd (h.entryKey_lt_of_not_mem hold hnot he) hlt.not_gt
      · have hnew : v = u := WithTop.coe_injective (hmin.symm.trans hj)
        exact absurd (hnew ▸ hbehind e he) hlt.not_ge
    · rw [inf_singleton_of_ne heq] at hj
      exact h.lower e he j u hj hlt
  · exact h.length_le
  · exact fun hshort => absurd hfull hshort.ne

end BestEntries
/-! ## The worst entry -/

/-- The greatest item with its index; of several the last. -/
def maxByKey {α κ : Type} [LinearOrder κ] (key : α → κ) : List α → Option (Nat × α)
  | [] => none
  | a :: l =>
      match maxByKey key l with
      | none => some (0, a)
      | some (i, b) => if key b < key a then some (0, a) else some (i + 1, b)

section

variable {α κ : Type} [LinearOrder κ] {key : α → κ} {l : List α} {i : Nat} {a : α}

theorem maxByKey_eq_none (h : maxByKey key l = none) : l = [] := by
  cases l with
  | nil => rfl
  | cons a l =>
      rw [maxByKey] at h
      cases hl : maxByKey key l with
      | none => rw [hl] at h; cases h
      | some found =>
          rw [hl] at h
          dsimp only at h
          split_ifs at h

theorem maxByKey_spec (h : maxByKey key l = some (i, a)) :
    l[i]? = some a ∧ ∀ b ∈ l, key b ≤ key a := by
  induction l generalizing i a with
  | nil => cases h
  | cons b l ih =>
      rw [maxByKey] at h
      cases hl : maxByKey key l with
      | none =>
          rw [hl] at h
          obtain ⟨rfl, rfl⟩ := Prod.mk.inj (Option.some.inj h)
          rw [maxByKey_eq_none hl]
          exact ⟨rfl, fun c hc => (List.mem_singleton.mp hc ▸ le_refl _)⟩
      | some found =>
          obtain ⟨hget, hmax⟩ := ih hl
          rw [hl] at h
          dsimp only at h
          split_ifs at h with hlt
          · obtain ⟨rfl, rfl⟩ := Prod.mk.inj (Option.some.inj h)
            refine ⟨rfl, fun c hc => ?_⟩
            rcases List.mem_cons.mp hc with rfl | hc
            · exact le_refl _
            · exact (hmax c hc).trans hlt.le
          · obtain ⟨rfl, rfl⟩ := Prod.mk.inj (Option.some.inj h)
            refine ⟨hget, fun c hc => ?_⟩
            rcases List.mem_cons.mp hc with rfl | hc
            · exact not_lt.mp hlt
            · exact hmax c hc

/-- The item that all others are less than is the one found. -/
theorem maxByKey_eq_of_lt (hi : l[i]? = some a)
    (hlt : ∀ j b, l[j]? = some b → j ≠ i → key b < key a) : maxByKey key l = some (i, a) := by
  cases hl : maxByKey key l with
  | none =>
      rw [maxByKey_eq_none hl] at hi
      cases hi
  | some found =>
      obtain ⟨j, b⟩ := found
      obtain ⟨hj, hmax⟩ := maxByKey_spec hl
      rcases eq_or_ne j i with rfl | hne
      · rw [Option.some.inj (hj.symm.trans hi)]
      · exact absurd (hmax a (List.mem_of_getElem? hi)) (not_le.mpr (hlt j b hj hne))

end

/-! ## Standing for offers -/

/-- Whatever else is offered, what is kept of `stored` is what is kept of `offered`. -/
def StandsFor (width : Nat) (stored offered : κ → WithTop ν) : Prop :=
  ∀ more kept, BestEntries width (stored ⊓ more) kept → BestEntries width (offered ⊓ more) kept

namespace StandsFor

variable {width : Nat} {stored mid offered more : κ → WithTop ν} {kept : List (κ × ν)}

theorem refl (width : Nat) (offered : κ → WithTop ν) : StandsFor width offered offered :=
  fun _ _ h => h

theorem trans (h : StandsFor width stored mid) (h' : StandsFor width mid offered) :
    StandsFor width stored offered := fun more kept hbest => h' more kept (h more kept hbest)

theorem inf_right (h : StandsFor width stored offered) (more : κ → WithTop ν) :
    StandsFor width (stored ⊓ more) (offered ⊓ more) := by
  intro further kept hbest
  rw [inf_assoc] at hbest ⊢
  exact h _ kept hbest

theorem inf_left (h : StandsFor width stored offered) (more : κ → WithTop ν) :
    StandsFor width (more ⊓ stored) (more ⊓ offered) := by
  rw [inf_comm more, inf_comm more]
  exact h.inf_right more

theorem best (h : StandsFor width stored offered) (hbest : BestEntries width stored kept) :
    BestEntries width offered kept := by
  have htop := h ⊤ kept
  rw [inf_top_eq, inf_top_eq] at htop
  exact htop hbest

end StandsFor

section

variable {width : Nat} {offered : κ → WithTop ν} {kept : List (κ × ν)}

theorem BestEntries.le_lowest (h : BestEntries width offered kept) : offered ≤ lowest kept := by
  intro k
  cases hk : lowest kept k with
  | top => exact le_top
  | coe v => exact (h.value_eq (k, v) ((lowest_of_nodup h.nodup).mp hk)).le

/-- If a dropped entry comes into play again, everything kept is ahead of it. -/
theorem BestEntries.entryKey_lt_of_dropped (h : BestEntries width offered kept) {more : κ → WithTop ν}
    {chosen : List (κ × ν)} (hchosen : BestEntries width (lowest kept ⊓ more) chosen) {k : κ} {v : ν}
    (hk : offered k = v) (hnot : (k, v) ∉ kept) :
    chosen.length = width ∧ ∀ e ∈ chosen, entryKey e < entryKey (k, v) := by
  have hfull := h.length_eq_of_not_mem hk hnot
  -- A kept key has a value that ranks no later than the one kept.
  have hvalue : ∀ e ∈ kept, ∃ u : ν, (lowest kept ⊓ more) e.1 = ↑u ∧ entryKey (e.1, u) ≤ entryKey e := by
    intro e he
    have hle : (lowest kept ⊓ more) e.1 ≤ e.2 :=
      inf_le_left.trans ((lowest_of_nodup h.nodup).mpr he).le
    obtain ⟨u, hu⟩ := WithTop.ne_top_iff_exists.mp
      (ne_top_of_le_ne_top WithTop.coe_ne_top hle)
    refine ⟨u, hu.symm, entryKey_le_of_value_le ?_⟩
    rw [← hu] at hle
    exact WithTop.coe_le_coe.mp hle
  have hbefore : ∀ e ∈ kept, ∀ u, entryKey (e.1, u) ≤ entryKey e → entryKey (e.1, u) < entryKey (k, v) :=
    fun e he u hu => hu.trans_lt (h.entryKey_lt_of_not_mem hk hnot he)
  have hkeys : ∀ x ∈ chosen, entryKey (k, v) ≤ entryKey x →
      kept.map Prod.fst ⊆ chosen.map Prod.fst := by
    intro x hx hge j hj
    obtain ⟨e, he, rfl⟩ := List.mem_map.mp hj
    obtain ⟨u, hu, hrank⟩ := hvalue e he
    exact List.mem_map.mpr
      ⟨_, hchosen.lower x hx e.1 u hu ((hbefore e he u hrank).trans_le hge), rfl⟩
  have hlen : chosen.length = width := by
    refine hchosen.length_le.lt_or_eq.resolve_left fun hshort => ?_
    have hsub : kept.map Prod.fst ⊆ chosen.map Prod.fst := by
      intro j hj
      obtain ⟨e, he, rfl⟩ := List.mem_map.mp hj
      obtain ⟨u, hu, -⟩ := hvalue e he
      exact List.mem_map.mpr ⟨_, hchosen.full hshort e.1 u hu, rfl⟩
    have hle := (List.subperm_of_subset h.nodup hsub).length_le
    rw [List.length_map, List.length_map] at hle
    omega
  refine ⟨hlen, fun x hx => not_le.mp fun hge => ?_⟩
  -- Then the chosen keys are the kept ones, and `x` is one of them.
  have hperm := (List.subperm_of_subset h.nodup (hkeys x hx hge)).perm_of_length_le
    (by rw [List.length_map, List.length_map]; omega)
  obtain ⟨e, he, hkey⟩ := List.mem_map.mp (hperm.mem_iff.mpr (List.mem_map_of_mem hx))
  obtain ⟨u, hu, hrank⟩ := hvalue e he
  have hx' : x = (e.1, u) := by
    have hval := hchosen.value_eq x hx
    rw [← hkey, hu] at hval
    exact Prod.ext hkey.symm (WithTop.coe_injective hval).symm
  exact absurd (hx' ▸ hge) (hbefore e he u hrank).not_ge

/-- What is kept of offers stands for them. -/
theorem BestEntries.standsFor (h : BestEntries width offered kept) : StandsFor width (lowest kept) offered := by
  intro more chosen hchosen
  -- The two differ only at dropped entries, and these rank behind a full list.
  have hsame : ∀ j, offered j = lowest kept j ∨ ∃ v : ν, offered j = v ∧ (j, v) ∉ kept := by
    intro j
    cases hj : offered j with
    | top =>
        have hle := h.le_lowest j
        rw [hj] at hle
        exact .inl (top_le_iff.mp hle).symm
    | coe v =>
        by_cases hin : (j, v) ∈ kept
        · exact .inl ((lowest_of_nodup h.nodup).mpr hin).symm
        · exact .inr ⟨v, rfl, hin⟩
  have hsplit : ∀ j (u : ν), (offered ⊓ more) j = u → (lowest kept ⊓ more) j = u ∨
      (chosen.length = width ∧ ∀ e ∈ chosen, entryKey e < entryKey (j, u)) := by
    intro j u hj
    rcases hsame j with heq | ⟨v, hv, hnot⟩
    · exact .inl (by rw [Pi.inf_apply, ← heq, ← Pi.inf_apply, hj])
    · rcases min_choice (offered j) (more j) with hmin | hmin
      · have huv : v = u := WithTop.coe_injective (hv.symm.trans (hmin.symm.trans hj))
        exact .inr (huv ▸ h.entryKey_lt_of_dropped hchosen hv hnot)
      · left
        have hmore : more j = u := hmin.symm.trans hj
        have hle : more j ≤ lowest kept j := (min_eq_right_iff.mp hmin).trans (h.le_lowest j)
        rw [Pi.inf_apply, inf_eq_right.mpr hle, hmore]
  constructor
  · exact hchosen.nodup
  · intro e he
    have hval := hchosen.value_eq e he
    have hle : (offered ⊓ more) e.1 ≤ (lowest kept ⊓ more) e.1 :=
      inf_le_inf (h.le_lowest e.1) le_rfl
    obtain ⟨u, hu⟩ := WithTop.ne_top_iff_exists.mp
      (ne_top_of_le_ne_top (hval ▸ WithTop.coe_ne_top) hle)
    rcases hsplit e.1 u hu.symm with heq | ⟨-, hbehind⟩
    · rw [← hu, ← heq, hval]
    · rw [hval, ← hu] at hle
      exact absurd (entryKey_le_of_value_le (WithTop.coe_le_coe.mp hle)) (hbehind e he).not_ge
  · intro e he j u hj hlt
    rcases hsplit j u hj with heq | ⟨-, hbehind⟩
    · exact hchosen.lower e he j u heq hlt
    · exact absurd hlt (hbehind e he).not_gt
  · exact hchosen.length_le
  · intro hshort j u hj
    rcases hsplit j u hj with heq | ⟨hfull, -⟩
    · exact hchosen.full hshort j u heq
    · exact absurd hfull hshort.ne

end
end Lib
