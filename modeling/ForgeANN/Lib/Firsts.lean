-- SUMMARY: The first item of each key, how many there are, and when what they weigh together depends on the order.
import Mathlib.Algebra.BigOperators.Group.Finset.Basic
import Mathlib.Algebra.GroupWithZero.Nat
import Mathlib.Algebra.Order.BigOperators.Group.List
import Mathlib.Data.Finset.Card
import Mathlib.Data.List.Perm.Subperm

/-!
# Firsts

Items come with keys, and only the first item of each key is charged. How many
are charged is the number of keys, whatever the order of the items. What they
weigh together depends on the order exactly when two items of one key weigh
differently.
-/
namespace Lib

variable {α κ : Type} [DecidableEq κ] {key : α → κ} {l l' acc : List α} {a b : α} {w : α → Nat}

/-- Charge an item, unless one with its key has been. -/
def charge (key : α → κ) (acc : List α) (a : α) : List α :=
  if key a ∈ acc.map key then acc else acc ++ [a]

/-- The items charged, in their order. -/
def firsts (key : α → κ) (l : List α) : List α := l.foldl (charge key) []

@[simp] theorem firsts_nil : firsts key [] = [] := rfl

theorem firsts_concat : firsts key (l ++ [a]) = charge key (firsts key l) a := by
  rw [firsts, List.foldl_append]
  rfl

theorem charge_of_mem (h : key a ∈ acc.map key) : charge key acc a = acc := if_pos h

theorem charge_of_not_mem (h : key a ∉ acc.map key) : charge key acc a = acc ++ [a] := if_neg h

/-! ## Keys -/

theorem mem_keys_charge {k : κ} :
    k ∈ (charge key acc a).map key ↔ k ∈ acc.map key ∨ k = key a := by
  by_cases h : key a ∈ acc.map key
  · rw [charge_of_mem h]
    exact ⟨.inl, fun hk => hk.elim id fun heq => heq ▸ h⟩
  · rw [charge_of_not_mem h, List.map_append, List.mem_append]
    simp

theorem mem_keys_firsts {k : κ} : k ∈ (firsts key l).map key ↔ k ∈ l.map key := by
  induction l using List.reverseRecOn with
  | nil => rfl
  | append_singleton l a ih =>
      rw [firsts_concat, mem_keys_charge, ih, List.map_append, List.mem_append]
      simp

theorem mem_of_mem_firsts (h : a ∈ firsts key l) : a ∈ l := by
  induction l using List.reverseRecOn with
  | nil => exact h
  | append_singleton l b ih =>
      rw [firsts_concat, charge] at h
      split_ifs at h
      · exact List.mem_append_left _ (ih h)
      · rcases List.mem_append.mp h with h | h
        · exact List.mem_append_left _ (ih h)
        · exact List.mem_append_right _ h

theorem nodup_keys_firsts (key : α → κ) (l : List α) : ((firsts key l).map key).Nodup := by
  induction l using List.reverseRecOn with
  | nil => exact List.nodup_nil
  | append_singleton l a ih =>
      rw [firsts_concat]
      by_cases h : key a ∈ (firsts key l).map key
      · rwa [charge_of_mem h]
      · rw [charge_of_not_mem h, List.map_append]
        exact List.nodup_append.mpr ⟨ih, List.nodup_singleton _, fun k hk k' hk' heq => h (by
          rwa [← List.mem_singleton.mp hk', ← heq])⟩

theorem toFinset_keys_firsts : ((firsts key l).map key).toFinset = (l.map key).toFinset := by
  ext k
  rw [List.mem_toFinset, List.mem_toFinset, mem_keys_firsts]

/-- As many items are charged as there are keys. -/
theorem length_firsts (key : α → κ) (l : List α) :
    (firsts key l).length = (l.map key).toFinset.card := by
  rw [← toFinset_keys_firsts, List.toFinset_card_of_nodup (nodup_keys_firsts key l),
    List.length_map]

/-! ## Weights -/

/-- Items that weigh what their keys do weigh together what the keys do. -/
theorem sum_firsts {g : κ → Nat} (h : ∀ a ∈ l, w a = g (key a)) :
    ((firsts key l).map w).sum = ∑ k ∈ (l.map key).toFinset, g k := by
  have hmap : (firsts key l).map w = ((firsts key l).map key).map g := by
    rw [List.map_map]
    exact List.map_congr_left fun a ha => h a (mem_of_mem_firsts ha)
  rw [hmap, ← toFinset_keys_firsts, List.sum_toFinset g (nodup_keys_firsts key l)]

/-- What is charged later depends on what has been charged by its keys only. -/
theorem exists_charged (key : α → κ) (keys : List κ) (l : List α) :
    ∃ new : List α, ∀ acc : List α, acc.map key = keys → l.foldl (charge key) acc = acc ++ new := by
  induction l generalizing keys with
  | nil => exact ⟨[], fun acc _ => (List.append_nil acc).symm⟩
  | cons a l ih =>
      by_cases h : key a ∈ keys
      · obtain ⟨new, hnew⟩ := ih keys
        refine ⟨new, fun acc hacc => ?_⟩
        rw [List.foldl_cons, charge_of_mem (hacc ▸ h)]
        exact hnew acc hacc
      · obtain ⟨new, hnew⟩ := ih (keys ++ [key a])
        refine ⟨a :: new, fun acc hacc => ?_⟩
        rw [List.foldl_cons, charge_of_not_mem (hacc ▸ h),
          hnew (acc ++ [a]) (by rw [List.map_append, hacc]; rfl), List.append_assoc]
        rfl

theorem exists_perm_pair (ha : a ∈ l) (hb : b ∈ l) (hne : a ≠ b) :
    ∃ rest, l.Perm (a :: b :: rest) := by
  obtain ⟨before, after, rfl⟩ := List.append_of_mem ha
  have hb' : b ∈ before ++ after := by
    rcases List.mem_append.mp hb with hb | hb
    · exact List.mem_append_left _ hb
    · rcases List.mem_cons.mp hb with heq | hb
      · exact absurd heq.symm hne
      · exact List.mem_append_right _ hb
  obtain ⟨before', after', hsplit⟩ := List.append_of_mem hb'
  refine ⟨before' ++ after', List.perm_middle.trans (List.Perm.cons a ?_)⟩
  rw [hsplit]
  exact List.perm_middle

/-- What is charged weighs the same in every order, if and only if no two items of one key weigh
differently. -/
theorem sum_firsts_perm_iff (key : α → κ) (w : α → Nat) (l : List α) :
    (∀ l', l'.Perm l → ((firsts key l').map w).sum = ((firsts key l).map w).sum) ↔
      ∀ a ∈ l, ∀ b ∈ l, key a = key b → w a = w b := by
  constructor
  · intro h a ha b hb hkey
    by_contra hne
    obtain ⟨rest, hrest⟩ := exists_perm_pair ha hb fun heq => hne (congrArg w heq)
    obtain ⟨new, hnew⟩ := exists_charged key [key a] rest
    have hfirst : ∀ c d, key c = key a → key d = key a → firsts key (c :: d :: rest) = c :: new := by
      intro c d hc hd
      have hd' : key d ∈ [c].map key := by simp [hc, hd]
      calc firsts key (c :: d :: rest)
          = rest.foldl (charge key) (charge key [c] d) := rfl
        _ = rest.foldl (charge key) [c] := by rw [charge_of_mem hd']
        _ = c :: new := hnew [c] (by rw [List.map_singleton, hc])
    have hswap := h (b :: a :: rest) ((List.Perm.swap a b rest).trans hrest.symm)
    have hsame := h (a :: b :: rest) hrest.symm
    rw [hfirst b a hkey.symm rfl] at hswap
    rw [hfirst a b rfl hkey.symm] at hsame
    simp only [List.map_cons, List.sum_cons] at hswap hsame
    omega
  · intro h l' hperm
    have hg : ∀ a ∈ l, w a = ((l.find? fun b => key b = key a).elim 0 w) := by
      intro a ha
      cases hfind : l.find? fun b => key b = key a with
      | none => exact absurd (List.find?_eq_none.mp hfind a ha) (by simp)
      | some b =>
          have hb := List.find?_some hfind
          exact h a ha b (List.mem_of_find?_eq_some hfind) (of_decide_eq_true hb).symm
    rw [sum_firsts (g := fun k => (l.find? fun b => key b = k).elim 0 w) hg,
      sum_firsts (g := fun k => (l.find? fun b => key b = k).elim 0 w)
        fun a ha => hg a (hperm.mem_iff.mp ha)]
    congr 1
    ext k
    rw [List.mem_toFinset, List.mem_toFinset]
    exact (hperm.map key).mem_iff

end Lib
