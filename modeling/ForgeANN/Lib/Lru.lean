-- SUMMARY: Caches that give up the least recently used entries first, within a budget of sizes.
import Mathlib.Algebra.BigOperators.Group.List.Basic
import Mathlib.Algebra.GroupWithZero.Nat
import Mathlib.Data.List.Dedup
import Mathlib.Data.List.Perm.Basic

/-!
# Least recently used

Entries stand in the order of their last use. A use moves an entry to the end,
and room is made at the front. The keys are therefore those of the uses so far,
each at its last use, less the ones that were given up.
-/
namespace Lib

/-! ## One entry for a key -/

section

variable {κ ν : Type} [DecidableEq κ] {entries : List (κ × ν)} {key : κ} {value : ν}

theorem find?_key_eq_some (h : (entries.map Prod.fst).Nodup) :
    (entries.find? fun entry => entry.1 = key).map Prod.snd = some value ↔ (key, value) ∈ entries := by
  rw [Option.map_eq_some_iff]
  constructor
  · rintro ⟨entry, hfind, rfl⟩
    have hkey : entry.1 = key := by simpa using List.find?_some hfind
    exact hkey ▸ List.mem_of_find?_eq_some hfind
  · intro hmem
    cases hfind : entries.find? fun entry => entry.1 = key with
    | none => simpa using List.find?_eq_none.mp hfind _ hmem
    | some entry =>
        have hkey : entry.1 = key := by simpa using List.find?_some hfind
        have heq := List.inj_on_of_nodup_map h (List.mem_of_find?_eq_some hfind) hmem hkey
        exact ⟨entry, rfl, congrArg Prod.snd heq⟩

theorem perm_filter_key (h : (entries.map Prod.fst).Nodup) (hmem : (key, value) ∈ entries) :
    entries.Perm ((key, value) :: entries.filter fun entry => entry.1 ≠ key) := by
  have hnodup : entries.Nodup := h.of_map _
  have hnot : (key, value) ∉ entries.filter fun entry => entry.1 ≠ key := by simp
  rw [List.perm_ext_iff_of_nodup hnodup (List.nodup_cons.mpr ⟨hnot, hnodup.filter _⟩)]
  intro entry
  rw [List.mem_cons, List.mem_filter, decide_eq_true_iff]
  constructor
  · intro hentry
    by_cases hkey : entry.1 = key
    · exact .inl (List.inj_on_of_nodup_map h hentry hmem hkey)
    · exact .inr ⟨hentry, hkey⟩
  · rintro (rfl | ⟨hentry, -⟩)
    · exact hmem
    · exact hentry

end

/-! ## Caches -/

/-- Entries from the least to the most recently used, one for a key. -/
structure Lru (κ ν : Type) where
  entries : List (κ × ν)
  nodup : (entries.map Prod.fst).Nodup

namespace Lru

variable {κ ν : Type} [DecidableEq κ]

def empty : Lru κ ν := ⟨[], List.nodup_nil⟩

def keys (l : Lru κ ν) : List κ := l.entries.map Prod.fst

def get? (l : Lru κ ν) (key : κ) : Option ν :=
  (l.entries.find? fun entry => entry.1 = key).map Prod.snd

/-- The sum of the sizes. -/
def total (size : ν → Nat) (entries : List (κ × ν)) : Nat := (entries.map fun entry => size entry.2).sum

/-- The entries but that of a key. -/
def others (l : Lru κ ν) (key : κ) : List (κ × ν) := l.entries.filter fun entry => entry.1 ≠ key

omit [DecidableEq κ] in
@[simp] theorem total_nil (size : ν → Nat) : total size ([] : List (κ × ν)) = 0 := rfl

omit [DecidableEq κ] in
@[simp] theorem total_cons (size : ν → Nat) (entry : κ × ν) (entries : List (κ × ν)) :
    total size (entry :: entries) = size entry.2 + total size entries := List.sum_cons

omit [DecidableEq κ] in
theorem total_perm {size : ν → Nat} {entries entries' : List (κ × ν)} (h : entries.Perm entries') :
    total size entries = total size entries' :=
  (h.map _).sum_eq

theorem keys_others (l : Lru κ ν) (key : κ) :
    (l.others key).map Prod.fst = l.keys.filter fun k => k ≠ key := by
  rw [others, keys, List.filter_map]
  rfl

theorem notMem_others (l : Lru κ ν) (key : κ) : key ∉ (l.others key).map Prod.fst := by
  simp [keys_others]

theorem nodup_others_append (l : Lru κ ν) (key : κ) (value : ν) :
    ((l.others key ++ [(key, value)]).map Prod.fst).Nodup := by
  rw [List.map_append, List.nodup_append]
  refine ⟨?_, List.nodup_singleton _, ?_⟩
  · rw [keys_others]
    exact l.nodup.filter _
  · intro k hk k' hk' heq
    rw [List.map_singleton, List.mem_singleton] at hk'
    subst heq hk'
    exact l.notMem_others _ hk

/-- The entry becomes the most recently used one. -/
def push (l : Lru κ ν) (key : κ) (value : ν) : Lru κ ν :=
  ⟨l.others key ++ [(key, value)], l.nodup_others_append key value⟩

/-- A use of the key, where it has an entry. -/
def touch (l : Lru κ ν) (key : κ) : Lru κ ν :=
  match l.get? key with
  | some value => l.push key value
  | none => l

/-- Entries go from the front until the rest fits. -/
def fitFrom (size : ν → Nat) (budget : Nat) : List (κ × ν) → List (κ × ν)
  | [] => []
  | entry :: entries =>
      if total size (entry :: entries) ≤ budget then entry :: entries
      else fitFrom size budget entries

omit [DecidableEq κ] in
theorem fitFrom_suffix (size : ν → Nat) (budget : Nat) (entries : List (κ × ν)) :
    fitFrom size budget entries <:+ entries := by
  induction entries with
  | nil => exact List.suffix_refl _
  | cons entry entries ih =>
      rw [fitFrom]
      split
      · exact List.suffix_refl _
      · exact ih.trans (List.suffix_cons entry entries)

omit [DecidableEq κ] in
theorem total_fitFrom_le (size : ν → Nat) (budget : Nat) (entries : List (κ × ν)) :
    total size (fitFrom size budget entries) ≤ budget := by
  induction entries with
  | nil => exact Nat.zero_le _
  | cons entry entries ih =>
      rw [fitFrom]
      split
      · assumption
      · exact ih

def fit (size : ν → Nat) (budget : Nat) (l : Lru κ ν) : Lru κ ν :=
  ⟨fitFrom size budget l.entries,
    ((fitFrom_suffix size budget l.entries).sublist.map _).nodup l.nodup⟩

/-- An insertion makes room for its entry. -/
def put (size : ν → Nat) (budget : Nat) (l : Lru κ ν) (key : κ) (value : ν) : Lru κ ν :=
  (l.push key value).fit size budget

/-! ## Entries -/

variable {l : Lru κ ν} {key : κ} {value : ν}

theorem get?_eq_some : l.get? key = some value ↔ (key, value) ∈ l.entries := find?_key_eq_some l.nodup

theorem get?_eq_none : l.get? key = none ↔ key ∉ l.keys := by
  rw [Option.eq_none_iff_forall_ne_some, keys]
  constructor
  · intro h hmem
    obtain ⟨entry, hentry, rfl⟩ := List.mem_map.mp hmem
    exact h entry.2 (get?_eq_some.mpr hentry)
  · intro h value hvalue
    exact h (List.mem_map.mpr ⟨_, get?_eq_some.mp hvalue, rfl⟩)

theorem perm_others (h : l.get? key = some value) :
    l.entries.Perm ((key, value) :: l.others key) :=
  perm_filter_key l.nodup (get?_eq_some.mp h)

/-- A key without an entry has none to be left out. -/
theorem others_eq_self (h : l.get? key = none) : l.others key = l.entries := by
  refine List.filter_eq_self.mpr fun entry hentry => decide_eq_true ?_
  rintro rfl
  exact get?_eq_none.mp h (List.mem_map.mpr ⟨entry, hentry, rfl⟩)

theorem mem_push {entry : κ × ν} (h : entry ∈ (l.push key value).entries) :
    entry = (key, value) ∨ entry ∈ l.entries ∧ entry.1 ≠ key := by
  rcases List.mem_append.mp h with h | h
  · rw [others, List.mem_filter, decide_eq_true_iff] at h
    exact .inr h
  · exact .inl (List.mem_singleton.mp h)

theorem mem_put {size : ν → Nat} {budget : Nat} {entry : κ × ν}
    (h : entry ∈ (l.put size budget key value).entries) :
    entry = (key, value) ∨ entry ∈ l.entries ∧ entry.1 ≠ key :=
  mem_push ((fitFrom_suffix size budget _).subset h)

/-- A use changes the order only. -/
theorem perm_touch (l : Lru κ ν) (key : κ) : (l.touch key).entries.Perm l.entries := by
  rw [touch]
  cases h : l.get? key with
  | none => exact List.Perm.refl _
  | some value => exact List.perm_append_comm.trans (perm_others h).symm

theorem keys_push (l : Lru κ ν) (key : κ) (value : ν) :
    (l.push key value).keys = (l.keys.filter fun k => k ≠ key) ++ [key] := by
  rw [← keys_others, keys, push, List.map_append]
  rfl

theorem keys_touch (h : l.get? key = some value) :
    (l.touch key).keys = (l.keys.filter fun k => k ≠ key) ++ [key] := by
  rw [touch, h]
  exact keys_push l key value

/-- What an insertion gives up comes before what it keeps. -/
theorem keys_put (size : ν → Nat) (budget : Nat) (l : Lru κ ν) (key : κ) (value : ν) :
    (l.put size budget key value).keys <:+ (l.keys.filter fun k => k ≠ key) ++ [key] := by
  rw [← keys_push l key value]
  exact (fitFrom_suffix size budget _).map Prod.fst

theorem total_put_le (size : ν → Nat) (budget : Nat) (l : Lru κ ν) (key : κ) (value : ν) :
    total size (l.put size budget key value).entries ≤ budget :=
  total_fitFrom_le size budget _

/-! ## The order of the last uses -/

/-- Appending a use moves its key behind all others. -/
theorem dedup_append_singleton (uses : List κ) (key : κ) :
    (uses ++ [key]).dedup = (uses.dedup.filter fun k => k ≠ key) ++ [key] := by
  induction uses with
  | nil => simp
  | cons k uses ih =>
      rw [List.cons_append]
      by_cases hmem : k ∈ uses
      · rw [List.dedup_cons_of_mem (List.mem_append_left _ hmem), List.dedup_cons_of_mem hmem, ih]
      · rw [List.dedup_cons_of_notMem hmem, List.filter_cons]
        by_cases hkey : k = key
        · rw [List.dedup_cons_of_mem (by simp [hkey]), ih, if_neg (by simp [hkey])]
        · rw [List.dedup_cons_of_notMem (by simp [hmem, hkey]), ih, if_pos (by simp [hkey]),
            List.cons_append]

/-- The keys stand in the order of their last uses. -/
def InOrder (uses : List κ) (l : Lru κ ν) : Prop := l.keys.Sublist uses.dedup

theorem inOrder_empty (uses : List κ) : InOrder uses (empty : Lru κ ν) := List.nil_sublist _

variable {uses : List κ}

theorem InOrder.push (h : InOrder uses l) (key : κ) (value : ν) :
    InOrder (uses ++ [key]) (l.push key value) := by
  rw [InOrder, keys_push, dedup_append_singleton]
  exact (h.filter _).append_right [key]

theorem InOrder.touch (h : InOrder uses l) (hkey : l.get? key = some value) :
    InOrder (uses ++ [key]) (l.touch key) := by
  rw [Lru.touch, hkey]
  exact h.push key value

theorem InOrder.put (h : InOrder uses l) (size : ν → Nat) (budget : Nat) (key : κ) (value : ν) :
    InOrder (uses ++ [key]) (l.put size budget key value) :=
  ((fitFrom_suffix size budget _).sublist.map _).trans (h.push key value)

end Lru

end Lib
