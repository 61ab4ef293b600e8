-- SUMMARY: The window cache over whole histories of calls: least recently used order, bytes in use, and what a get returns.
import ForgeANN.Lib.Lru
import ForgeANN.Points.WindowCache

/-!
# Histories of the window cache

The map, the order and the count of bytes are three views of one cache that
gives up the least recently used windows first. They stay so as long as the
count does not saturate. An insertion that is refused leaves an older window of
its key in place, which a later get then returns.
-/
namespace ForgeANN

open Lib

namespace VectorWindowCache

/-- A window without data is not kept, nor is one beyond the whole budget. -/
def Refuses (budgetBytes : UInt64) (data : List F32) : Prop :=
  windowBytes data = 0 ∨ budgetBytes < windowBytes data

instance (budgetBytes : UInt64) (data : List F32) : Decidable (Refuses budgetBytes data) :=
  inferInstanceAs (Decidable (_ ∨ _))

variable {cache : VectorWindowCache} {key : VectorWindowKey} {data : List F32}

theorem insert_of_refuses (h : Refuses cache.budgetBytes data) : cache.insert key data = cache := if_pos h

/-- The size of a window, as a number. -/
def windowSize (data : List F32) : Nat := (windowBytes data).toNat

/-- What the map holds for a window. -/
def entryOf (window : VectorWindowKey × List F32) : VectorWindowKey × VectorWindowEntry :=
  (window.1, ⟨window.2, windowBytes window.2⟩)

/-- The cache is `windows`, from the least to the most recently used one. -/
structure Represents (cache : VectorWindowCache) (windows : Lru VectorWindowKey (List F32)) : Prop where
  order : cache.order = windows.keys
  entries : cache.entries.Perm (windows.entries.map entryOf)
  used : cache.usedBytes.toNat = Lru.total windowSize windows.entries

theorem map_fst_entryOf (windows : List (VectorWindowKey × List F32)) :
    (windows.map entryOf).map Prod.fst = windows.map Prod.fst := by
  rw [List.map_map]
  rfl

theorem nodup_of_perm {windows : List (VectorWindowKey × List F32)}
    (hnodup : (windows.map Prod.fst).Nodup) (h : cache.entries.Perm (windows.map entryOf)) :
    (cache.entries.map Prod.fst).Nodup := by
  rw [(h.map Prod.fst).nodup_iff, map_fst_entryOf]
  exact hnodup

/-- The map finds the window of a key. -/
theorem lookup?_eq_some {windows : List (VectorWindowKey × List F32)}
    (hnodup : (windows.map Prod.fst).Nodup) (h : cache.entries.Perm (windows.map entryOf))
    (hmem : (key, data) ∈ windows) : cache.lookup? key = some ⟨data, windowBytes data⟩ := by
  apply (find?_key_eq_some (nodup_of_perm hnodup h)).mpr
  exact h.mem_iff.mpr (List.mem_map.mpr ⟨_, hmem, rfl⟩)

/-- Without a key, the map is that of the other windows. -/
theorem perm_without {windows : List (VectorWindowKey × List F32)}
    (h : cache.entries.Perm (windows.map entryOf)) (key : VectorWindowKey) :
    (cache.without key).Perm ((windows.filter fun window => window.1 ≠ key).map entryOf) := by
  refine (h.filter _).trans (List.Perm.of_eq ?_)
  rw [List.filter_map]
  rfl

theorem represents_new (budgetBytes : UInt64) : Represents (new budgetBytes) Lru.empty where
  order := rfl
  entries := List.Perm.refl _
  used := rfl

variable {windows : Lru VectorWindowKey (List F32)}

theorem Represents.lookup? (h : Represents cache windows) (key : VectorWindowKey) :
    cache.lookup? key = (windows.get? key).map fun data => ⟨data, windowBytes data⟩ := by
  cases hget : windows.get? key with
  | some data => exact lookup?_eq_some windows.nodup h.entries (Lru.get?_eq_some.mp hget)
  | none =>
      rw [Option.map_none, Option.eq_none_iff_forall_ne_some]
      intro entry hentry
      have hmem := (find?_key_eq_some (nodup_of_perm windows.nodup h.entries)).mp hentry
      obtain ⟨window, hwindow, heq⟩ := List.mem_map.mp (h.entries.mem_iff.mp hmem)
      have hkey : window.1 = key := congrArg Prod.fst heq
      exact Lru.get?_eq_none.mp hget (List.mem_map.mpr ⟨window, hwindow, hkey⟩)

/-- A get is a use of its key. -/
theorem Represents.get (h : Represents cache windows) (key : VectorWindowKey) :
    Represents (cache.get key).1 (windows.touch key) ∧ (cache.get key).2 = windows.get? key := by
  rw [VectorWindowCache.get, h.lookup? key]
  cases hget : windows.get? key with
  | none =>
      refine ⟨?_, rfl⟩
      rw [Lru.touch, hget]
      exact h
  | some data =>
      refine ⟨⟨?_, ?_, ?_⟩, rfl⟩
      · rw [Lru.keys_touch hget, ← h.order]
        rfl
      · exact h.entries.trans ((Lru.perm_touch windows key).symm.map _)
      · rw [Lru.total_perm (Lru.perm_touch windows key)]
        exact h.used

/-- What a removal leaves. -/
theorem Represents.remove (h : Represents cache windows) (key : VectorWindowKey) :
    (cache.remove key).order = (windows.others key).map Prod.fst ∧
    (cache.remove key).entries.Perm ((windows.others key).map entryOf) ∧
    (cache.remove key).usedBytes.toNat = Lru.total windowSize (windows.others key) ∧
    (cache.remove key).budgetBytes = cache.budgetBytes := by
  rw [VectorWindowCache.remove, h.lookup? key]
  cases hget : windows.get? key with
  | none =>
      rw [Lru.others_eq_self hget]
      exact ⟨h.order, h.entries, h.used, rfl⟩
  | some data =>
      refine ⟨?_, perm_without h.entries key, ?_, rfl⟩
      · rw [Lru.keys_others, ← h.order]
        rfl
      · show (cache.usedBytes.saturatingSub (windowBytes data)).toNat = _
        rw [UInt64.toNat_saturatingSub, h.used, Lru.total_perm (Lru.perm_others hget), Lru.total_cons]
        exact Nat.add_sub_cancel_left _ _

/-- Eviction gives up the windows at the front until the rest fits. -/
theorem evictFrom_spec (cache : VectorWindowCache) (windows : List (VectorWindowKey × List F32))
    (hnodup : (windows.map Prod.fst).Nodup) (hentries : cache.entries.Perm (windows.map entryOf))
    (hused : cache.usedBytes.toNat = Lru.total windowSize windows) :
    (cache.evictFrom (windows.map Prod.fst)).order =
      (Lru.fitFrom windowSize cache.budgetBytes.toNat windows).map Prod.fst ∧
    (cache.evictFrom (windows.map Prod.fst)).entries.Perm
      ((Lru.fitFrom windowSize cache.budgetBytes.toNat windows).map entryOf) ∧
    (cache.evictFrom (windows.map Prod.fst)).usedBytes.toNat =
      Lru.total windowSize (Lru.fitFrom windowSize cache.budgetBytes.toNat windows) ∧
    (cache.evictFrom (windows.map Prod.fst)).budgetBytes = cache.budgetBytes := by
  induction windows generalizing cache with
  | nil => exact ⟨rfl, hentries, hused, rfl⟩
  | cons window windows ih =>
      rw [List.map_cons, VectorWindowCache.evictFrom, Lru.fitFrom]
      by_cases hfits : cache.usedBytes ≤ cache.budgetBytes
      · rw [if_pos hfits, if_pos (by rw [← hused]; exact UInt64.le_iff_toNat_le.mp hfits)]
        exact ⟨rfl, hentries, hused, rfl⟩
      · rw [if_neg hfits, if_neg (by rw [← hused]; exact fun h => hfits (UInt64.le_iff_toNat_le.mpr h))]
        have hfirst : cache.lookup? window.1 = some ⟨window.2, windowBytes window.2⟩ :=
          lookup?_eq_some hnodup hentries List.mem_cons_self
        rw [hfirst]
        obtain ⟨hnot, hnodup'⟩ := List.nodup_cons.mp hnodup
        have hothers : (window :: windows).filter (fun w => w.1 ≠ window.1) = windows := by
          rw [List.filter_cons_of_neg (by simp), List.filter_eq_self]
          intro w hw
          refine decide_eq_true fun heq => hnot ?_
          exact heq ▸ List.mem_map_of_mem hw
        refine ih { cache with
            usedBytes := cache.usedBytes.saturatingSub (windowBytes window.2)
            entries := cache.without window.1 } hnodup' ?_ ?_
        · have hperm := perm_without hentries window.1
          rwa [hothers] at hperm
        · show (cache.usedBytes.saturatingSub (windowBytes window.2)).toNat = _
          rw [UInt64.toNat_saturatingSub, hused, Lru.total_cons]
          exact Nat.add_sub_cancel_left _ _

/-- An insertion that is not refused and does not saturate the count puts its window in. -/
theorem Represents.insert (h : Represents cache windows) (hadmits : ¬ Refuses cache.budgetBytes data)
    (hroom : (cache.remove key).usedBytes.toNat + (windowBytes data).toNat ≤ UInt64.maxNat) :
    Represents (cache.insert key data) (windows.put windowSize cache.budgetBytes.toNat key data) ∧
      (cache.insert key data).budgetBytes = cache.budgetBytes := by
  obtain ⟨horder, hentries, hused, hbudget⟩ := h.remove key
  have hinsert : cache.insert key data =
      ({ cache.remove key with
        usedBytes := (cache.remove key).usedBytes.saturatingAdd (windowBytes data)
        entries := (key, ⟨data, windowBytes data⟩) :: (cache.remove key).entries
        order := (cache.remove key).order ++ [key] } : VectorWindowCache).evictFrom
          ((windows.push key data).entries.map Prod.fst) := by
    refine (if_neg hadmits).trans ?_
    simp only [evictToBudget, horder, Lru.push, List.map_append]
    rfl
  have hspec := evictFrom_spec { cache.remove key with
        usedBytes := (cache.remove key).usedBytes.saturatingAdd (windowBytes data)
        entries := (key, ⟨data, windowBytes data⟩) :: (cache.remove key).entries
        order := (cache.remove key).order ++ [key] } (windows.push key data).entries
    (windows.push key data).nodup ?_ ?_
  · rw [← hinsert] at hspec
    obtain ⟨horder', hentries', hused', hbudget'⟩ := hspec
    simp only [hbudget] at horder' hentries' hused' hbudget'
    exact ⟨⟨horder', hentries', hused'⟩, hbudget'⟩
  · refine (hentries.cons _).trans ?_
    rw [Lru.push, List.map_append]
    exact (List.perm_append_singleton (entryOf (key, data)) _).symm
  · show ((cache.remove key).usedBytes.saturatingAdd (windowBytes data)).toNat = _
    rw [UInt64.toNat_saturatingAdd, Nat.min_eq_left hroom, hused, Lru.push,
      Lru.total_perm List.perm_append_comm]
    exact Nat.add_comm _ _

end VectorWindowCache

/-! ## Histories -/

inductive CacheCall where
  | get (key : VectorWindowKey)
  | insert (key : VectorWindowKey) (data : List F32)
deriving DecidableEq, Repr

namespace CacheCall

def apply (cache : VectorWindowCache) : CacheCall → VectorWindowCache
  | .get key => (cache.get key).1
  | .insert key data => cache.insert key data

/-- The key that a call uses: that of a hit, or of a window it puts in. -/
def uses (cache : VectorWindowCache) : CacheCall → List VectorWindowKey
  | .get key => if (cache.lookup? key).isSome then [key] else []
  | .insert key data =>
      if VectorWindowCache.Refuses cache.budgetBytes data then [] else [key]

/-- The window a call inserts under a key. -/
def inserts (key : VectorWindowKey) : CacheCall → Option (List F32)
  | .get _ => none
  | .insert other data => if other = key then some data else none

/-- An insertion is refused only where its key has no window, and otherwise does not saturate the count
of bytes. -/
def Sound (cache : VectorWindowCache) : CacheCall → Prop
  | .get _ => True
  | .insert key data =>
      if VectorWindowCache.Refuses cache.budgetBytes data then cache.lookup? key = none
      else (cache.remove key).usedBytes.toNat + (windowBytes data).toNat ≤ UInt64.maxNat

instance (cache : VectorWindowCache) (call : CacheCall) : Decidable (call.Sound cache) :=
  match call with
  | .get _ => inferInstanceAs (Decidable True)
  | .insert _ _ => inferInstanceAs (Decidable (ite _ _ _))

end CacheCall

/-- A cache after calls on a new one, and the keys they used. -/
def runCalls (budgetBytes : UInt64) (calls : List CacheCall) :
    VectorWindowCache × List VectorWindowKey :=
  calls.foldl (fun run call => (call.apply run.1, run.2 ++ call.uses run.1)) (.new budgetBytes, [])

/-- The window of the last insertion under a key, refused or not. -/
def lastInsert (key : VectorWindowKey) (calls : List CacheCall) : Option (List F32) :=
  calls.reverse.findSome? (CacheCall.inserts key)

/-- Every call of the history finds the cache as `Sound` asks. -/
def SoundCalls (budgetBytes : UInt64) (calls : List CacheCall) : Prop :=
  ∀ earlier call, earlier ++ [call] <+: calls → call.Sound (runCalls budgetBytes earlier).1

theorem runCalls_append (budgetBytes : UInt64) (calls : List CacheCall) (call : CacheCall) :
    runCalls budgetBytes (calls ++ [call]) =
      (call.apply (runCalls budgetBytes calls).1,
        (runCalls budgetBytes calls).2 ++ call.uses (runCalls budgetBytes calls).1) := by
  rw [runCalls, List.foldl_append]
  rfl

theorem lastInsert_append (key : VectorWindowKey) (calls : List CacheCall) (call : CacheCall) :
    lastInsert key (calls ++ [call]) = (call.inserts key).or (lastInsert key calls) := by
  rw [lastInsert, List.reverse_append, List.reverse_singleton, List.singleton_append,
    List.findSome?_cons]
  cases call.inserts key with
  | none => rfl
  | some data => rfl

theorem soundCalls_nil (budgetBytes : UInt64) : SoundCalls budgetBytes [] := fun earlier call h => by
  simp at h

theorem SoundCalls.append {budgetBytes : UInt64} {calls : List CacheCall} {call : CacheCall}
    (h : SoundCalls budgetBytes calls) (hcall : call.Sound (runCalls budgetBytes calls).1) :
    SoundCalls budgetBytes (calls ++ [call]) := by
  intro earlier next hearlier
  rcases List.prefix_concat_iff.mp hearlier with heq | hearlier
  · obtain ⟨rfl, hcalls⟩ := List.append_inj' heq rfl
    obtain rfl := List.singleton_inj.mp hcalls
    exact hcall
  · exact h earlier next hearlier

/-- The cache after a history is a least recently used one: in the order of the uses, within the budget,
and with the windows last inserted. -/
structure Faithful (budgetBytes : UInt64) (calls : List CacheCall)
    (windows : Lru VectorWindowKey (List F32)) : Prop where
  represents : (runCalls budgetBytes calls).1.Represents windows
  budget : (runCalls budgetBytes calls).1.budgetBytes = budgetBytes
  inOrder : windows.InOrder (runCalls budgetBytes calls).2
  fits : Lru.total VectorWindowCache.windowSize windows.entries ≤ budgetBytes.toNat
  latest : ∀ window ∈ windows.entries, lastInsert window.1 calls = some window.2

section

variable {budgetBytes : UInt64} {calls : List CacheCall} {windows : Lru VectorWindowKey (List F32)}

theorem faithful_nil (budgetBytes : UInt64) : Faithful budgetBytes [] Lru.empty where
  represents := VectorWindowCache.represents_new budgetBytes
  budget := rfl
  inOrder := Lru.inOrder_empty _
  fits := Nat.zero_le _
  latest _ h := nomatch h

theorem Faithful.get (h : Faithful budgetBytes calls windows) (key : VectorWindowKey) :
    Faithful budgetBytes (calls ++ [.get key]) (windows.touch key) where
  represents := by
    rw [runCalls_append]
    exact (h.represents.get key).1
  budget := by
    rw [runCalls_append]
    refine Eq.trans ?_ h.budget
    simp only [CacheCall.apply, VectorWindowCache.get]
    split <;> rfl
  inOrder := by
    rw [runCalls_append]
    simp only [CacheCall.uses, h.represents.lookup? key, Option.isSome_map]
    cases hget : windows.get? key with
    | none =>
        rw [Lru.touch, hget]
        exact (List.append_nil _).symm ▸ h.inOrder
    | some data => exact h.inOrder.touch hget
  fits := (Lru.total_perm (Lru.perm_touch windows key)).trans_le h.fits
  latest window hwindow := by
    rw [lastInsert_append]
    exact h.latest window ((Lru.perm_touch windows key).mem_iff.mp hwindow)

/-- A refused insertion leaves no older window behind: its key had none. -/
theorem Faithful.refused (h : Faithful budgetBytes calls windows) {key : VectorWindowKey}
    {data : List F32} (hrefuses : VectorWindowCache.Refuses budgetBytes data)
    (hnone : (runCalls budgetBytes calls).1.lookup? key = none) :
    Faithful budgetBytes (calls ++ [.insert key data]) windows := by
  have hrefuses' : VectorWindowCache.Refuses (runCalls budgetBytes calls).1.budgetBytes data :=
    h.budget.symm ▸ hrefuses
  have hrun : runCalls budgetBytes (calls ++ [.insert key data]) = runCalls budgetBytes calls := by
    rw [runCalls_append]
    simp only [CacheCall.apply, CacheCall.uses, VectorWindowCache.insert_of_refuses hrefuses',
      if_pos hrefuses', List.append_nil]
  rw [h.represents.lookup? key, Option.map_eq_none_iff] at hnone
  refine ⟨hrun ▸ h.represents, hrun ▸ h.budget, hrun ▸ h.inOrder, h.fits, fun window hwindow => ?_⟩
  rw [lastInsert_append, CacheCall.inserts, if_neg]
  · exact h.latest window hwindow
  · rintro rfl
    exact Lru.get?_eq_none.mp hnone (List.mem_map_of_mem hwindow)

theorem Faithful.insert (h : Faithful budgetBytes calls windows) {key : VectorWindowKey}
    {data : List F32} (hadmits : ¬ VectorWindowCache.Refuses budgetBytes data)
    (hroom : ((runCalls budgetBytes calls).1.remove key).usedBytes.toNat + (windowBytes data).toNat ≤
      UInt64.maxNat) :
    Faithful budgetBytes (calls ++ [.insert key data])
      (windows.put VectorWindowCache.windowSize budgetBytes.toNat key data) := by
  have hadmits' : ¬ VectorWindowCache.Refuses (runCalls budgetBytes calls).1.budgetBytes data :=
    h.budget.symm ▸ hadmits
  obtain ⟨hrepresents, hbudget⟩ := h.represents.insert hadmits' hroom
  rw [h.budget] at hrepresents hbudget
  refine ⟨?_, ?_, ?_, Lru.total_put_le _ _ _ _ _, fun window hwindow => ?_⟩
  · rw [runCalls_append]
    exact hrepresents
  · rw [runCalls_append]
    exact hbudget
  · rw [runCalls_append]
    simp only [CacheCall.uses, if_neg hadmits']
    exact h.inOrder.put _ _ _ _
  · rw [lastInsert_append, CacheCall.inserts]
    rcases Lru.mem_put hwindow with rfl | ⟨hmem, hne⟩
    · rw [if_pos rfl]
      rfl
    · rw [if_neg (Ne.symm hne)]
      exact h.latest window hmem

/-- In a history of sound calls, every call keeps the cache faithful. -/
theorem faithful_of_sound (hsound : SoundCalls budgetBytes calls) :
    ∃ windows, Faithful budgetBytes calls windows := by
  induction calls using List.reverseRecOn with
  | nil => exact ⟨_, faithful_nil budgetBytes⟩
  | append_singleton calls call ih =>
      obtain ⟨windows, h⟩ := ih fun earlier call hearlier =>
        hsound earlier call (hearlier.trans (List.prefix_append _ _))
      have hcall := hsound calls call (List.prefix_refl _)
      cases call with
      | get key => exact ⟨_, h.get key⟩
      | insert key data =>
          simp only [CacheCall.Sound, h.budget] at hcall
          split at hcall
          case isTrue hrefuses => exact ⟨_, h.refused hrefuses hcall⟩
          case isFalse hadmits => exact ⟨_, h.insert hadmits hcall⟩

end

/-- After sound calls: the order has the cached keys once each, in the order of their last uses; the bytes
in use are those of the windows, and within the budget; an insertion gives up keys from the front of the
order; and a get returns the window last inserted or none. -/
theorem windowCache_invariants (budgetBytes : UInt64) (calls : List CacheCall)
    (hsound : SoundCalls budgetBytes calls) :
    let cache := (runCalls budgetBytes calls).1
    cache.order.Nodup ∧ (cache.entries.map Prod.fst).Perm cache.order ∧
    cache.order.Sublist (runCalls budgetBytes calls).2.dedup ∧
    cache.usedBytes.toNat =
      (cache.entries.map fun entry => VectorWindowCache.windowSize entry.2.data).sum ∧
    cache.usedBytes ≤ budgetBytes ∧
    (∀ key data, CacheCall.Sound cache (.insert key data) →
      ¬ VectorWindowCache.Refuses budgetBytes data →
      ∃ evicted, (cache.order.filter fun k => k ≠ key) ++ [key] =
        evicted ++ (cache.insert key data).order) ∧
    ∀ key, (cache.get key).2 = none ∨ (cache.get key).2 = lastInsert key calls := by
  obtain ⟨windows, h⟩ := faithful_of_sound hsound
  intro cache
  have hrepresents : cache.Represents windows := h.represents
  have hbudget : cache.budgetBytes = budgetBytes := h.budget
  refine ⟨hrepresents.order ▸ windows.nodup, ?_, hrepresents.order ▸ h.inOrder, ?_, ?_, ?_, ?_⟩
  · rw [hrepresents.order, Lru.keys, ← VectorWindowCache.map_fst_entryOf]
    exact hrepresents.entries.map _
  · rw [hrepresents.used, (hrepresents.entries.map _).sum_eq, List.map_map]
    rfl
  · rw [UInt64.le_iff_toNat_le, hrepresents.used]
    exact h.fits
  · intro key data hcall hadmits
    rw [← hbudget] at hadmits
    rw [CacheCall.Sound, if_neg hadmits] at hcall
    have hput := (hrepresents.insert hadmits hcall).1.order
    obtain ⟨evicted, hevicted⟩ := Lru.keys_put VectorWindowCache.windowSize cache.budgetBytes.toNat
      windows key data
    exact ⟨evicted, by rw [hput, hrepresents.order, hevicted]⟩
  · intro key
    rw [(hrepresents.get key).2]
    cases hget : windows.get? key with
    | none => exact .inl rfl
    | some data => exact .inr (h.latest _ (Lru.get?_eq_some.mp hget)).symm

/-- Three windows of two values in a budget of four, with a get of the first before the third. -/
def threeWindows : List CacheCall :=
  [] ++ [.insert ⟨10, 2⟩ [⟨1⟩, ⟨2⟩]] ++ [.insert ⟨20, 2⟩ [⟨3⟩, ⟨4⟩]] ++ [.get ⟨10, 2⟩] ++
    [.insert ⟨30, 2⟩ [⟨5⟩, ⟨6⟩]]

theorem windowCache_invariants_three :
    let cache := (runCalls 16 threeWindows).1
    cache.order.Nodup ∧ (cache.entries.map Prod.fst).Perm cache.order ∧
    cache.order.Sublist (runCalls 16 threeWindows).2.dedup ∧
    cache.usedBytes.toNat =
      (cache.entries.map fun entry => VectorWindowCache.windowSize entry.2.data).sum ∧
    cache.usedBytes ≤ 16 ∧
    (∀ key data, CacheCall.Sound cache (.insert key data) →
      ¬ VectorWindowCache.Refuses 16 data →
      ∃ evicted, (cache.order.filter fun k => k ≠ key) ++ [key] =
        evicted ++ (cache.insert key data).order) ∧
    ∀ key, (cache.get key).2 = none ∨ (cache.get key).2 = lastInsert key threeWindows :=
  windowCache_invariants 16 threeWindows
    (((((soundCalls_nil 16).append (by decide)).append (by decide)).append (by decide)).append
      (by decide))

/-- A window of one value, and then one of three under the same key. -/
def oversizedCalls : List CacheCall :=
  [.insert ⟨0, 1⟩ [⟨0x3f800000⟩], .insert ⟨0, 1⟩ [⟨0x40000000⟩, ⟨0x40000000⟩, ⟨0x40000000⟩]]

/-- With a budget of two values the second window is refused, and the first one still returned. -/
theorem windowCache_returns_older :
    ¬ ∀ (budgetBytes : UInt64) (calls : List CacheCall) (key : VectorWindowKey),
      ((runCalls budgetBytes calls).1.get key).2 = none ∨
        ((runCalls budgetBytes calls).1.get key).2 = lastInsert key calls := by
  intro h
  have hget : ((runCalls 8 oversizedCalls).1.get ⟨0, 1⟩).2 = some [⟨0x3f800000⟩] := by decide
  have hlast : lastInsert ⟨0, 1⟩ oversizedCalls =
      some [⟨0x40000000⟩, ⟨0x40000000⟩, ⟨0x40000000⟩] := by decide
  have hboth := h 8 oversizedCalls ⟨0, 1⟩
  rw [hget, hlast] at hboth
  revert hboth
  decide

end ForgeANN
