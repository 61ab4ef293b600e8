-- SUMMARY: The cache of vector windows: least recently used first out, within a budget of bytes.
import ForgeANN.Common.Float
import ForgeANN.Lib.Saturating

/-!
# The window cache

Windows that were read are kept under their first point and their number of
rows. A window that is asked for again goes to the end of the order, and the
cache gives up windows from the front of it until they fit the budget.
-/
namespace ForgeANN

structure VectorWindowKey where
  startPid : UInt32
  rowCount : UInt32
deriving DecidableEq, Repr

structure VectorWindowEntry where
  data : List F32
  bytes : UInt64
deriving DecidableEq, Repr

/-- `data.len().saturating_mul(size_of::<f32>())`. -/
def windowBytes (data : List F32) : UInt64 := .ofNat (min (data.length * 4) UInt64.maxNat)

/-- `entries` is a map: `insert` has taken an older entry of the key out of it. -/
structure VectorWindowCache where
  budgetBytes : UInt64
  usedBytes : UInt64
  entries : List (VectorWindowKey × VectorWindowEntry)
  order : List VectorWindowKey
deriving DecidableEq, Repr

namespace VectorWindowCache

def new (budgetBytes : UInt64) : VectorWindowCache where
  budgetBytes
  usedBytes := 0
  entries := []
  order := []

variable (cache : VectorWindowCache)

def lookup? (key : VectorWindowKey) : Option VectorWindowEntry :=
  (cache.entries.find? fun entry => entry.1 = key).map Prod.snd

/-- The entries without that of a key. -/
def without (key : VectorWindowKey) : List (VectorWindowKey × VectorWindowEntry) :=
  cache.entries.filter fun entry => entry.1 ≠ key

def get (key : VectorWindowKey) : VectorWindowCache × Option (List F32) :=
  match cache.lookup? key with
  | some entry =>
      ({ cache with order := (cache.order.filter fun candidate => candidate ≠ key) ++ [key] },
        some entry.data)
  | none => (cache, none)

/-- The loop of `evict_to_budget` over what is left of the order. -/
def evictFrom (cache : VectorWindowCache) : List VectorWindowKey → VectorWindowCache
  | [] => { cache with order := [] }
  | victim :: order =>
      if cache.usedBytes ≤ cache.budgetBytes then { cache with order := victim :: order }
      else
        match cache.lookup? victim with
        | some entry =>
            evictFrom { cache with
              usedBytes := cache.usedBytes.saturatingSub entry.bytes
              entries := cache.without victim } order
        | none => evictFrom cache order

def evictToBudget : VectorWindowCache := cache.evictFrom cache.order

/-- An entry of the same key goes first. -/
def remove (key : VectorWindowKey) : VectorWindowCache :=
  match cache.lookup? key with
  | some previous =>
      { cache with
        usedBytes := cache.usedBytes.saturatingSub previous.bytes
        entries := cache.without key
        order := cache.order.filter fun candidate => candidate ≠ key }
  | none => cache

def insert (key : VectorWindowKey) (data : List F32) : VectorWindowCache :=
  let bytes := windowBytes data
  if bytes = 0 ∨ cache.budgetBytes < bytes then cache
  else
    let rest := cache.remove key
    { rest with
      usedBytes := rest.usedBytes.saturatingAdd bytes
      entries := (key, ⟨data, bytes⟩) :: rest.entries
      order := rest.order ++ [key] }.evictToBudget

/-! ## What the windows hold -/

/-- Every window is as `P` says of its key. -/
def Holds (P : VectorWindowKey → List F32 → Prop) (cache : VectorWindowCache) : Prop :=
  ∀ entry ∈ cache.entries, P entry.1 entry.2.data

variable {P : VectorWindowKey → List F32 → Prop} {cache} {key : VectorWindowKey}

theorem holds_new (budgetBytes : UInt64) : Holds P (new budgetBytes) := fun _ h => nomatch h

theorem Holds.of_subset {cache' : VectorWindowCache} (h : Holds P cache)
    (hsub : ∀ entry ∈ cache'.entries, entry ∈ cache.entries) : Holds P cache' :=
  fun entry hentry => h entry (hsub entry hentry)

theorem mem_of_mem_without {entry : VectorWindowKey × VectorWindowEntry}
    (h : entry ∈ cache.without key) : entry ∈ cache.entries :=
  (List.mem_filter.mp h).1

theorem Holds.get (h : Holds P cache) (key : VectorWindowKey) :
    Holds P (cache.get key).1 ∧ ∀ data, (cache.get key).2 = some data → P key data := by
  rw [VectorWindowCache.get]
  cases hentry : cache.lookup? key with
  | none => exact ⟨h, fun data hdata => nomatch hdata⟩
  | some entry =>
      refine ⟨h, fun data hdata => ?_⟩
      cases hdata
      obtain ⟨found, hfind, rfl⟩ := Option.map_eq_some_iff.mp hentry
      have hkey : found.1 = key := by simpa using List.find?_some hfind
      exact hkey ▸ h found (List.mem_of_find?_eq_some hfind)

theorem Holds.evictFrom (h : Holds P cache) (order : List VectorWindowKey) :
    Holds P (cache.evictFrom order) := by
  induction order generalizing cache with
  | nil => exact h
  | cons victim order ih =>
      rw [VectorWindowCache.evictFrom]
      split_ifs
      · exact h
      · split
        · exact ih (h.of_subset fun entry hentry => mem_of_mem_without hentry)
        · exact ih h

theorem Holds.remove (h : Holds P cache) (key : VectorWindowKey) : Holds P (cache.remove key) := by
  rw [VectorWindowCache.remove]
  split
  · exact h.of_subset fun entry hentry => mem_of_mem_without hentry
  · exact h

theorem Holds.insert (h : Holds P cache) {data : List F32} (hdata : P key data) :
    Holds P (cache.insert key data) := by
  simp only [VectorWindowCache.insert]
  split_ifs
  · exact h
  · apply Holds.evictFrom
    intro entry hentry
    rcases List.mem_cons.mp hentry with rfl | hentry
    · exact hdata
    · exact h.remove key entry hentry

end VectorWindowCache

end ForgeANN
