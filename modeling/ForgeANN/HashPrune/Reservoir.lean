-- SUMMARY: The HashPrune reservoir of one point, and what one `insert` can do to its slots.
import ForgeANN.Common.Float
import Mathlib.Data.List.Perm.Basic
import Mathlib.Data.List.InsertIdx
import Mathlib.Data.List.TakeWhile

/-!
# The HashPrune reservoir

A reservoir keeps at most `lMax` candidate neighbours of one point, sorted by
their LSH hash. The farthest slot is cached so that an offer which is no closer
is turned away without a scan.
-/
namespace ForgeANN

/-- One kept candidate. -/
structure Slot where
  target : UInt32
  hash : UInt16
  dist : BFloat16
deriving DecidableEq, Repr

/-- `Slot::new`: the distance is truncated as it is stored. -/
def Slot.new (target : UInt32) (hash : UInt16) (dist : F32) : Slot :=
  ⟨target, hash, BFloat16.fromF32 dist⟩

/-- The reservoir of one point. `HashPruneReservoir::new` asserts `lMax_pos`. -/
structure HashPruneReservoir where
  lMax : Nat
  lMax_pos : 0 < lMax
  slots : List Slot
  farthestIdx : Nat
  farthestDist : F32

namespace HashPruneReservoir

def new (lMax : Nat) (h : 0 < lMax) : HashPruneReservoir := ⟨lMax, h, [], 0, F32.zero⟩

@[simp] theorem new_lMax (lMax : Nat) (h : 0 < lMax) : (new lMax h).lMax = lMax := rfl
@[simp] theorem new_slots (lMax : Nat) (h : 0 < lMax) : (new lMax h).slots = [] := rfl

def clear (r : HashPruneReservoir) : HashPruneReservoir :=
  { r with slots := [], farthestIdx := 0, farthestDist := F32.zero }

/-! ## Scans -/

/-- The loop shared by `recompute_farthest` and the same-hash scan of `insert`:
walk on from slot `i`, moving to a slot only when it is strictly farther. -/
def farthestFrom (best : Nat) (dist : F32) (i : Nat) : List Slot → Nat × F32
  | [] => (best, dist)
  | s :: rest =>
      if dist.lt s.dist.toF32 then farthestFrom i s.dist.toF32 (i + 1) rest
      else farthestFrom best dist (i + 1) rest

/-- `recompute_farthest`, with the empty case of `recompute_farthest_if_nonempty`. -/
def recomputeFarthest (r : HashPruneReservoir) : HashPruneReservoir :=
  match r.slots with
  | [] => { r with farthestIdx := 0, farthestDist := F32.zero }
  | s :: rest =>
      let far := farthestFrom 0 s.dist.toF32 1 rest
      { r with farthestIdx := far.1, farthestDist := far.2 }

/-- `slice::partition_point`, on slots sorted so that `p` holds of a prefix. -/
def partitionPoint (p : Slot → Bool) (slots : List Slot) : Nat := (slots.takeWhile p).length

def lowerBoundHash (r : HashPruneReservoir) (hash : UInt16) : Nat :=
  partitionPoint (fun s => s.hash < hash) r.slots

def upperBoundHash (r : HashPruneReservoir) (hash : UInt16) : Nat :=
  partitionPoint (fun s => s.hash ≤ hash) r.slots

def targetPosition (r : HashPruneReservoir) (target : UInt32) : Option Nat :=
  r.slots.findIdx? (fun s => s.target == target)

/-- `self.slots[pos].dist.to_f32()`, for a position in range. -/
def distAt (r : HashPruneReservoir) (pos : Nat) : F32 :=
  (r.slots[pos]?.map fun s => s.dist.toF32).getD F32.zero

/-- The farthest slot among those with the given hash, first one first. -/
def farthestSameHash (r : HashPruneReservoir) (hash : UInt16) : Option (Nat × F32) :=
  let hashStart := r.lowerBoundHash hash
  match r.slots.drop hashStart with
  | [] => none
  | s :: rest =>
      if s.hash = hash then
        let hashEnd := r.upperBoundHash hash
        some (farthestFrom hashStart s.dist.toF32 (hashStart + 1)
          (rest.take (hashEnd - (hashStart + 1))))
      else none

/-! ## Insertion -/

def insertSlotSorted (r : HashPruneReservoir) (slot : Slot) : HashPruneReservoir :=
  let insertPos := r.upperBoundHash slot.hash
  let dist := slot.dist.toF32
  let r' := { r with slots := r.slots.insertIdx insertPos slot }
  if r'.slots.length = 1 then { r' with farthestIdx := 0, farthestDist := dist }
  else if dist.ge r.farthestDist then r'.recomputeFarthest
  else if insertPos ≤ r.farthestIdx then { r' with farthestIdx := r.farthestIdx + 1 }
  else r'

def replaceSlotSorted (r : HashPruneReservoir) (pos : Nat) (slot : Slot) : HashPruneReservoir :=
  let r₁ := { r with slots := r.slots.eraseIdx pos }
  let insertPos := r₁.upperBoundHash slot.hash
  { r₁ with slots := r₁.slots.insertIdx insertPos slot }.recomputeFarthest

/-- `HashPruneReservoir::insert`. Offers are compared by their full distance
with the truncated distances of the slots. -/
def insert (r : HashPruneReservoir) (target : UInt32) (hash : UInt16) (dist : F32) :
    HashPruneReservoir :=
  match r.targetPosition target with
  | some pos =>
      if dist.lt (r.distAt pos) then r.replaceSlotSorted pos (Slot.new target hash dist) else r
  | none =>
      if r.slots.length < r.lMax then r.insertSlotSorted (Slot.new target hash dist)
      else
        match r.farthestSameHash hash with
        | some (idx, far) =>
            if dist.lt far then r.replaceSlotSorted idx (Slot.new target hash dist) else r
        | none =>
            if dist.lt r.farthestDist then
              r.replaceSlotSorted r.farthestIdx (Slot.new target hash dist)
            else r

/-- `into_neighbors` and `drain_neighbors`. -/
def neighbors (r : HashPruneReservoir) : List UInt32 := r.slots.map Slot.target

end HashPruneReservoir

/-! ## The scans find what they look for -/

/-- The stored distance of a slot on the number line. -/
def Slot.key (s : Slot) : Int := s.dist.toF32.key

/-- The stored distance of a slot is not a NaN. -/
def Slot.Numeric (s : Slot) : Prop := s.dist.toF32.isNaN = false

namespace HashPruneReservoir

theorem farthestFrom_mem (best : Nat) (dist : F32) (i : Nat) (l : List Slot) :
    farthestFrom best dist i l = (best, dist) ∨
      ∃ j s, l[j]? = some s ∧ farthestFrom best dist i l = (i + j, s.dist.toF32) := by
  induction l generalizing best dist i with
  | nil => exact .inl rfl
  | cons s rest ih =>
      simp only [farthestFrom]
      split
      · right
        rcases ih i s.dist.toF32 (i + 1) with h | ⟨j, x, hx, h⟩
        · exact ⟨0, s, rfl, by simpa using h⟩
        · exact ⟨j + 1, x, hx, by rw [h]; congr 1; omega⟩
      · rcases ih best dist (i + 1) with h | ⟨j, x, hx, h⟩
        · exact .inl h
        · exact .inr ⟨j + 1, x, hx, by rw [h]; congr 1; omega⟩

/-- Over numbers, the scan returns a largest distance. -/
theorem farthestFrom_max (best : Nat) {dist : F32} (i : Nat) {l : List Slot}
    (hd : dist.isNaN = false) (hl : ∀ s ∈ l, s.Numeric) :
    dist.key ≤ (farthestFrom best dist i l).2.key ∧
      ∀ s ∈ l, s.key ≤ (farthestFrom best dist i l).2.key := by
  induction l generalizing best dist i with
  | nil => exact ⟨Int.le_refl _, by simp⟩
  | cons s rest ih =>
      have hs : s.Numeric := hl s List.mem_cons_self
      have hrest : ∀ x ∈ rest, x.Numeric := fun x hx => hl x (List.mem_cons_of_mem _ hx)
      simp only [farthestFrom]
      split <;> rename_i hlt
      · have hkey := (F32.lt_iff.mp hlt).2.2
        have ⟨h₁, h₂⟩ := ih i (i + 1) hs hrest
        refine ⟨by omega, ?_⟩
        simp only [List.mem_cons, forall_eq_or_imp]
        exact ⟨h₁, h₂⟩
      · have hkey : s.key ≤ dist.key := by
          rw [F32.lt_iff] at hlt
          simp only [hd, true_and, not_and, Int.not_lt] at hlt
          exact hlt hs
        have ⟨h₁, h₂⟩ := ih best (i + 1) hd hrest
        refine ⟨h₁, ?_⟩
        simp only [List.mem_cons, forall_eq_or_imp]
        exact ⟨by omega, h₂⟩

theorem insertIdx_partitionPoint (p : Slot → Bool) (l : List Slot) (x : Slot) :
    l.insertIdx (partitionPoint p l) x = l.takeWhile p ++ x :: l.dropWhile p := by
  induction l with
  | nil => rfl
  | cons a l ih =>
      unfold partitionPoint at ih ⊢
      by_cases h : p a <;> simp [h, ih]

/-! ## Well-formed reservoirs -/

def SortedByHash (l : List Slot) : Prop := l.Pairwise fun a b => a.hash ≤ b.hash

/-- In a list sorted so that `p` holds of a prefix, `dropWhile p` leaves no `p`. -/
theorem not_of_mem_dropWhile {l : List Slot} {R : Slot → Slot → Prop} {p : Slot → Bool}
    (hl : l.Pairwise R) (hp : ∀ a b, R a b → p b = true → p a = true) {b : Slot}
    (hb : b ∈ l.dropWhile p) : p b = false := by
  induction l with
  | nil => simp at hb
  | cons a l ih =>
      rw [List.pairwise_cons] at hl
      by_cases ha : p a
      · exact ih hl.2 (by simpa [ha] using hb)
      · simp only [List.dropWhile_cons, ha, Bool.false_eq_true, ↓reduceIte] at hb
        rcases List.mem_cons.mp hb with rfl | hb
        · simpa using ha
        · cases hpb : p b with
          | false => rfl
          | true => exact absurd (hp a b (hl.1 b hb) hpb) ha

/-- Inserting behind the slots of no larger hash keeps the order. -/
theorem sortedByHash_insertIdx {l : List Slot} (h : SortedByHash l) (x : Slot) :
    SortedByHash (l.insertIdx (partitionPoint (fun s => s.hash ≤ x.hash) l) x) := by
  rw [insertIdx_partitionPoint]
  have hsplit : l.takeWhile (fun s => s.hash ≤ x.hash) ++ l.dropWhile (fun s => s.hash ≤ x.hash) = l :=
    List.takeWhile_append_dropWhile
  have hl := h
  rw [SortedByHash, ← hsplit, List.pairwise_append] at hl
  obtain ⟨hpre, hsuf, hcross⟩ := hl
  have hle : ∀ a ∈ l.takeWhile (fun s => s.hash ≤ x.hash), a.hash ≤ x.hash := fun a ha => by
    simpa using List.mem_takeWhile_imp ha
  have hge : ∀ b ∈ l.dropWhile (fun s => s.hash ≤ x.hash), x.hash ≤ b.hash := fun b hb => by
    have := not_of_mem_dropWhile h (p := fun s => s.hash ≤ x.hash)
      (fun a b hab hb => by simpa using UInt16.le_trans hab (by simpa using hb)) hb
    simp only [decide_eq_false_iff_not, UInt16.le_iff_toNat_le] at this ⊢
    omega
  rw [SortedByHash, List.pairwise_append]
  refine ⟨hpre, List.pairwise_cons.mpr ⟨hge, hsuf⟩, ?_⟩
  intro a ha b hb
  rcases List.mem_cons.mp hb with rfl | hb
  · exact hle a ha
  · exact hcross a ha b hb

/-- The slots are sorted, one to a target, and within capacity, and the cache
names a farthest slot. -/
structure Valid (r : HashPruneReservoir) : Prop where
  sorted : SortedByHash r.slots
  nodup : (r.slots.map Slot.target).Nodup
  fits : r.slots.length ≤ r.lMax
  cached : r.slots ≠ [] →
    ∃ s, r.slots[r.farthestIdx]? = some s ∧ r.farthestDist = s.dist.toF32
  farthest : (∀ s ∈ r.slots, s.Numeric) → ∀ s ∈ r.slots, s.key ≤ r.farthestDist.key

theorem new_valid {lMax : Nat} (h : 0 < lMax) : (new lMax h).Valid where
  sorted := .nil
  nodup := .nil
  fits := Nat.zero_le _
  cached := fun hne => absurd rfl hne
  farthest := by simp [new]

@[simp] theorem recomputeFarthest_slots (r : HashPruneReservoir) :
    r.recomputeFarthest.slots = r.slots := by
  unfold recomputeFarthest; split <;> rfl

@[simp] theorem recomputeFarthest_lMax (r : HashPruneReservoir) :
    r.recomputeFarthest.lMax = r.lMax := by
  unfold recomputeFarthest; split <;> rfl

/-- Recomputing the cache is all that sorted slots need. -/
theorem recomputeFarthest_valid {r : HashPruneReservoir} (hs : SortedByHash r.slots)
    (hn : (r.slots.map Slot.target).Nodup) (hf : r.slots.length ≤ r.lMax) :
    r.recomputeFarthest.Valid where
  sorted := by simpa using hs
  nodup := by simpa using hn
  fits := by simpa using hf
  cached := by
    unfold recomputeFarthest
    split
    · rename_i h; intro hne; exact absurd h hne
    · rename_i s rest h
      intro _
      simp only [h]
      rcases farthestFrom_mem 0 s.dist.toF32 1 rest with h' | ⟨j, x, hx, h'⟩
      · exact ⟨s, by simp [h'], by rw [h']⟩
      · exact ⟨x, by simp [h', Nat.add_comm 1 j, hx], by rw [h']⟩
  farthest := by
    unfold recomputeFarthest
    split
    · rename_i h; simp [h]
    · rename_i s rest h
      simp only [h, List.mem_cons, forall_eq_or_imp]
      rintro ⟨hs, hrest⟩
      exact farthestFrom_max 0 1 hs hrest

/-! ## What one insertion can do -/

theorem partitionPoint_le (p : Slot → Bool) (l : List Slot) : partitionPoint p l ≤ l.length :=
  (l.takeWhile_prefix p).length_le

theorem insertSlotSorted_perm (r : HashPruneReservoir) (slot : Slot) :
    (r.insertSlotSorted slot).slots.Perm (slot :: r.slots) := by
  have hperm : (r.slots.insertIdx (r.upperBoundHash slot.hash) slot).Perm (slot :: r.slots) :=
    List.perm_insertIdx _ _ (partitionPoint_le _ _)
  simp only [insertSlotSorted]
  split_ifs <;> simpa using hperm

@[simp] theorem insertSlotSorted_lMax (r : HashPruneReservoir) (slot : Slot) :
    (r.insertSlotSorted slot).lMax = r.lMax := by
  simp only [insertSlotSorted]
  split_ifs <;> simp

/-- A new target goes in below capacity: the cache is recomputed, or shifted
along with the slot it names. -/
theorem insertSlotSorted_valid {r : HashPruneReservoir} (hv : r.Valid) {slot : Slot}
    (hnew : ∀ s ∈ r.slots, s.target ≠ slot.target) (hroom : r.slots.length < r.lMax) :
    (r.insertSlotSorted slot).Valid := by
  have hperm : (r.slots.insertIdx (r.upperBoundHash slot.hash) slot).Perm (slot :: r.slots) :=
    List.perm_insertIdx _ _ (partitionPoint_le _ _)
  have hsort : SortedByHash (r.slots.insertIdx (r.upperBoundHash slot.hash) slot) :=
    sortedByHash_insertIdx hv.sorted slot
  have hnodup : ((r.slots.insertIdx (r.upperBoundHash slot.hash) slot).map Slot.target).Nodup := by
    rw [(hperm.map _).nodup_iff, List.map_cons, List.nodup_cons]
    exact ⟨by simpa using hnew, hv.nodup⟩
  have hlen : (r.slots.insertIdx (r.upperBoundHash slot.hash) slot).length = r.slots.length + 1 :=
    hperm.length_eq
  have hfits : (r.slots.insertIdx (r.upperBoundHash slot.hash) slot).length ≤ r.lMax := by omega
  -- The cached slot stays farthest when the new slot is strictly nearer.
  have hfar : slot.dist.toF32.ge r.farthestDist = false →
      (∀ s ∈ r.slots.insertIdx (r.upperBoundHash slot.hash) slot, s.Numeric) →
      r.slots ≠ [] →
      ∀ s ∈ r.slots.insertIdx (r.upperBoundHash slot.hash) slot, s.key ≤ r.farthestDist.key := by
    intro hge hnum hne s hs
    have hold : ∀ s ∈ r.slots, s.Numeric := fun s hs =>
      hnum s (hperm.mem_iff.mpr (List.mem_cons_of_mem _ hs))
    have hslot : slot.Numeric := hnum slot (hperm.mem_iff.mpr List.mem_cons_self)
    rcases List.mem_cons.mp (hperm.mem_iff.mp hs) with rfl | hs
    · obtain ⟨c, hc, hcd⟩ := hv.cached hne
      have hcn : c.Numeric := hold c (List.mem_of_getElem? hc)
      by_contra hlt
      have : s.dist.toF32.ge r.farthestDist = true :=
        F32.ge_iff.mpr ⟨hslot, by rw [hcd]; exact hcn, by unfold Slot.key at hlt; omega⟩
      rw [hge] at this
      exact Bool.noConfusion this
    · exact hv.farthest hold s hs
  unfold insertSlotSorted
  simp only
  split_ifs with hone hge hpos
  · obtain ⟨x, hx⟩ := List.length_eq_one_iff.mp hone
    have hxs : slot = x := by
      have hmem : slot ∈ r.slots.insertIdx (r.upperBoundHash slot.hash) slot :=
        hperm.mem_iff.mpr List.mem_cons_self
      rwa [hx, List.mem_singleton] at hmem
    refine ⟨hsort, hnodup, hfits, fun _ => ⟨slot, by rw [hx, hxs]; rfl, rfl⟩, ?_⟩
    intro _ s hs
    rw [hx, ← hxs, List.mem_singleton] at hs
    exact hs ▸ Int.le_refl _
  · exact recomputeFarthest_valid hsort hnodup hfits
  all_goals
    have hne : r.slots ≠ [] := by
      rintro h
      exact hone (by rw [hlen, h, List.length_nil])
    obtain ⟨c, hc, hcd⟩ := hv.cached hne
    refine ⟨hsort, hnodup, hfits, fun _ => ⟨c, ?_, hcd⟩, fun hnum =>
      hfar (by simpa using hge) hnum hne⟩
  · rw [List.getElem?_insertIdx_of_gt (Nat.lt_succ_of_le hpos)]; exact hc
  · rw [List.getElem?_insertIdx_of_lt (Nat.lt_of_not_le hpos)]; exact hc

theorem replaceSlotSorted_perm {r : HashPruneReservoir} {pos : Nat} {old : Slot}
    (h : r.slots[pos]? = some old) (slot : Slot) :
    ∃ rest, r.slots.Perm (old :: rest) ∧ (r.replaceSlotSorted pos slot).slots.Perm (slot :: rest) := by
  obtain ⟨hpos, hget⟩ := List.getElem?_eq_some_iff.mp h
  refine ⟨r.slots.eraseIdx pos, ?_, ?_⟩
  · rw [← hget]; exact (List.getElem_cons_eraseIdx_perm hpos).symm
  · simp only [replaceSlotSorted, recomputeFarthest_slots]
    exact List.perm_insertIdx _ _ (partitionPoint_le _ _)

@[simp] theorem replaceSlotSorted_lMax (r : HashPruneReservoir) (pos : Nat) (slot : Slot) :
    (r.replaceSlotSorted pos slot).lMax = r.lMax := by
  simp [replaceSlotSorted]

/-- A slot gives way to one whose target is its own or not yet kept. -/
theorem replaceSlotSorted_valid {r : HashPruneReservoir} (hv : r.Valid) {pos : Nat} {old slot : Slot}
    (h : r.slots[pos]? = some old)
    (hnew : ∀ s ∈ r.slots, s.target = slot.target → s.target = old.target) :
    (r.replaceSlotSorted pos slot).Valid := by
  obtain ⟨rest, hold, hrep⟩ := replaceSlotSorted_perm h slot
  refine recomputeFarthest_valid ?_ ?_ ?_
  · refine sortedByHash_insertIdx (l := r.slots.eraseIdx pos) ?_ slot
    exact hv.sorted.sublist (List.eraseIdx_sublist _ _)
  · simp only [replaceSlotSorted, recomputeFarthest_slots] at hrep
    have hn := hv.nodup
    rw [(hold.map _).nodup_iff, List.map_cons, List.nodup_cons] at hn
    rw [(hrep.map _).nodup_iff, List.map_cons, List.nodup_cons]
    refine ⟨fun hmem => ?_, hn.2⟩
    obtain ⟨s, hs, hst⟩ := List.mem_map.mp hmem
    have : s.target = old.target :=
      hnew s (hold.mem_iff.mpr (List.mem_cons_of_mem _ hs)) hst
    exact hn.1 (this ▸ List.mem_map_of_mem hs)
  · simp only [replaceSlotSorted, recomputeFarthest_slots] at hrep
    rw [hrep.length_eq, List.length_cons, ← List.length_cons (a := old), ← hold.length_eq]
    exact hv.fits

/-- The slot an offer has to beat: its target's own slot, or in a full
reservoir without the target a farthest slot of its hash, or, failing that, a
farthest slot overall. -/
inductive Rival (r : HashPruneReservoir) (target : UInt32) (hash : UInt16) (s : Slot) : Prop
  | known (hs : s ∈ r.slots) (ht : s.target = target)
  | sameHash (hs : s ∈ r.slots) (hnew : ∀ x ∈ r.slots, x.target ≠ target)
      (hfull : r.slots.length = r.lMax) (hh : s.hash = hash)
      (hmax : (∀ x ∈ r.slots, x.Numeric) → ∀ x ∈ r.slots, x.hash = hash → x.key ≤ s.key)
  | farthest (hs : s ∈ r.slots) (hnew : ∀ x ∈ r.slots, x.target ≠ target)
      (hfull : r.slots.length = r.lMax) (hh : ∀ x ∈ r.slots, x.hash ≠ hash)
      (hmax : (∀ x ∈ r.slots, x.Numeric) → ∀ x ∈ r.slots, x.key ≤ s.key)

theorem Rival.mem {r : HashPruneReservoir} {target : UInt32} {hash : UInt16} {s : Slot}
    (h : r.Rival target hash s) : s ∈ r.slots := by
  cases h <;> assumption

/-- The outcomes of an insertion. -/
inductive Inserted (r : HashPruneReservoir) (target : UInt32) (hash : UInt16) (dist : F32)
    (r' : HashPruneReservoir) : Prop
  | kept (s : Slot) (hr : r.Rival target hash s) (hd : dist.lt s.dist.toF32 = false) (he : r' = r)
  | replaced (s : Slot) (rest : List Slot) (hr : r.Rival target hash s)
      (hd : dist.lt s.dist.toF32 = true) (hold : r.slots.Perm (s :: rest))
      (hslots : r'.slots.Perm (Slot.new target hash dist :: rest))
  | added (hnew : ∀ x ∈ r.slots, x.target ≠ target) (hroom : r.slots.length < r.lMax)
      (hslots : r'.slots.Perm (Slot.new target hash dist :: r.slots))

/-- Sorted slots split at a hash into those below, those of it, and those above,
and the two bounds mark the cuts. -/
theorem hash_split {r : HashPruneReservoir} (hv : SortedByHash r.slots) (hash : UInt16) :
    ∃ below same above, r.slots = below ++ (same ++ above) ∧
      (∀ x ∈ below, x.hash ≠ hash) ∧ (∀ x ∈ same, x.hash = hash) ∧ (∀ x ∈ above, x.hash ≠ hash) ∧
      r.lowerBoundHash hash = below.length ∧
      r.upperBoundHash hash = below.length + same.length := by
  let lo : Slot → Bool := fun s => s.hash < hash
  let hi : Slot → Bool := fun s => s.hash ≤ hash
  have hlo : ∀ x ∈ r.slots.takeWhile lo, x.hash < hash := fun x hx => by
    simpa [lo] using List.mem_takeWhile_imp hx
  have hge : ∀ x ∈ r.slots.dropWhile lo, lo x = false := fun x hx =>
    not_of_mem_dropWhile hv (fun a b hab hb => by
      simp only [lo, decide_eq_true_eq, UInt16.lt_iff_toNat_lt, UInt16.le_iff_toNat_le] at *
      omega) hx
  have hsorted : SortedByHash (r.slots.dropWhile lo) := hv.sublist (List.dropWhile_sublist _)
  refine ⟨r.slots.takeWhile lo, (r.slots.dropWhile lo).takeWhile hi,
    (r.slots.dropWhile lo).dropWhile hi, ?_, ?_, ?_, ?_, rfl, ?_⟩
  · rw [List.takeWhile_append_dropWhile, List.takeWhile_append_dropWhile]
  · intro x hx
    exact UInt16.ne_of_lt (hlo x hx)
  · intro x hx
    have h₁ := hge x ((List.takeWhile_prefix hi).subset hx)
    have h₂ := List.mem_takeWhile_imp hx
    simp only [lo, hi, decide_eq_false_iff_not, decide_eq_true_eq, UInt16.lt_iff_toNat_lt,
      UInt16.le_iff_toNat_le] at h₁ h₂
    exact UInt16.toNat_inj.mp (by omega)
  · intro x hx
    have h₁ := not_of_mem_dropWhile hsorted (p := hi) (fun a b hab hb => by
      simp only [hi, decide_eq_true_eq, UInt16.le_iff_toNat_le] at *
      omega) hx
    simp only [hi, decide_eq_false_iff_not] at h₁
    rintro rfl
    exact h₁ (UInt16.le_refl _)
  · have hpre : ∀ x ∈ r.slots.takeWhile lo, hi x = true := fun x hx => by
      simpa [hi] using UInt16.le_of_lt (hlo x hx)
    rw [upperBoundHash, partitionPoint, ← List.length_append,
      ← List.takeWhile_append_of_pos hpre, List.takeWhile_append_dropWhile]

/-- The same-hash scan sees exactly the slots of that hash. -/
theorem farthestSameHash_spec {r : HashPruneReservoir} (hv : r.Valid) (hash : UInt16) :
    match r.farthestSameHash hash with
    | none => ∀ x ∈ r.slots, x.hash ≠ hash
    | some (idx, far) => ∃ s, r.slots[idx]? = some s ∧ far = s.dist.toF32 ∧ s.hash = hash ∧
        ((∀ x ∈ r.slots, x.Numeric) → ∀ x ∈ r.slots, x.hash = hash → x.key ≤ s.key) := by
  obtain ⟨below, same, above, hslots, hb, hs, ha, hlo, hhi⟩ := hash_split hv.sorted hash
  simp only [farthestSameHash, hlo, hhi]
  have hdrop : r.slots.drop below.length = same ++ above := by rw [hslots, List.drop_left]
  rw [hdrop]
  cases same with
  | nil =>
      have hnone : ∀ x ∈ r.slots, x.hash ≠ hash := by
        intro x hx
        rw [hslots, List.nil_append, List.mem_append] at hx
        exact hx.elim (hb x) (ha x)
      cases above with
      | nil => exact hnone
      | cons y rest =>
          simp only [List.nil_append]
          rw [if_neg (ha y List.mem_cons_self)]
          exact hnone
  | cons y rest =>
      have htake : (rest ++ above).take (below.length + (y :: rest).length - (below.length + 1)) =
          rest := by
        rw [show below.length + (y :: rest).length - (below.length + 1) = rest.length by
          rw [List.length_cons]; omega]
        exact List.take_left
      simp only [List.cons_append, htake, if_pos (hs y List.mem_cons_self)]
      have hmax : ∀ s : Slot,
          s.dist.toF32 = (farthestFrom below.length y.dist.toF32 (below.length + 1) rest).2 →
          (∀ x ∈ r.slots, x.Numeric) → ∀ x ∈ r.slots, x.hash = hash → x.key ≤ s.key := by
        intro s hfar hnum x hx hxh
        have hnum' : ∀ x ∈ y :: rest, x.Numeric := fun x hx => hnum x (by
          rw [hslots]; exact List.mem_append_right _ (List.mem_append_left _ hx))
        have hle := farthestFrom_max below.length (below.length + 1)
          (hnum' y List.mem_cons_self) fun x hx => hnum' x (List.mem_cons_of_mem _ hx)
        rw [← hfar] at hle
        rw [hslots, List.mem_append, List.mem_append] at hx
        rcases hx with hx | hx | hx
        · exact absurd hxh (hb x hx)
        · rcases List.mem_cons.mp hx with rfl | hx
          · exact hle.1
          · exact hle.2 x hx
        · exact absurd hxh (ha x hx)
      rcases farthestFrom_mem below.length y.dist.toF32 (below.length + 1) rest with h | ⟨j, s, hj, h⟩
      · refine ⟨y, ?_, by rw [h], hs y List.mem_cons_self, hmax y (by rw [h])⟩
        rw [h, hslots, List.getElem?_append_right (Nat.le_refl _)]
        simp
      · refine ⟨s, ?_, by rw [h], hs s (List.mem_cons_of_mem _ (List.mem_of_getElem? hj)),
          hmax s (by rw [h])⟩
        have hjlt : j < rest.length := (List.getElem?_eq_some_iff.mp hj).1
        rw [h, hslots, List.getElem?_append_right (by omega),
          show below.length + 1 + j - below.length = j + 1 by omega, List.cons_append,
          List.getElem?_cons_succ, List.getElem?_append_left hjlt]
        exact hj

theorem targetPosition_none {r : HashPruneReservoir} {target : UInt32}
    (h : r.targetPosition target = none) : ∀ x ∈ r.slots, x.target ≠ target := by
  simpa [targetPosition, List.findIdx?_eq_none_iff] using h

theorem targetPosition_some {r : HashPruneReservoir} {target : UInt32} {pos : Nat}
    (h : r.targetPosition target = some pos) :
    ∃ s, r.slots[pos]? = some s ∧ s.target = target := by
  obtain ⟨hlt, hp, -⟩ := List.findIdx?_eq_some_iff_getElem.mp h
  exact ⟨r.slots[pos], List.getElem?_eq_getElem hlt, by simpa using hp⟩

/-- A full reservoir that replaces the slot at `pos` only for a nearer offer. -/
private theorem inserted_of_rival {r : HashPruneReservoir} {target : UInt32}
    {hash : UInt16} {dist far : F32} {pos : Nat} {s : Slot} (hr : r.Rival target hash s)
    (hget : r.slots[pos]? = some s) (hfar : far = s.dist.toF32) :
    r.Inserted target hash dist
      (if dist.lt far then r.replaceSlotSorted pos (Slot.new target hash dist) else r) := by
  subst hfar
  cases hd : dist.lt s.dist.toF32 with
  | true =>
      obtain ⟨rest, hold, hnew⟩ := replaceSlotSorted_perm hget (Slot.new target hash dist)
      exact .replaced s rest hr hd hold (by simpa using hnew)
  | false => exact .kept s hr hd (by simp)

private theorem valid_of_rival {r : HashPruneReservoir} (hv : r.Valid) {target : UInt32}
    {hash : UInt16} {dist far : F32} {pos : Nat} {s : Slot} (hr : r.Rival target hash s)
    (hget : r.slots[pos]? = some s) :
    (if dist.lt far then r.replaceSlotSorted pos (Slot.new target hash dist) else r).Valid := by
  split
  · refine replaceSlotSorted_valid hv hget fun x hx ht => ?_
    cases hr with
    | known hs hst => exact ht.trans hst.symm
    | sameHash _ hnew => exact absurd ht (hnew x hx)
    | farthest _ hnew => exact absurd ht (hnew x hx)
  · exact hv

/-- Every insertion has one of the three outcomes, and keeps the reservoir well formed. -/
theorem insert_spec {r : HashPruneReservoir} (hv : r.Valid) (target : UInt32) (hash : UInt16)
    (dist : F32) :
    r.Inserted target hash dist (r.insert target hash dist) ∧
      (r.insert target hash dist).Valid := by
  unfold insert
  cases hpos : r.targetPosition target with
  | some pos =>
      obtain ⟨s, hget, hst⟩ := targetPosition_some hpos
      have hr : r.Rival target hash s := .known (List.mem_of_getElem? hget) hst
      have hdist : r.distAt pos = s.dist.toF32 := by simp [distAt, hget]
      exact ⟨inserted_of_rival hr hget hdist, valid_of_rival hv hr hget⟩
  | none =>
      have hnew := targetPosition_none hpos
      simp only
      split
      · rename_i hroom
        exact ⟨.added hnew hroom (insertSlotSorted_perm _ _),
          insertSlotSorted_valid hv (by simpa [Slot.new] using hnew) hroom⟩
      · rename_i hroom
        have hfull : r.slots.length = r.lMax := by have := hv.fits; omega
        have hsame := farthestSameHash_spec hv hash
        cases hfs : r.farthestSameHash hash with
        | some p =>
            rw [hfs] at hsame
            obtain ⟨s, hget, hfar, hh, hmax⟩ := hsame
            have hr : r.Rival target hash s :=
              .sameHash (List.mem_of_getElem? hget) hnew hfull hh hmax
            exact ⟨inserted_of_rival hr hget hfar, valid_of_rival hv hr hget⟩
        | none =>
            rw [hfs] at hsame
            have hne : r.slots ≠ [] := by
              intro h
              have := r.lMax_pos
              rw [h, List.length_nil] at hfull
              omega
            obtain ⟨s, hget, hfar⟩ := hv.cached hne
            have hr : r.Rival target hash s :=
              .farthest (List.mem_of_getElem? hget) hnew hfull hsame
                (fun hnum x hx => by unfold Slot.key; rw [← hfar]; exact hv.farthest hnum x hx)
            exact ⟨inserted_of_rival hr hget hfar, valid_of_rival hv hr hget⟩

theorem insert_inserted {r : HashPruneReservoir} (hv : r.Valid) (target : UInt32) (hash : UInt16)
    (dist : F32) : r.Inserted target hash dist (r.insert target hash dist) :=
  (insert_spec hv target hash dist).1

theorem insert_valid {r : HashPruneReservoir} (hv : r.Valid) (target : UInt32) (hash : UInt16)
    (dist : F32) : (r.insert target hash dist).Valid :=
  (insert_spec hv target hash dist).2

@[simp] theorem insert_lMax (r : HashPruneReservoir) (target : UInt32) (hash : UInt16)
    (dist : F32) : (r.insert target hash dist).lMax = r.lMax := by
  unfold insert
  split
  · split <;> simp
  · split
    · simp
    · split <;> split <;> simp

end HashPruneReservoir
end ForgeANN
