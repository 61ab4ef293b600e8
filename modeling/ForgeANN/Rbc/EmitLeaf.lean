-- SUMMARY: Emitting a leaf, split until it fits; every point comes out, in leaves that fit.
import ForgeANN.Rbc.Splits

/-!
# Emitting leaves

A leaf that fits is handed to the emitter; a larger one is split, and its parts
are emitted in turn. The parts are smaller than the leaf, so the recursion ends.
-/
namespace ForgeANN

open Lib

/-- Why a node became a leaf. -/
inductive LeafReason where
  | naturalSize
  | maxDepth
  | shrinkRatio
  | smallDeep
  | minRecurse
  | partitionFallback
deriving DecidableEq, Repr

def LeafReason.tag : LeafReason → UInt64
  | .naturalSize => 0
  | .maxDepth => 1
  | .shrinkRatio => 2
  | .smallDeep => 3
  | .minRecurse => 4
  | .partitionFallback => 5

/-- `u64::rotate_left`, for less than a whole turn. -/
def rotateLeft (value amount : UInt64) : UInt64 :=
  value <<< amount ||| value >>> (64 - amount)

def forcedLeafSplitSeed (leaf : List UInt32) (depth : Nat) (reason : LeafReason) : UInt64 :=
  let first := (leaf.head?.getD 0).toUInt64
  let last := (leaf.getLast?.getD 0).toUInt64
  UInt64.ofNat depth * 0x9e3779b97f4a7c15 ^^^ UInt64.ofNat leaf.length * 0xbf58476d1ce4e5b9 ^^^
    rotateLeft first 17 ^^^ rotateLeft last 41 ^^^ reason.tag

/-- An emitter's answer to a leaf, after those it has had. -/
abbrev LeafEmitter := List (List UInt32) → List UInt32 → AnnResult Unit

/-- The leaves emitted by the end of a call, and its result; nothing if the fuel has run out. -/
abbrev EmittedLeaves := Option (List (List UInt32) × AnnResult Unit)

/-- The loop over the parts of a split, left at the first error. -/
def emitSplitLeaves (emit : List UInt32 → List (List UInt32) → EmittedLeaves) :
    List (List UInt32) → List (List UInt32) → EmittedLeaves
  | [], emitted => some (emitted, .ok ())
  | part :: parts, emitted =>
      match emit part emitted with
      | some (emitted, .ok ()) => emitSplitLeaves emit parts emitted
      | other => other

def forcedLeafHardCap (maxLeafSize : Nat) : Nat := min FORCED_LEAF_HARD_CAP (max maxLeafSize 1)

def emitLeafWithSafety (ctx : ForcedSplitContext) (emitter : LeafEmitter) (depth : Nat)
    (reason : LeafReason) (maxLeafSize : Nat) :
    (fuel : Nat) → List UInt32 → List (List UInt32) → EmittedLeaves
  | 0, _, _ => none
  | fuel + 1, leaf, emitted =>
      if leaf = [] then some (emitted, .ok ())
      else if forcedLeafHardCap maxLeafSize < leaf.length then
        match forcedSplitOversizedLeaf ctx leaf depth (forcedLeafHardCap maxLeafSize)
            (forcedLeafSplitSeed leaf depth reason) with
        | .error e => some (emitted, .error e)
        | .ok splitLeaves =>
            emitSplitLeaves (emitLeafWithSafety ctx emitter depth reason maxLeafSize fuel)
              splitLeaves emitted
      else some (emitted ++ [leaf], emitter emitted leaf)

/-! ## What comes out -/

/-- `emission` adds leaves within the cap to `emitted`, of points of `points` only, and unless it
    fails of all of them. -/
def Emits (cap : Nat) (points : List UInt32) (emitted : List (List UInt32)) (emission : EmittedLeaves) :
    Prop :=
  ∃ leaves result, emission = some (emitted ++ leaves, result) ∧
    (∀ leaf ∈ leaves, leaf ≠ [] ∧ leaf.length ≤ cap) ∧
    (∀ id ∈ leaves.flatten, id ∈ points) ∧
    (result = .ok () → ∀ id ∈ points, id ∈ leaves.flatten)

theorem forcedLeafHardCap_pos (maxLeafSize : Nat) : 0 < forcedLeafHardCap maxLeafSize := by
  unfold forcedLeafHardCap FORCED_LEAF_HARD_CAP
  omega

theorem Emits.nothing (cap : Nat) (emitted : List (List UInt32)) (result : AnnResult Unit)
    {points : List UInt32} (h : result = .ok () → points = []) :
    Emits cap points emitted (some (emitted, result)) := by
  refine ⟨[], result, ?_, by simp, by simp, fun hok => ?_⟩
  · rw [List.append_nil]
  · rw [h hok]
    simp

theorem Emits.one {cap : Nat} {leaf : List UInt32} (hne : leaf ≠ []) (hle : leaf.length ≤ cap)
    (emitted : List (List UInt32)) (result : AnnResult Unit) :
    Emits cap leaf emitted (some (emitted ++ [leaf], result)) := by
  refine ⟨[leaf], result, rfl, ?_, by simp, by simp⟩
  intro leaf' hleaf
  rw [List.mem_singleton.mp hleaf]
  exact ⟨hne, hle⟩

theorem emitSplitLeaves_emits {cap : Nat} {emit : List UInt32 → List (List UInt32) → EmittedLeaves}
    {parts : List (List UInt32)}
    (h : ∀ part ∈ parts, ∀ emitted, Emits cap part emitted (emit part emitted))
    (emitted : List (List UInt32)) :
    Emits cap parts.flatten emitted (emitSplitLeaves emit parts emitted) := by
  induction parts generalizing emitted with
  | nil => exact .nothing cap emitted _ fun _ => rfl
  | cons part parts ih =>
      obtain ⟨leaves, result, hemit, hfits, honly, hall⟩ := h part List.mem_cons_self emitted
      rw [emitSplitLeaves, hemit]
      cases result with
      | error e =>
          refine ⟨leaves, .error e, rfl, hfits, fun id hid => ?_, fun hok => by cases hok⟩
          exact List.mem_append_left _ (honly id hid)
      | ok u =>
          obtain ⟨rest, result, hrest, hfits', honly', hall'⟩ :=
            ih (fun part hpart => h part (List.mem_cons_of_mem _ hpart)) (emitted ++ leaves)
          refine ⟨leaves ++ rest, result, ?_, ?_, fun id hid => ?_, fun hok id hid => ?_⟩
          · rw [← List.append_assoc]
            exact hrest
          · exact List.forall_mem_append.mpr ⟨hfits, hfits'⟩
          · rw [List.flatten_append] at hid
            rcases List.mem_append.mp hid with hid | hid
            · exact List.mem_append_left _ (honly id hid)
            · exact List.mem_append_right _ (honly' id hid)
          · rw [List.flatten_append]
            rcases List.mem_append.mp hid with hid | hid
            · exact List.mem_append_left _ (hall rfl id hid)
            · exact List.mem_append_right _ (hall' hok id hid)

section

variable (ctx : ForcedSplitContext) (emitter : LeafEmitter) (depth : Nat) (reason : LeafReason)
  (maxLeafSize : Nat)

/-- By induction on the fuel, which the length of the leaf bounds: the parts of a split are
    shorter. -/
theorem emitLeafWithSafety_emits {fuel : Nat} {leaf : List UInt32} (hfuel : leaf.length < fuel)
    (emitted : List (List UInt32)) :
    Emits (forcedLeafHardCap maxLeafSize) leaf emitted
      (emitLeafWithSafety ctx emitter depth reason maxLeafSize fuel leaf emitted) := by
  induction fuel generalizing leaf emitted with
  | zero => exact absurd hfuel (Nat.not_lt_zero _)
  | succ fuel ih =>
      rw [emitLeafWithSafety]
      split_ifs with hnil hcap
      · exact .nothing _ emitted _ fun _ => hnil
      · cases hsplit : forcedSplitOversizedLeaf ctx leaf depth (forcedLeafHardCap maxLeafSize)
          (forcedLeafSplitSeed leaf depth reason) with
        | error e => exact .nothing _ emitted _ fun hok => by cases hok
        | ok splitLeaves =>
            have hsplits := forcedSplitOversizedLeaf_splits (forcedLeafHardCap_pos maxLeafSize) hcap
              hsplit
            obtain ⟨leaves, result, hemit, hfits, honly, hall⟩ := emitSplitLeaves_emits
              (fun part hpart emitted =>
                ih (Nat.lt_of_lt_of_le (hsplits.shorter part hpart) (Nat.le_of_lt_succ hfuel)) emitted)
              emitted
            exact ⟨leaves, result, hemit, hfits, fun id hid => (hsplits.covers id).mpr (honly id hid),
              fun hok id hid => hall hok id ((hsplits.covers id).mp hid)⟩
      · exact .one hnil (Nat.le_of_not_lt hcap) emitted _

variable {ctx emitter}

theorem emitSplitLeaves_ok {emit : List UInt32 → List (List UInt32) → EmittedLeaves}
    {parts : List (List UInt32)}
    (h : ∀ part ∈ parts, ∀ emitted, ∃ emitted', emit part emitted = some (emitted', .ok ()))
    (emitted : List (List UInt32)) :
    ∃ emitted', emitSplitLeaves emit parts emitted = some (emitted', .ok ()) := by
  induction parts generalizing emitted with
  | nil => exact ⟨emitted, rfl⟩
  | cons part parts ih =>
      obtain ⟨emitted', hemit⟩ := h part List.mem_cons_self emitted
      rw [emitSplitLeaves, hemit]
      exact ih (fun part hpart => h part (List.mem_cons_of_mem _ hpart)) emitted'

/-- Only a distance, an assignment or the emitter can fail. -/
theorem emitLeafWithSafety_ok (hctx : ctx.Succeeds) (hemitter : ∀ emitted leaf, emitter emitted leaf = .ok ())
    {fuel : Nat} {leaf : List UInt32} (hfuel : leaf.length < fuel) (emitted : List (List UInt32)) :
    ∃ emitted', emitLeafWithSafety ctx emitter depth reason maxLeafSize fuel leaf emitted =
      some (emitted', .ok ()) := by
  induction fuel generalizing leaf emitted with
  | zero => exact absurd hfuel (Nat.not_lt_zero _)
  | succ fuel ih =>
      rw [emitLeafWithSafety]
      split_ifs with hnil hcap
      · exact ⟨emitted, rfl⟩
      · obtain ⟨splitLeaves, hsplit⟩ := forcedSplitOversizedLeaf_ok hctx leaf depth
          (forcedLeafHardCap maxLeafSize) (forcedLeafSplitSeed leaf depth reason)
        have hsplits := forcedSplitOversizedLeaf_splits (forcedLeafHardCap_pos maxLeafSize) hcap hsplit
        rw [hsplit]
        apply emitSplitLeaves_ok
        intro part hpart emitted
        exact ih (Nat.lt_of_lt_of_le (hsplits.shorter part hpart) (Nat.le_of_lt_succ hfuel)) emitted
      · exact ⟨_, by rw [hemitter]⟩

variable (ctx emitter)

/-- An oversized leaf is split until its parts fit, without losing points: whatever the assignments
    come to, the recursion ends, and every leaf it emits fits. Unless it was stopped by an error,
    which only a distance, an assignment or the emitter can bring about, the leaves emitted have
    the points of the input. -/
theorem emitLeafWithSafety_covers (leaf : List UInt32) :
    ∃ leaves result,
      emitLeafWithSafety ctx emitter depth reason maxLeafSize (leaf.length + 1) leaf [] =
        some (leaves, result) ∧
      (∀ part ∈ leaves, part ≠ [] ∧ part.length ≤ min FORCED_LEAF_HARD_CAP (max maxLeafSize 1)) ∧
      (∀ id ∈ leaves.flatten, id ∈ leaf) ∧
      (result = .ok () → ∀ id, id ∈ leaves.flatten ↔ id ∈ leaf) ∧
      (ctx.Succeeds → (∀ emitted part, emitter emitted part = .ok ()) → result = .ok ()) := by
  obtain ⟨leaves, result, hemit, hfits, honly, hall⟩ := emitLeafWithSafety_emits ctx emitter depth
    reason maxLeafSize (Nat.lt_succ_self leaf.length) []
  refine ⟨leaves, result, hemit, hfits, honly, fun hok id => ⟨honly id, hall hok id⟩, ?_⟩
  intro hctx hemitter
  obtain ⟨emitted, hok⟩ := emitLeafWithSafety_ok depth reason maxLeafSize hctx hemitter
    (Nat.lt_succ_self leaf.length) []
  rw [hok] at hemit
  cases hemit
  rfl

end

end ForgeANN
