-- SUMMARY: The record a spine overlay row keeps of the votes for one destination, and what its counters count.
import ForgeANN.Common.Float
import ForgeANN.Lib.Firsts
import Mathlib.Algebra.GroupWithZero.Action.Defs
import Mathlib.Algebra.Order.Ring.Nat
import Mathlib.Data.Nat.Bitwise

/-!
# Votes for a destination

The families that have voted are kept as the bits of one word, at hashed places.
Only the first direct vote of a bit is counted and weighed, so the support is the
number of bits, and the rank mass is what the first vote of each bit weighs.
-/
namespace ForgeANN

open Lib

structure RuntimeOverlayUpdate where
  dst : UInt32
  dist2 : F32
  family : UInt32
  localRank : UInt8
  direct : Bool
  reciprocal : Bool
deriving DecidableEq, Repr

structure RuntimeOverlayCandidate where
  dst : UInt32
  dist2 : F32
  familySupport : Nat
  reciprocalSupport : Nat
  rankMass : Nat
  bestRank : UInt8
  familyBits : UInt64
  reciprocalBits : UInt64
deriving DecidableEq, Repr

/-! ## Families -/

/-- The hash of a family, whose low six bits are the place of its bit. -/
def familyHash (family : UInt32) : UInt32 :=
  let mixed := family * 0x9E3779B1
  (mixed <<< 13 ||| mixed >>> 19) * 0x85EBCA6B

def familyPlace (family : UInt32) : Nat := (familyHash family &&& 63).toNat

def familyBit (family : UInt32) : UInt64 := 1 <<< (familyHash family &&& 63).toUInt64

theorem familyPlace_lt (family : UInt32) : familyPlace family < 64 := by
  rw [familyPlace, UInt32.toNat_and]
  exact Nat.and_lt_two_pow (n := 6) _ (by decide)

theorem familyBit_toNat (family : UInt32) : (familyBit family).toNat = 2 ^ familyPlace family := by
  have hlt := familyPlace_lt family
  rw [familyBit, UInt64.toNat_shiftLeft, UInt32.toNat_toUInt64]
  change 1 <<< (familyPlace family % 64) % 2 ^ 64 = _
  rw [Nat.mod_eq_of_lt hlt, Nat.one_shiftLeft, Nat.mod_eq_of_lt (Nat.pow_lt_pow_right (by omega) hlt)]

theorem testBit_or_familyBit (bits : UInt64) (family : UInt32) (place : Nat) :
    (bits ||| familyBit family).toNat.testBit place =
      (bits.toNat.testBit place || decide (familyPlace family = place)) := by
  rw [UInt64.toNat_or, Nat.testBit_or, familyBit_toNat, Nat.testBit_two_pow]

theorem and_familyBit_eq_zero (bits : UInt64) (family : UInt32) :
    bits &&& familyBit family = 0 ↔ bits.toNat.testBit (familyPlace family) = false := by
  rw [← UInt64.toNat_inj, UInt64.toNat_and, familyBit_toNat, Nat.and_two_pow]
  cases bits.toNat.testBit (familyPlace family) <;> simp

/-! ## The record -/

def rankWeight (rank : UInt8) : Nat :=
  if rank = 1 then 6 else if rank = 2 then 3 else if rank = 3 then 2 else 1

theorem rankWeight_le (rank : UInt8) : rankWeight rank ≤ 6 := by
  unfold rankWeight
  split_ifs <;> omega

namespace RuntimeOverlayUpdate

def place (update : RuntimeOverlayUpdate) : Nat := familyPlace update.family

def weight (update : RuntimeOverlayUpdate) : Nat := rankWeight (max update.localRank 1)

end RuntimeOverlayUpdate

namespace RuntimeOverlayCandidate

/-- `RuntimeOverlayCandidate::empty`, with a destination. -/
def emptyFor (dst : UInt32) : RuntimeOverlayCandidate where
  dst := dst
  dist2 := .infinity
  familySupport := 0
  reciprocalSupport := 0
  rankMass := 0
  bestRank := 255
  familyBits := 0
  reciprocalBits := 0

/-- A family's first direct vote is charged. -/
def applyDirect (candidate : RuntimeOverlayCandidate) (update : RuntimeOverlayUpdate) :
    RuntimeOverlayCandidate :=
  if update.direct = true ∧ candidate.familyBits &&& familyBit update.family = 0 then
    { candidate with
      familyBits := candidate.familyBits ||| familyBit update.family
      familySupport := min (candidate.familySupport + 1) (2 ^ 16 - 1)
      rankMass := min (candidate.rankMass + update.weight) (2 ^ 32 - 1)
      bestRank := if max update.localRank 1 < candidate.bestRank then max update.localRank 1
        else candidate.bestRank }
  else candidate

def applyReciprocal (candidate : RuntimeOverlayCandidate) (update : RuntimeOverlayUpdate) :
    RuntimeOverlayCandidate :=
  if update.reciprocal = true ∧ candidate.reciprocalBits &&& familyBit update.family = 0 then
    { candidate with
      reciprocalBits := candidate.reciprocalBits ||| familyBit update.family
      reciprocalSupport := min (candidate.reciprocalSupport + 1) (2 ^ 16 - 1) }
  else candidate

def apply (candidate : RuntimeOverlayCandidate) (update : RuntimeOverlayUpdate) :
    RuntimeOverlayCandidate :=
  ({ candidate with dist2 := candidate.dist2.min update.dist2 }.applyDirect update).applyReciprocal
    update

def new (update : RuntimeOverlayUpdate) : RuntimeOverlayCandidate :=
  (emptyFor update.dst).apply update

/-- The record of all votes for a destination. -/
def recorded (dst : UInt32) (votes : List RuntimeOverlayUpdate) : RuntimeOverlayCandidate :=
  (votes.filter fun vote => vote.dst = dst).foldl apply (emptyFor dst)

end RuntimeOverlayCandidate

/-- The direct votes for a destination. -/
def directVotes (dst : UInt32) (votes : List RuntimeOverlayUpdate) : List RuntimeOverlayUpdate :=
  votes.filter fun vote => vote.dst = dst ∧ vote.direct = true

def reciprocalVotes (dst : UInt32) (votes : List RuntimeOverlayUpdate) : List RuntimeOverlayUpdate :=
  votes.filter fun vote => vote.dst = dst ∧ vote.reciprocal = true

/-! ## What the counters count -/

open RuntimeOverlayCandidate RuntimeOverlayUpdate

variable {dst : UInt32} {votes votes' : List RuntimeOverlayUpdate} {vote : RuntimeOverlayUpdate}
  {candidate : RuntimeOverlayCandidate}

/-- A word has the bits of the votes, and there are as many as counted. -/
structure Marks (votes : List RuntimeOverlayUpdate) (bits : UInt64) (support : Nat) : Prop where
  testBit_iff : ∀ bit, bits.toNat.testBit bit = true ↔ bit ∈ votes.map place
  support_eq : support = (firsts place votes).length

/-- The counters of a candidate, by the votes that were applied to it. -/
structure Tallied (direct reciprocal : List RuntimeOverlayUpdate)
    (candidate : RuntimeOverlayCandidate) : Prop where
  family : Marks direct candidate.familyBits candidate.familySupport
  rankMass : candidate.rankMass = ((firsts place direct).map weight).sum
  reciprocal : Marks reciprocal candidate.reciprocalBits candidate.reciprocalSupport

theorem length_firsts_le (votes : List RuntimeOverlayUpdate) : (firsts place votes).length ≤ 64 := by
  rw [length_firsts]
  have hsub : (votes.map place).toFinset ⊆ Finset.range 64 := by
    intro bit hbit
    obtain ⟨vote, -, rfl⟩ := List.mem_map.mp (List.mem_toFinset.mp hbit)
    exact Finset.mem_range.mpr (familyPlace_lt vote.family)
  calc _ ≤ (Finset.range 64).card := Finset.card_le_card hsub
    _ = 64 := Finset.card_range 64

theorem sum_weight_le (votes : List RuntimeOverlayUpdate) :
    ((firsts place votes).map weight).sum ≤ 384 := by
  have hle : ((firsts place votes).map weight).sum ≤ ((firsts place votes).map weight).length • 6 :=
    List.sum_le_card_nsmul _ 6 fun n hn => by
      obtain ⟨vote, -, rfl⟩ := List.mem_map.mp hn
      exact rankWeight_le _
  have hlength := length_firsts_le votes
  rw [List.length_map, smul_eq_mul] at hle
  omega

section

variable {bits : UInt64} {support : Nat} {direct reciprocal : List RuntimeOverlayUpdate}

theorem Marks.fresh_iff (h : Marks votes bits support) :
    bits &&& familyBit vote.family = 0 ↔ vote.place ∉ (firsts place votes).map place := by
  rw [and_familyBit_eq_zero, mem_keys_firsts, ← h.testBit_iff, Bool.not_eq_true]
  rfl

/-- The bit of a vote is new. -/
theorem Marks.mark (h : Marks votes bits support) (hfresh : bits &&& familyBit vote.family = 0) :
    Marks (votes ++ [vote]) (bits ||| familyBit vote.family) (min (support + 1) (2 ^ 16 - 1)) := by
  have hcharge : firsts place (votes ++ [vote]) = charge place (firsts place votes) vote :=
    firsts_concat
  rw [charge_of_not_mem (h.fresh_iff.mp hfresh)] at hcharge
  have hlength := length_firsts_le (votes ++ [vote])
  refine ⟨fun bit => ?_, ?_⟩
  · rw [testBit_or_familyBit, Bool.or_eq_true, h.testBit_iff, List.map_append, List.mem_append,
      decide_eq_true_iff, List.map_singleton, List.mem_singleton]
    exact or_congr Iff.rfl eq_comm
  · rw [hcharge, List.length_append, List.length_singleton] at hlength ⊢
    rw [h.support_eq]
    exact Nat.min_eq_left (by omega)

/-- It has been there. -/
theorem Marks.skip (h : Marks votes bits support) (hmarked : ¬ bits &&& familyBit vote.family = 0) :
    firsts place (votes ++ [vote]) = firsts place votes ∧ Marks (votes ++ [vote]) bits support := by
  have hmem : vote.place ∈ (firsts place votes).map place := by
    by_contra hnot
    exact hmarked (h.fresh_iff.mpr hnot)
  have hcharge : firsts place (votes ++ [vote]) = firsts place votes := by
    rw [firsts_concat, charge_of_mem hmem]
  refine ⟨hcharge, fun bit => ?_, ?_⟩
  · rw [h.testBit_iff, List.map_append, List.mem_append, List.map_singleton, List.mem_singleton]
    exact ⟨.inl, fun hbit => hbit.elim id fun heq => heq ▸ mem_keys_firsts.mp hmem⟩
  · rw [hcharge]
    exact h.support_eq

theorem Tallied.applyDirect (h : Tallied direct reciprocal candidate) :
    Tallied (if vote.direct = true then direct ++ [vote] else direct) reciprocal
      (candidate.applyDirect vote) := by
  unfold RuntimeOverlayCandidate.applyDirect
  by_cases hdirect : vote.direct = true
  · rw [if_pos hdirect]
    by_cases hfresh : candidate.familyBits &&& familyBit vote.family = 0
    · rw [if_pos ⟨hdirect, hfresh⟩]
      have hcharge : firsts place (direct ++ [vote]) = charge place (firsts place direct) vote :=
        firsts_concat
      rw [charge_of_not_mem (h.family.fresh_iff.mp hfresh)] at hcharge
      have hsum := sum_weight_le (direct ++ [vote])
      refine ⟨h.family.mark hfresh, ?_, h.reciprocal⟩
      rw [hcharge, List.map_append, List.sum_append, List.map_singleton, List.sum_singleton]
        at hsum ⊢
      rw [← h.rankMass] at hsum ⊢
      exact Nat.min_eq_left (by omega)
    · rw [if_neg fun hboth => hfresh hboth.2]
      obtain ⟨hcharge, hmarks⟩ := h.family.skip hfresh
      exact ⟨hmarks, hcharge ▸ h.rankMass, h.reciprocal⟩
  · rw [if_neg hdirect, if_neg fun hboth => hdirect hboth.1]
    exact h

theorem Tallied.applyReciprocal (h : Tallied direct reciprocal candidate) :
    Tallied direct (if vote.reciprocal = true then reciprocal ++ [vote] else reciprocal)
      (candidate.applyReciprocal vote) := by
  unfold RuntimeOverlayCandidate.applyReciprocal
  by_cases hreciprocal : vote.reciprocal = true
  · rw [if_pos hreciprocal]
    by_cases hfresh : candidate.reciprocalBits &&& familyBit vote.family = 0
    · rw [if_pos ⟨hreciprocal, hfresh⟩]
      exact ⟨h.family, h.rankMass, h.reciprocal.mark hfresh⟩
    · rw [if_neg fun hboth => hfresh hboth.2]
      exact ⟨h.family, h.rankMass, (h.reciprocal.skip hfresh).2⟩
  · rw [if_neg hreciprocal, if_neg fun hboth => hreciprocal hboth.1]
    exact h

theorem Tallied.apply (h : Tallied direct reciprocal candidate) (vote : RuntimeOverlayUpdate) :
    Tallied (if vote.direct = true then direct ++ [vote] else direct)
      (if vote.reciprocal = true then reciprocal ++ [vote] else reciprocal)
      (candidate.apply vote) := by
  have hnearer : Tallied direct reciprocal
      { candidate with dist2 := candidate.dist2.min vote.dist2 } :=
    ⟨h.family, h.rankMass, h.reciprocal⟩
  exact hnearer.applyDirect.applyReciprocal

end

theorem marks_nil : Marks [] 0 0 where
  testBit_iff bit := by simp
  support_eq := rfl

theorem tallied_emptyFor (dst : UInt32) : Tallied [] [] (emptyFor dst) := ⟨marks_nil, rfl, marks_nil⟩

theorem recorded_concat (dst : UInt32) (votes : List RuntimeOverlayUpdate)
    (vote : RuntimeOverlayUpdate) : recorded dst (votes ++ [vote]) =
      if vote.dst = dst then (recorded dst votes).apply vote else recorded dst votes := by
  unfold recorded
  rw [List.filter_append, List.foldl_append, List.filter_singleton]
  by_cases h : vote.dst = dst
  · rw [if_pos h, decide_eq_true h]
    rfl
  · rw [if_neg h, decide_eq_false h]
    rfl

/-- The record of all votes for a destination counts the direct and the reciprocal ones. -/
theorem tallied_recorded (dst : UInt32) (votes : List RuntimeOverlayUpdate) :
    Tallied (directVotes dst votes) (reciprocalVotes dst votes) (recorded dst votes) := by
  induction votes using List.reverseRecOn with
  | nil => exact tallied_emptyFor dst
  | append_singleton votes vote ih =>
      rw [recorded_concat]
      unfold directVotes reciprocalVotes at ih ⊢
      rw [List.filter_append, List.filter_append, List.filter_singleton, List.filter_singleton]
      by_cases hdst : vote.dst = dst
      · rw [if_pos hdst]
        have happly := ih.apply vote
        by_cases hdirect : vote.direct = true <;> by_cases hreciprocal : vote.reciprocal = true <;>
          simpa [hdst, hdirect, hreciprocal] using happly
      · simpa [hdst] using ih

/-! ## What the record says of the votes -/

/-- The families with direct votes for a destination. -/
def directFamilies (dst : UInt32) (votes : List RuntimeOverlayUpdate) : Finset UInt32 :=
  ((directVotes dst votes).map family).toFinset

theorem image_directFamilies :
    (directFamilies dst votes).image familyPlace = ((directVotes dst votes).map place).toFinset := by
  ext bit
  simp only [directFamilies, Finset.mem_image, List.mem_toFinset, List.mem_map]
  constructor
  · rintro ⟨_, ⟨vote, hvote, rfl⟩, rfl⟩
    exact ⟨vote, hvote, rfl⟩
  · rintro ⟨vote, hvote, rfl⟩
    exact ⟨vote.family, ⟨vote, hvote, rfl⟩, rfl⟩

/-- The support is the number of bits, not of families. -/
theorem recorded_familySupport (dst : UInt32) (votes : List RuntimeOverlayUpdate) :
    (recorded dst votes).familySupport = ((directFamilies dst votes).image familyPlace).card := by
  rw [(tallied_recorded dst votes).family.support_eq, length_firsts, image_directFamilies]

theorem directFamilies_perm (h : votes'.Perm votes) :
    directFamilies dst votes' = directFamilies dst votes := by
  ext family
  rw [directFamilies, directFamilies, List.mem_toFinset, List.mem_toFinset]
  exact ((h.filter _).map _).mem_iff

/-- Two direct votes with one bit weigh the same. -/
def SameWeights (dst : UInt32) (votes : List RuntimeOverlayUpdate) : Prop :=
  ∀ vote ∈ directVotes dst votes, ∀ other ∈ directVotes dst votes,
    vote.place = other.place → vote.weight = other.weight

theorem exists_perm_directVotes {direct : List RuntimeOverlayUpdate}
    (h : direct.Perm (directVotes dst votes)) :
    ∃ votes' : List RuntimeOverlayUpdate, votes'.Perm votes ∧ directVotes dst votes' = direct := by
  refine ⟨direct ++ votes.filter fun vote => !decide (vote.dst = dst ∧ vote.direct = true), ?_, ?_⟩
  · exact (h.append_right _).trans (List.filter_append_perm _ votes)
  · unfold directVotes
    rw [List.filter_append, List.filter_filter]
    have hown : direct.filter (fun vote => decide (vote.dst = dst ∧ vote.direct = true)) = direct :=
      List.filter_eq_self.mpr fun vote hvote => (List.mem_filter.mp (h.mem_iff.mp hvote)).2
    rw [hown]
    simp

theorem recorded_rankMass_perm_iff (dst : UInt32) (votes : List RuntimeOverlayUpdate) :
    (∀ votes' : List RuntimeOverlayUpdate, votes'.Perm votes →
      (recorded dst votes').rankMass = (recorded dst votes).rankMass) ↔ SameWeights dst votes := by
  simp only [(tallied_recorded dst _).rankMass]
  rw [SameWeights, ← sum_firsts_perm_iff]
  constructor
  · intro h direct hdirect
    -- an order of the direct votes is one of all votes, with the others behind
    obtain ⟨votes', hperm, heq⟩ := exists_perm_directVotes hdirect
    exact heq ▸ h votes' hperm
  · exact fun h votes' hperm => h _ (hperm.filter _)

end ForgeANN
