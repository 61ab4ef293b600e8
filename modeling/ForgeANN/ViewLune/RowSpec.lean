-- SUMMARY: One specification for each operation on a row, and what a reduction depends on.
import ForgeANN.ViewLune.RowCandidates

/-!
# What a row is for

A row is told by its candidates and by the witnesses of each victim. Each
operation has its effect on these, and reduction depends on nothing else.
-/
namespace ForgeANN

open Lib

namespace RuntimeViewLuneRow

/-- The witnesses of a victim. -/
def witnessesOf (row : RuntimeViewLuneRow) (victim : UInt32) : List RuntimeLuneWitness :=
  witnessesIn row.witnessRows row.witnessOverflow victim

/-- How many witnesses a victim can have. -/
def boundOf (row : RuntimeViewLuneRow) (maxWitnesses : Nat) (victim : UInt32) : Nat :=
  boundIn row.witnessRows maxWitnesses victim

/-- The victims' records are in order, and each has its own region. -/
def Placed (row : RuntimeViewLuneRow) (maxWitnesses : Nat) : Prop :=
  WitnessesPlaced row.witnessRows row.witnessOverflow maxWitnesses

/-- With the witness the victim has too many for its record. -/
def NeedsRegion (row : RuntimeViewLuneRow) (victim : UInt32) (witness : RuntimeLuneWitness)
    (maxWitnesses : Nat) : Prop :=
  ∃ victimRow ∈ row.witnessRows, victimRow.victim = victim ∧
    victimRow.NeedsRegion witness maxWitnesses

section

variable {row next other : RuntimeViewLuneRow} {maxWitnesses idx : Nat} {victim : UInt32}
  {witness : RuntimeLuneWitness}

theorem placed_default (maxWitnesses : Nat) : default.Placed maxWitnesses :=
  ⟨.nil, fun _ h => (List.not_mem_nil h).elim, .nil⟩

theorem witnessesOf_default (victim : UInt32) : default.witnessesOf victim = [] := rfl

theorem boundOf_default (maxWitnesses : Nat) (victim : UInt32) :
    default.boundOf maxWitnesses victim = maxWitnesses := rfl

theorem remembers_default : default.Remembers :=
  ⟨.inl rfl, fun _ h => (List.not_mem_nil h).elim⟩

/-! ## Witnesses -/

/-- The victim's witnesses go, and the others' stay. -/
theorem Placed.removeWitnessRow (h : row.Placed maxWitnesses) (victim : UInt32) :
    (row.removeWitnessRow victim).1.Placed maxWitnesses ∧
      (∀ v, (row.removeWitnessRow victim).1.witnessesOf v =
        if v = victim then [] else row.witnessesOf v) ∧
      ∀ v, (row.removeWitnessRow victim).1.boundOf maxWitnesses v =
        if v = victim then maxWitnesses else row.boundOf maxWitnesses v := by
  rw [RuntimeViewLuneRow.removeWitnessRow]
  cases hsearch : binarySearchByKey ViewLuneVictimWitnesses.victim row.witnessRows victim with
  | ok idx =>
      obtain ⟨victimRow, hidx, rfl⟩ := key_of_binarySearch_ok hsearch
      exact h.erase hidx
  | error idx =>
      have hnot := not_mem_of_binarySearch_error h.sorted hsearch
      refine ⟨h, fun v => ?_, fun v => ?_⟩
      · split_ifs with hv
        · rw [hv]
          exact witnessesIn_of_not_mem hnot
        · rfl
      · split_ifs with hv
        · rw [hv]
          exact boundIn_of_not_mem hnot
        · rfl

theorem Placed.dropWitnesses (h : row.Placed maxWitnesses) (dropped : Option UInt32) :
    (row.dropWitnesses dropped).Placed maxWitnesses ∧
      (∀ v, (row.dropWitnesses dropped).witnessesOf v =
        if dropped = some v then [] else row.witnessesOf v) ∧
      ∀ v, (row.dropWitnesses dropped).boundOf maxWitnesses v =
        if dropped = some v then maxWitnesses else row.boundOf maxWitnesses v := by
  cases dropped with
  | none => exact ⟨h, fun _ => rfl, fun _ => rfl⟩
  | some victim =>
      obtain ⟨hplaced, hwitnesses, hbound⟩ := h.removeWitnessRow victim
      refine ⟨hplaced, fun v => (hwitnesses v).trans ?_, fun v => (hbound v).trans ?_⟩
      · simp only [Option.some.injEq, eq_comm]
      · simp only [Option.some.injEq, eq_comm]

theorem insertWitness_candidates (row : RuntimeViewLuneRow) (victim : UInt32)
    (witness : RuntimeLuneWitness) (maxWitnesses : Nat) :
    (row.insertWitness victim witness maxWitnesses).candidates = row.candidates ∧
      (row.insertWitness victim witness maxWitnesses).candidateWorstIdx =
        row.candidateWorstIdx := by
  rw [insertWitness]
  dsimp only
  split
  · exact ⟨rfl, rfl⟩
  · exact ⟨rfl, rfl⟩

/-- The victim's best witnesses are kept, and the others' witnesses stay. -/
theorem Placed.insertWitness (h : row.Placed maxWitnesses) (hpos : 0 < maxWitnesses)
    (hmax : maxWitnesses ≤ 65535)
    (harena : row.NeedsRegion victim witness maxWitnesses →
      row.witnessOverflow.length < INVALID_WITNESS_OVERFLOW_OFFSET) :
    (row.insertWitness victim witness maxWitnesses).Placed maxWitnesses ∧
      (∀ v, (row.insertWitness victim witness maxWitnesses).witnessesOf v =
        if v = victim then keepWitness (row.boundOf maxWitnesses v) (row.witnessesOf v) witness
        else row.witnessesOf v) ∧
      ∀ v, (row.insertWitness victim witness maxWitnesses).boundOf maxWitnesses v =
        row.boundOf maxWitnesses v := by
  rw [RuntimeViewLuneRow.insertWitness]
  cases hsearch : binarySearchByKey ViewLuneVictimWitnesses.victim row.witnessRows victim with
  | ok idx =>
      obtain ⟨victimRow, hidx, rfl⟩ := key_of_binarySearch_ok hsearch
      have hin := List.mem_of_getElem? hidx
      have hinserted := (h.placed victimRow hin).insert hpos hmax
        fun hneeds => harena ⟨victimRow, hin, rfl, hneeds⟩
      dsimp only
      rw [hidx]
      exact h.update hidx hinserted
  | error idx =>
      obtain ⟨hplaced, hwitnesses, hbound⟩ := h.insertNew hsearch
      obtain ⟨hidx, -, -⟩ := split_of_binarySearch_error h.sorted hsearch
      have hnew : (insertAt row.witnessRows idx (.new victim))[idx]? =
          some (ViewLuneVictimWitnesses.new victim) := by
        rw [insertAt, List.getElem?_append_right (by rw [List.length_take]; omega),
          List.length_take, Nat.min_eq_left hidx, Nat.sub_self]
        rfl
      have hfew : ¬ (ViewLuneVictimWitnesses.new victim).NeedsRegion witness maxWitnesses := by
        rintro ⟨-, -, hzero, hcap⟩
        change min maxWitnesses INLINE_WITNESS_CAP ≤ 0 at hzero
        rw [INLINE_WITNESS_CAP] at hzero hcap
        omega
      have hinserted := (ViewLuneVictimWitnesses.placed_new victim row.witnessOverflow
        maxWitnesses).insert hpos hmax fun hneeds => absurd hneeds hfew
      obtain ⟨hplaced', hwitnesses', hbound'⟩ := hplaced.update hnew hinserted
      dsimp only
      rw [hnew]
      refine ⟨hplaced', fun v => ?_, fun v => (hbound' v).trans (hbound v)⟩
      refine (hwitnesses' v).trans ?_
      rw [hwitnesses, hbound]
      rfl

/-! ## Reduction -/

theorem Placed.hasSelectedWitness (h : row.Placed maxWitnesses) (victim : UInt32)
    (selected : List UInt32) : row.hasSelectedWitness victim selected =
      (row.witnessesOf victim).any fun witness => witness.pivot ∈ selected := by
  rw [RuntimeViewLuneRow.hasSelectedWitness, witnessesOf, witnessesIn]
  cases hsearch : binarySearchByKey ViewLuneVictimWitnesses.victim row.witnessRows victim with
  | ok idx =>
      rw [findByKey_of_binarySearch_ok h.sorted hsearch]
      dsimp only
      cases row.witnessRows[idx]? with
      | none => rfl
      | some victimRow => rfl
  | error idx =>
      rw [findByKey_of_binarySearch_error h.sorted hsearch]
      rfl

/-- Reduction depends on the candidates, in any order, and on the victims' witnesses. -/
theorem reduceRow_congr (hplaced : row.Placed maxWitnesses) (hplaced' : other.Placed maxWitnesses)
    (hcandidates : row.candidates.Perm other.candidates)
    (hwitnesses : ∀ v, row.witnessesOf v = other.witnessesOf v) (options : ViewLunePruneOptions)
    (baseRow : Option (List UInt32)) :
    (row.reduceRow options baseRow).2 = (other.reduceRow options baseRow).2 := by
  have hsort : row.sortCandidates.candidates = other.sortCandidates.candidates :=
    sortByDistance_congr hcandidates
  have hselected : row.sortCandidates.hasSelectedWitness =
      other.sortCandidates.hasSelectedWitness := by
    funext victim selected
    have hrow : row.sortCandidates.Placed maxWitnesses := hplaced
    have hother : other.sortCandidates.Placed maxWitnesses := hplaced'
    have hsame : row.sortCandidates.witnessesOf victim = other.sortCandidates.witnessesOf victim :=
      hwitnesses victim
    rw [hrow.hasSelectedWitness, hother.hasSelectedWitness, hsame]
  rw [reduceRow, reduceRow]
  dsimp only
  rw [hsort, hselected]

theorem Remembers.sortCandidates (h : row.Remembers) : row.sortCandidates.Remembers where
  worst := .inl rfl
  number candidate hin := h.number candidate ((sortByDistance_perm _).mem_iff.mp hin)

end
end RuntimeViewLuneRow
end ForgeANN
