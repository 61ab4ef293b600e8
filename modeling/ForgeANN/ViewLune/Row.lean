-- SUMMARY: One row of the accumulator: inserting candidates and witnesses, compaction, and reduction to neighbors.
import ForgeANN.ViewLune.Candidate
import ForgeANN.ViewLune.Witness

/-!
# A row of the accumulator

A row has a source's candidates, and for its candidates the witnesses that they
can be pruned by. Reduction takes the candidates nearest first and skips those
with a witness among the ones selected before.
-/
namespace ForgeANN

open Lib

def INVALID_CANDIDATE_IDX : Nat := 65535

/-- `u16::try_from(idx).unwrap_or(INVALID_CANDIDATE_IDX)`. -/
def candidateIdx (idx : Nat) : Nat := if idx < 65536 then idx else INVALID_CANDIDATE_IDX

/-- The index to remember of the farthest candidate. -/
def worstIdxOf (candidates : List ViewLuneCandidate) : Nat :=
  match maxByKey ViewLuneCandidate.distanceKey candidates with
  | none => INVALID_CANDIDATE_IDX
  | some (idx, _) => candidateIdx idx

/-- The remembered index, if it is one. -/
def rememberedIdx (worstIdx len : Nat) : Option Nat :=
  if worstIdx ≠ INVALID_CANDIDATE_IDX ∧ worstIdx < len then some worstIdx else none

/-! ## Options -/

/-- `ViewLunePruneOptions` that pass `validate_view_lune_options`, with the width that
`candidate_width_for_options` computes from the multiplier. -/
structure ViewLunePruneOptions where
  maxDegree : Nat
  candidateWidth : Nat
  maxWitnessesPerVictim : Nat
  nearestCore : Nat
  maxDegree_pos : 0 < maxDegree
  candidateWidth_ge : maxDegree ≤ candidateWidth
  candidateWidth_le : candidateWidth ≤ 4 * maxDegree
  maxWitnessesPerVictim_pos : 0 < maxWitnessesPerVictim
  maxWitnessesPerVictim_le : maxWitnessesPerVictim ≤ 65535
  nearestCore_le : nearestCore ≤ maxDegree

/-! ## Rows -/

structure RuntimeViewLuneRow where
  candidates : List ViewLuneCandidate
  candidateWorstIdx : Nat
  witnessRows : List ViewLuneVictimWitnesses
  witnessOverflow : List RuntimeLuneWitness
deriving DecidableEq, Repr

structure ViewLuneRowOutput where
  neighbors : List UInt32
  prunedBySelectedWitness : Nat
  fillAfterPrune : Nat
  modifiedVsBase : Bool
  overlapWithBase : Nat
deriving DecidableEq, Repr

namespace RuntimeViewLuneRow

def default : RuntimeViewLuneRow := ⟨[], INVALID_CANDIDATE_IDX, [], []⟩

/-! ### Candidates -/

def candidateWorstIndex (row : RuntimeViewLuneRow) : Option Nat :=
  rememberedIdx row.candidateWorstIdx row.candidates.length

def recomputeCandidateWorst (row : RuntimeViewLuneRow) : RuntimeViewLuneRow :=
  { row with candidateWorstIdx := worstIdxOf row.candidates }

def currentCandidateWorstIndex (row : RuntimeViewLuneRow) : RuntimeViewLuneRow × Option Nat :=
  let row := if row.candidateWorstIndex = none then row.recomputeCandidateWorst else row
  (row, row.candidateWorstIndex)

def removeWitnessRow (row : RuntimeViewLuneRow) (victim : UInt32) : RuntimeViewLuneRow × Nat :=
  match binarySearchByKey ViewLuneVictimWitnesses.victim row.witnessRows victim with
  | .error _ => (row, 0)
  | .ok idx => ({ row with witnessRows := row.witnessRows.eraseIdx idx }, 1)

/-- The row, whether a candidate had to go, and how many witness rows went with it. -/
def insertCandidate (row : RuntimeViewLuneRow) (candidate : ViewLuneCandidate) (capacity : Nat) :
    RuntimeViewLuneRow × Bool × Nat :=
  if capacity = 0 then
    let removed := row.removeWitnessRow candidate.dst
    (removed.1, false, removed.2)
  else
    match binarySearchByKey ViewLuneCandidate.dst row.candidates candidate.dst with
    | .ok idx =>
        let row := { row with candidates := improveAt row.candidates idx candidate.dist2 }
        (if row.candidateWorstIndex = some idx then row.recomputeCandidateWorst else row, false, 0)
    | .error idx =>
        if row.candidates.length < capacity then
          ({ row with candidates := insertAt row.candidates idx candidate }.recomputeCandidateWorst,
            false, 0)
        else
          let current := row.currentCandidateWorstIndex
          let row := current.1
          match current.2 with
          | none => (row, false, 0)
          | some worstIdx =>
              match row.candidates[worstIdx]? with
              | none => (row, false, 0)
              | some worst =>
                  if candidate.distanceKey < worst.distanceKey then
                    let removed := row.removeWitnessRow worst.dst
                    ({ removed.1 with
                        candidates := replaceAt row.candidates worstIdx idx candidate
                      }.recomputeCandidateWorst, true, removed.2)
                  else
                    let removed := row.removeWitnessRow candidate.dst
                    (removed.1, true, removed.2)

def hasCandidate (row : RuntimeViewLuneRow) (dst : UInt32) : Bool :=
  match binarySearchByKey ViewLuneCandidate.dst row.candidates dst with
  | .ok _ => true
  | .error _ => false

/-! ### Witnesses -/

def insertWitness (row : RuntimeViewLuneRow) (victim : UInt32) (witness : RuntimeLuneWitness)
    (maxWitnessesPerVictim : Nat) : RuntimeViewLuneRow :=
  let place : List ViewLuneVictimWitnesses × Nat :=
    match binarySearchByKey ViewLuneVictimWitnesses.victim row.witnessRows victim with
    | .ok idx => (row.witnessRows, idx)
    | .error idx => (insertAt row.witnessRows idx (.new victim), idx)
  match place.1[place.2]? with
  | none => row
  | some victimRow =>
      let inserted := victimRow.insert witness maxWitnessesPerVictim row.witnessOverflow
      { row with
        witnessRows := place.1.set place.2 inserted.1
        witnessOverflow := inserted.2 }

def hasSelectedWitness (row : RuntimeViewLuneRow) (victim : UInt32) (selected : List UInt32) :
    Bool :=
  match binarySearchByKey ViewLuneVictimWitnesses.victim row.witnessRows victim with
  | .error _ => false
  | .ok idx =>
      match row.witnessRows[idx]? with
      | none => false
      | some victimRow =>
          (victimRow.asSlice row.witnessOverflow).any fun witness => witness.pivot ∈ selected

/-- The victims' records with their regions moved together, behind what has been moved before. -/
def compactRows (oldOverflow : List RuntimeLuneWitness) :
    List RuntimeLuneWitness → List ViewLuneVictimWitnesses →
      List ViewLuneVictimWitnesses × List RuntimeLuneWitness
  | compacted, [] => ([], compacted)
  | compacted, row :: rows =>
      if row.hasOverflow then
        let newOffset := compacted.length
        let moved := compacted ++ slice oldOverflow row.overflowOffset row.len
        let rest := compactRows oldOverflow moved rows
        ({ row with
            overflowOffset :=
              if newOffset < 2 ^ 32 then newOffset else INVALID_WITNESS_OVERFLOW_OFFSET
            overflowCapacity := row.len } :: rest.1, rest.2)
      else
        let rest := compactRows oldOverflow compacted rows
        (row :: rest.1, rest.2)

def compactWitnessOverflow (row : RuntimeViewLuneRow) : RuntimeViewLuneRow :=
  if row.witnessOverflow = [] then row
  else
    let compacted := compactRows row.witnessOverflow [] row.witnessRows
    { row with witnessRows := compacted.1, witnessOverflow := compacted.2 }

def compactStorage (row : RuntimeViewLuneRow) : RuntimeViewLuneRow := row.compactWitnessOverflow

/-! ### Reduction -/

/-- What has been selected, and how many candidates were skipped for a witness. -/
def selectCandidates (options : ViewLunePruneOptions)
    (hasSelectedWitness : UInt32 → List UInt32 → Bool) :
    List ViewLuneCandidate → List UInt32 → Nat → List UInt32 × Nat
  | [], selected, skipped => (selected, skipped)
  | candidate :: candidates, selected, skipped =>
      if candidate.dst ∈ selected then
        selectCandidates options hasSelectedWitness candidates selected skipped
      else
        let next : List UInt32 × Nat :=
          if selected.length < options.nearestCore then (selected ++ [candidate.dst], skipped)
          else if hasSelectedWitness candidate.dst selected then (selected, skipped + 1)
          else (selected ++ [candidate.dst], skipped)
        if next.1.length = options.maxDegree then next
        else selectCandidates options hasSelectedWitness candidates next.1 next.2

/-- The rest is filled up with the candidates skipped, nearest first. -/
def fillSelected (maxDegree : Nat) :
    List ViewLuneCandidate → List UInt32 → Nat → List UInt32 × Nat
  | [], selected, filled => (selected, filled)
  | candidate :: candidates, selected, filled =>
      if selected.length = maxDegree then (selected, filled)
      else if candidate.dst ∈ selected then fillSelected maxDegree candidates selected filled
      else fillSelected maxDegree candidates (selected ++ [candidate.dst]) (filled + 1)

def countOverlap (left right : List UInt32) : Nat := left.countP fun dst => dst ∈ right

/-- What a row with these candidates, nearest first, is reduced to. -/
def rowOutput (options : ViewLunePruneOptions) (hasSelectedWitness : UInt32 → List UInt32 → Bool)
    (candidates : List ViewLuneCandidate) (baseRow : Option (List UInt32)) : ViewLuneRowOutput :=
  let baseline := baseRow.map fun base => base.take options.maxDegree
  let overlap neighbors := (baseline.map (countOverlap neighbors)).getD 0
  let modified neighbors := (baseline.map fun base => neighbors != base).getD false
  if candidates.length ≤ options.maxDegree then
    let neighbors := candidates.map ViewLuneCandidate.dst
    ⟨neighbors, 0, 0, modified neighbors, overlap neighbors⟩
  else
    let selected := selectCandidates options hasSelectedWitness candidates [] 0
    let filled :=
      if selected.1.length < options.maxDegree then
        fillSelected options.maxDegree candidates selected.1 0
      else (selected.1, 0)
    let neighbors := filled.1.take options.maxDegree
    ⟨neighbors, selected.2, filled.2, modified neighbors, overlap neighbors⟩

/-- The candidates stay sorted by distance. -/
def sortCandidates (row : RuntimeViewLuneRow) : RuntimeViewLuneRow :=
  { row with
    candidates := sortByDistance row.candidates
    candidateWorstIdx := INVALID_CANDIDATE_IDX }

def reduceRow (options : ViewLunePruneOptions) (row : RuntimeViewLuneRow)
    (baseRow : Option (List UInt32)) : RuntimeViewLuneRow × ViewLuneRowOutput :=
  let row := row.sortCandidates
  (row, rowOutput options row.hasSelectedWitness row.candidates baseRow)

end RuntimeViewLuneRow
end ForgeANN
