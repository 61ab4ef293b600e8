-- SUMMARY: The accumulator of all rows: writes, compaction, reduction, and what each call does to one row.
import ForgeANN.Lib.Table
import ForgeANN.ViewLune.Pending
import ForgeANN.ViewLune.RowSpec

/-!
# The accumulator

The accumulator has a row for each source. A batch that is written is merged
run by run, and each run goes to the row of its source, so that what a row
becomes depends on its own runs only.
-/
namespace ForgeANN

open Lib

structure RuntimeViewLuneAccumulator where
  rows : List RuntimeViewLuneRow
  options : ViewLunePruneOptions
  rawCandidateEdges : Nat
  rawWitnessRecords : Nat
  filteredWitnessRecords : Nat
  staleWitnessRowsPruned : Nat
  rowsOverCandidateWidth : Nat
  witnessFamilies : List UInt32

namespace RuntimeViewLuneAccumulator

def create (numPoints : Nat) (options : ViewLunePruneOptions) : RuntimeViewLuneAccumulator where
  rows := List.replicate numPoints .default
  options := options
  rawCandidateEdges := 0
  rawWitnessRecords := 0
  filteredWitnessRecords := 0
  staleWitnessRowsPruned := 0
  rowsOverCandidateWidth := 0
  witnessFamilies := []

/-- The candidate of a run of edges, if they have one, goes to its source's row. -/
def insertEdgeRun (acc : RuntimeViewLuneAccumulator)
    (run : GreedyRun PendingEdge (Nat ×ₗ UInt32)) : RuntimeViewLuneAccumulator :=
  match acc.rows[run.first.p]? with
  | none => acc
  | some row =>
      match mergedDistance run.items with
      | none => acc
      | some dist2 =>
          let inserted := row.insertCandidate ⟨run.first.c, dist2⟩ acc.options.candidateWidth
          { acc with
            rows := acc.rows.set run.first.p inserted.1
            rowsOverCandidateWidth :=
              acc.rowsOverCandidateWidth + if inserted.2.1 then 1 else 0
            staleWitnessRowsPruned := acc.staleWitnessRowsPruned + inserted.2.2 }

/-- `write_edges_in_place`. -/
def writeEdges (acc : RuntimeViewLuneAccumulator) (edges : List PendingEdge) :
    RuntimeViewLuneAccumulator :=
  if edges = [] then acc
  else
    let written := (edgeRuns edges).foldl insertEdgeRun acc
    { written with rawCandidateEdges := written.rawCandidateEdges + edges.length }

/-- The best of a run of witnesses goes to its source's row, if victim and pivot are candidates. -/
def insertWitnessRun (acc : RuntimeViewLuneAccumulator)
    (run : GreedyRun PendingLuneWitness (UInt32 ×ₗ (UInt32 ×ₗ UInt32))) :
    RuntimeViewLuneAccumulator :=
  match acc.rows[run.first.src.toNat]? with
  | none => acc
  | some row =>
      if row.hasCandidate run.first.victim ∧ row.hasCandidate run.first.pivot then
        { acc with
          rows := acc.rows.set run.first.src.toNat
            (row.insertWitness run.first.victim (bestStored run)
              acc.options.maxWitnessesPerVictim) }
      else { acc with filteredWitnessRecords := acc.filteredWitnessRecords + 1 }

/-- `write_witnesses_in_place`. -/
def writeWitnesses (acc : RuntimeViewLuneAccumulator) (viewFamily : UInt32)
    (witnesses : List PendingLuneWitness) : RuntimeViewLuneAccumulator :=
  if witnesses = [] then acc
  else
    let written := (witnessRuns witnesses).foldl insertWitnessRun
      { acc with witnessFamilies := acc.witnessFamilies ++ [viewFamily] }
    { written with rawWitnessRecords := written.rawWitnessRecords + witnesses.length }

def compactStorage (acc : RuntimeViewLuneAccumulator) : RuntimeViewLuneAccumulator :=
  { acc with rows := acc.rows.map RuntimeViewLuneRow.compactStorage }

/-- The row that a source had before. -/
def baseRow (baseRows : Option (List (List UInt32))) (source : Nat) : Option (List UInt32) :=
  baseRows.bind fun rows => rows[source]?

/-- `reduce_all_rows_with`: each row in turn is handed to `on_row` as it is reduced. -/
def reduceAllRows (acc : RuntimeViewLuneAccumulator) (baseRows : Option (List (List UInt32))) :
    RuntimeViewLuneAccumulator × List ViewLuneRowOutput :=
  let reduced := acc.rows.mapIdx fun source row =>
    row.reduceRow acc.options (baseRow baseRows source)
  ({ acc with rows := reduced.map Prod.fst }, reduced.map Prod.snd)

end RuntimeViewLuneAccumulator

/-! ## Row by row -/

/-- What can be done to a row. -/
inductive RowStep where
  | candidate (candidate : ViewLuneCandidate)
  | witness (victim : UInt32) (witness : RuntimeLuneWitness)
  | compact
  | reduce

/-- A witness is inserted where its victim and its pivot are candidates. -/
def RuntimeViewLuneRow.admitWitness (options : ViewLunePruneOptions) (row : RuntimeViewLuneRow)
    (victim : UInt32) (witness : RuntimeLuneWitness) : RuntimeViewLuneRow :=
  if row.hasCandidate victim ∧ row.hasCandidate witness.pivot then
    row.insertWitness victim witness options.maxWitnessesPerVictim
  else row

def RuntimeViewLuneRow.step (options : ViewLunePruneOptions) (row : RuntimeViewLuneRow) :
    RowStep → RuntimeViewLuneRow
  | .candidate candidate => (row.insertCandidate candidate options.candidateWidth).1
  | .witness victim witness => row.admitWitness options victim witness
  | .compact => row.compactStorage
  | .reduce => row.sortCandidates

/-- The calls of an accumulator. -/
inductive ViewLuneCall where
  | writeEdges (edges : List PendingEdge)
  | writeWitnesses (viewFamily : UInt32) (witnesses : List PendingLuneWitness)
  | compactStorage
  | reduceAllRows (baseRows : Option (List (List UInt32)))

namespace ViewLuneCall

/-- What the call does to the row of a source. -/
def rowSteps (source : Nat) : ViewLuneCall → List RowStep
  | writeEdges edges => (candidateUpdates edges source).map .candidate
  | writeWitnesses _ witnesses =>
      (witnessUpdates witnesses source).map fun update => .witness update.1 update.2
  | compactStorage => [.compact]
  | reduceAllRows _ => [.reduce]

end ViewLuneCall

namespace RuntimeViewLuneAccumulator

def call (acc : RuntimeViewLuneAccumulator) : ViewLuneCall → RuntimeViewLuneAccumulator
  | .writeEdges edges => acc.writeEdges edges
  | .writeWitnesses viewFamily witnesses => acc.writeWitnesses viewFamily witnesses
  | .compactStorage => acc.compactStorage
  | .reduceAllRows baseRows => (acc.reduceAllRows baseRows).1

def run (acc : RuntimeViewLuneAccumulator) (calls : List ViewLuneCall) :
    RuntimeViewLuneAccumulator :=
  calls.foldl call acc

section

variable {acc : RuntimeViewLuneAccumulator} {edges : List PendingEdge}
  {witnesses : List PendingLuneWitness}

/-- What a run of edges does to the row of its source. -/
def edgeRunUpdate (options : ViewLunePruneOptions)
    (run : GreedyRun PendingEdge (Nat ×ₗ UInt32)) (row : RuntimeViewLuneRow) :
    RuntimeViewLuneRow :=
  match mergedDistance run.items with
  | none => row
  | some dist2 => (row.insertCandidate ⟨run.first.c, dist2⟩ options.candidateWidth).1

theorem insertEdgeRun_rows (acc : RuntimeViewLuneAccumulator)
    (run : GreedyRun PendingEdge (Nat ×ₗ UInt32)) :
    (acc.insertEdgeRun run).rows = acc.rows.modify run.first.p (edgeRunUpdate acc.options run) ∧
      (acc.insertEdgeRun run).options = acc.options := by
  rw [insertEdgeRun]
  cases hrow : acc.rows[run.first.p]? with
  | none => exact ⟨(modify_of_none hrow _).symm, rfl⟩
  | some row =>
      rw [modify_of_some hrow, edgeRunUpdate]
      cases mergedDistance run.items with
      | none =>
          obtain ⟨hlt, rfl⟩ := List.getElem?_eq_some_iff.mp hrow
          exact ⟨(List.set_getElem_self hlt).symm, rfl⟩
      | some dist2 => exact ⟨rfl, rfl⟩

theorem foldl_insertEdgeRun (runs : List (GreedyRun PendingEdge (Nat ×ₗ UInt32)))
    (acc : RuntimeViewLuneAccumulator) :
    (runs.foldl insertEdgeRun acc).rows =
        runs.foldl (fun rows run => rows.modify run.first.p (edgeRunUpdate acc.options run))
          acc.rows ∧
      (runs.foldl insertEdgeRun acc).options = acc.options := by
  induction runs generalizing acc with
  | nil => exact ⟨rfl, rfl⟩
  | cons run runs ih =>
      obtain ⟨hrows, hoptions⟩ := insertEdgeRun_rows acc run
      obtain ⟨hrest, hoptions'⟩ := ih (acc.insertEdgeRun run)
      rw [List.foldl_cons, List.foldl_cons, hrest, hoptions', hoptions, hrows]
      exact ⟨rfl, rfl⟩

/-- What a run of witnesses does to the row of its source. -/
def witnessRunUpdate (options : ViewLunePruneOptions)
    (run : GreedyRun PendingLuneWitness (UInt32 ×ₗ (UInt32 ×ₗ UInt32)))
    (row : RuntimeViewLuneRow) : RuntimeViewLuneRow :=
  if row.hasCandidate run.first.victim ∧ row.hasCandidate run.first.pivot then
    row.insertWitness run.first.victim (bestStored run) options.maxWitnessesPerVictim
  else row

theorem insertWitnessRun_rows (acc : RuntimeViewLuneAccumulator)
    (run : GreedyRun PendingLuneWitness (UInt32 ×ₗ (UInt32 ×ₗ UInt32))) :
    (acc.insertWitnessRun run).rows =
        acc.rows.modify run.first.src.toNat (witnessRunUpdate acc.options run) ∧
      (acc.insertWitnessRun run).options = acc.options := by
  rw [insertWitnessRun]
  cases hrow : acc.rows[run.first.src.toNat]? with
  | none => exact ⟨(modify_of_none hrow _).symm, rfl⟩
  | some row =>
      rw [modify_of_some hrow, witnessRunUpdate]
      dsimp only
      split_ifs
      · exact ⟨rfl, rfl⟩
      · obtain ⟨hlt, rfl⟩ := List.getElem?_eq_some_iff.mp hrow
        exact ⟨(List.set_getElem_self hlt).symm, rfl⟩

theorem foldl_insertWitnessRun
    (runs : List (GreedyRun PendingLuneWitness (UInt32 ×ₗ (UInt32 ×ₗ UInt32))))
    (acc : RuntimeViewLuneAccumulator) :
    (runs.foldl insertWitnessRun acc).rows =
        runs.foldl
          (fun rows run =>
            rows.modify run.first.src.toNat (witnessRunUpdate acc.options run)) acc.rows ∧
      (runs.foldl insertWitnessRun acc).options = acc.options := by
  induction runs generalizing acc with
  | nil => exact ⟨rfl, rfl⟩
  | cons run runs ih =>
      obtain ⟨hrows, hoptions⟩ := insertWitnessRun_rows acc run
      obtain ⟨hrest, hoptions'⟩ := ih (acc.insertWitnessRun run)
      rw [List.foldl_cons, List.foldl_cons, hrest, hoptions', hoptions, hrows]
      exact ⟨rfl, rfl⟩

theorem foldl_edgeRunUpdate (options : ViewLunePruneOptions)
    (runs : List (GreedyRun PendingEdge (Nat ×ₗ UInt32))) (row : RuntimeViewLuneRow) :
    runs.foldl (fun row run => edgeRunUpdate options run row) row =
      ((runs.filterMap fun run => (mergedDistance run.items).map fun dist2 =>
        (⟨run.first.c, dist2⟩ : ViewLuneCandidate)).map RowStep.candidate).foldl
          (RuntimeViewLuneRow.step options) row := by
  rw [List.foldl_map, List.foldl_filterMap]
  congr 1
  funext row run
  rw [edgeRunUpdate]
  cases mergedDistance run.items with
  | none => rfl
  | some dist2 => rfl

theorem foldl_witnessRunUpdate (options : ViewLunePruneOptions)
    (runs : List (GreedyRun PendingLuneWitness (UInt32 ×ₗ (UInt32 ×ₗ UInt32))))
    (hruns : ∀ run ∈ runs, (bestStored run).pivot = run.first.pivot) (row : RuntimeViewLuneRow) :
    runs.foldl (fun row run => witnessRunUpdate options run row) row =
      ((runs.map fun run => (run.first.victim, bestStored run)).map fun update =>
        RowStep.witness update.1 update.2).foldl (RuntimeViewLuneRow.step options) row := by
  induction runs generalizing row with
  | nil => rfl
  | cons run runs ih =>
      rw [List.foldl_cons, ih fun run hrun => hruns run (.tail _ hrun), List.map_cons,
        List.map_cons, List.foldl_cons]
      have hstep : witnessRunUpdate options run row =
          row.step options (.witness run.first.victim (bestStored run)) := by
        rw [witnessRunUpdate, RuntimeViewLuneRow.step, RuntimeViewLuneRow.admitWitness,
          hruns run List.mem_cons_self]
      rw [hstep]

/-- What a call does, row by row. -/
theorem call_rows (acc : RuntimeViewLuneAccumulator) (c : ViewLuneCall) :
    (acc.call c).rows = acc.rows.mapIdx (fun source row =>
        (c.rowSteps source).foldl (RuntimeViewLuneRow.step acc.options) row) ∧
      (acc.call c).options = acc.options := by
  cases c with
  | writeEdges edges =>
      rw [call, writeEdges]
      split_ifs with hnil
      · refine ⟨eq_mapIdx_self fun source row => ?_, rfl⟩
        rw [hnil, ViewLuneCall.rowSteps, candidateUpdates_nil]
        rfl
      · obtain ⟨hrows, hoptions⟩ := foldl_insertEdgeRun (edgeRuns edges) acc
        refine ⟨hrows.trans ?_, hoptions⟩
        rw [foldl_modify]
        congr 1
        funext source row
        exact foldl_edgeRunUpdate ..
  | writeWitnesses viewFamily witnesses =>
      rw [call, writeWitnesses]
      split_ifs with hnil
      · refine ⟨eq_mapIdx_self fun source row => ?_, rfl⟩
        rw [hnil, ViewLuneCall.rowSteps, witnessUpdates_nil]
        rfl
      · obtain ⟨hrows, hoptions⟩ := foldl_insertWitnessRun (witnessRuns witnesses)
          { acc with witnessFamilies := acc.witnessFamilies ++ [viewFamily] }
        refine ⟨hrows.trans ?_, hoptions⟩
        rw [foldl_modify]
        congr 1
        funext source row
        apply foldl_witnessRunUpdate
        intro run hrun
        exact (bestStored_spec fun witness hwitness =>
          (points_of_mem_witnessRuns (List.mem_filter.mp hrun).1 hwitness).2.2).1
  | compactStorage =>
      refine ⟨eq_mapIdx fun source => ?_, rfl⟩
      rw [call, compactStorage, List.getElem?_map]
      rfl
  | reduceAllRows baseRows =>
      refine ⟨eq_mapIdx fun source => ?_, rfl⟩
      rw [call, reduceAllRows, List.getElem?_map, List.getElem?_mapIdx, Option.map_map]
      rfl

/-- What a run of calls does, row by row. -/
theorem run_rows (calls : List ViewLuneCall) (acc : RuntimeViewLuneAccumulator) :
    (acc.run calls).rows = acc.rows.mapIdx (fun source row =>
        (calls.flatMap (ViewLuneCall.rowSteps source)).foldl
          (RuntimeViewLuneRow.step acc.options) row) ∧
      (acc.run calls).options = acc.options := by
  induction calls generalizing acc with
  | nil => exact ⟨eq_mapIdx_self fun _ _ => rfl, rfl⟩
  | cons c calls ih =>
      obtain ⟨hrows, hoptions⟩ := call_rows acc c
      obtain ⟨hrest, hoptions'⟩ := ih (acc.call c)
      rw [run, List.foldl_cons]
      refine ⟨hrest.trans ?_, hoptions'.trans hoptions⟩
      rw [hrows, hoptions, List.mapIdx_mapIdx]
      congr 1
      funext source row
      rw [Function.comp_apply, List.flatMap_cons, List.foldl_append]

end
end RuntimeViewLuneAccumulator
end ForgeANN
