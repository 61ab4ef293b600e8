-- SUMMARY: Compaction and reduction between writes: when the rows do not notice, and a run in which they do.
import ForgeANN.ViewLune.Accumulator

/-!
# Maintenance between writes

Compaction takes a victim's room for more witnesses, and reduction leaves the
candidates in order of distance, in which a later write cannot search by
destination. A run whose writes meet neither, and whose regions have offsets
that fit, ends as it would without the maintenance.
-/
namespace ForgeANN

open Lib RuntimeViewLuneRow

/-- The step writes. -/
def RowStep.isWrite : RowStep → Bool
  | candidate _ | witness _ _ => true
  | compact | reduce => false

def ViewLuneCall.isWrite : ViewLuneCall → Bool
  | writeEdges _ | writeWitnesses _ _ => true
  | compactStorage | reduceAllRows _ => false

/-- The region of a new witness, where it needs one, gets an offset that fits. -/
def RuntimeViewLuneRow.RegionFits (row : RuntimeViewLuneRow) (maxWitnesses : Nat)
    (victim : UInt32) (witness : RuntimeLuneWitness) : Prop :=
  row.NeedsRegion victim witness maxWitnesses →
    row.witnessOverflow.length < INVALID_WITNESS_OVERFLOW_OFFSET

/-- No room of the victim was taken by a compaction, or the witness needs none. -/
def RuntimeViewLuneRow.HasRoom (row : RuntimeViewLuneRow) (maxWitnesses : Nat) (victim : UInt32)
    (witness : RuntimeLuneWitness) : Prop :=
  row.boundOf maxWitnesses victim = maxWitnesses ∨
    ∃ existing ∈ row.witnessesOf victim, existing.pivot = witness.pivot

/-- Maintenance before the step does not show in it: not in the row, nor in the row `plain` that
was not maintained. -/
def RowStep.Undisturbed (options : ViewLunePruneOptions) (row plain : RuntimeViewLuneRow) :
    RowStep → Prop
  | .candidate _ => SortedBy ViewLuneCandidate.dst row.candidates
  | .witness victim offered =>
      SortedBy ViewLuneCandidate.dst row.candidates ∧
        (row.hasCandidate victim = true ∧ row.hasCandidate offered.pivot = true →
          row.HasRoom options.maxWitnessesPerVictim victim offered ∧
            row.RegionFits options.maxWitnessesPerVictim victim offered ∧
            plain.RegionFits options.maxWitnessesPerVictim victim offered)
  | .compact => CompactsWithin 0 row.witnessRows
  | .reduce => True

/-- The steps are undisturbed, each in the rows before it. -/
def RowStep.AllUndisturbed (options : ViewLunePruneOptions) :
    RuntimeViewLuneRow → RuntimeViewLuneRow → List RowStep → Prop
  | _, _, [] => True
  | row, plain, step :: steps =>
      step.Undisturbed options row plain ∧
        AllUndisturbed options (row.step options step)
          (if step.isWrite then plain.step options step else plain) steps

/-- The row stands as the row without maintenance does. -/
structure Mirrors (maxWitnesses : Nat) (row plain : RuntimeViewLuneRow) : Prop where
  placed : row.Placed maxWitnesses
  placed_plain : plain.Placed maxWitnesses
  remembers : row.Remembers
  remembers_plain : plain.Remembers
  sorted_plain : SortedBy ViewLuneCandidate.dst plain.candidates
  candidates : row.candidates.Perm plain.candidates
  witnesses : ∀ v, row.witnessesOf v = plain.witnessesOf v
  bound_plain : ∀ v, plain.boundOf maxWitnesses v = maxWitnesses

section

variable {options : ViewLunePruneOptions} {row plain : RuntimeViewLuneRow}
  {candidate : ViewLuneCandidate} {victim : UInt32} {witness : RuntimeLuneWitness}
  {maxWitnesses capacity : Nat}

theorem mirrors_default (maxWitnesses : Nat) :
    Mirrors maxWitnesses RuntimeViewLuneRow.default RuntimeViewLuneRow.default where
  placed := placed_default maxWitnesses
  placed_plain := placed_default maxWitnesses
  remembers := remembers_default
  remembers_plain := remembers_default
  sorted_plain := .nil
  candidates := .refl _
  witnesses _ := rfl
  bound_plain := boundOf_default maxWitnesses

/-- What an insertion does to the witnesses. -/
theorem insertCandidate_witnesses (hremembers : row.Remembers) (hplaced : row.Placed maxWitnesses)
    (candidate : ViewLuneCandidate) (capacity : Nat) :
    let dropped := (placeCandidate capacity row.candidates candidate).2.2
    let next := (row.insertCandidate candidate capacity).1
    next.Placed maxWitnesses ∧
      (∀ v, next.witnessesOf v = if dropped = some v then [] else row.witnessesOf v) ∧
      ∀ v, next.boundOf maxWitnesses v =
        if dropped = some v then maxWitnesses else row.boundOf maxWitnesses v := by
  obtain ⟨-, -, hrows, hoverflow⟩ := insertCandidate_spec hremembers candidate capacity
  obtain ⟨hplaced, hwitnesses, hbound⟩ :=
    hplaced.dropWitnesses (placeCandidate capacity row.candidates candidate).2.2
  have hdropped : ∀ dropped, (row.dropWitnesses dropped).witnessOverflow = row.witnessOverflow := by
    intro dropped
    cases dropped with
    | none => rfl
    | some v => exact (removeWitnessRow_candidates row v).2.2
  dsimp only
  refine ⟨?_, fun v => ?_, fun v => ?_⟩
  · rw [Placed, hrows, hoverflow]
    rwa [Placed, hdropped] at hplaced
  · rw [← hwitnesses v, witnessesOf, witnessesOf, hrows, hoverflow, hdropped]
  · rw [← hbound v, boundOf, boundOf, hrows]

/-- Where the order is right, the candidates are the same. -/
theorem Mirrors.candidates_eq (h : Mirrors maxWitnesses row plain)
    (hsorted : SortedBy ViewLuneCandidate.dst row.candidates) :
    row.candidates = plain.candidates := hsorted.eq_of_perm h.sorted_plain h.candidates

theorem Mirrors.insertCandidate (h : Mirrors maxWitnesses row plain)
    (hsorted : SortedBy ViewLuneCandidate.dst row.candidates)
    (hnumber : candidate.dist2.isNaN = false) (capacity : Nat) :
    Mirrors maxWitnesses (row.insertCandidate candidate capacity).1
      (plain.insertCandidate candidate capacity).1 := by
  have heq := h.candidates_eq hsorted
  have hcandidates := (insertCandidate_spec h.remembers candidate capacity).1
  have hcandidates' := (insertCandidate_spec h.remembers_plain candidate capacity).1
  obtain ⟨hplaced, hwitnesses, -⟩ :=
    insertCandidate_witnesses h.remembers h.placed candidate capacity
  obtain ⟨hplaced', hwitnesses', hbound'⟩ :=
    insertCandidate_witnesses h.remembers_plain h.placed_plain candidate capacity
  constructor
  · exact hplaced
  · exact hplaced'
  · exact h.remembers.insert hsorted hnumber capacity
  · exact h.remembers_plain.insert h.sorted_plain hnumber capacity
  · rw [hcandidates']
    exact placeCandidate_sorted h.sorted_plain candidate capacity
  · rw [hcandidates, hcandidates', heq]
  · intro v
    rw [hwitnesses, hwitnesses', heq, h.witnesses]
  · intro v
    rw [hbound', h.bound_plain, ite_self]

theorem hasCandidate_congr {row plain : RuntimeViewLuneRow}
    (h : row.candidates = plain.candidates) (dst : UInt32) :
    row.hasCandidate dst = plain.hasCandidate dst := by
  rw [hasCandidate, hasCandidate, h]

theorem Mirrors.insertWitness (h : Mirrors options.maxWitnessesPerVictim row plain)
    (hroom : row.HasRoom options.maxWitnessesPerVictim victim witness)
    (hfits : row.RegionFits options.maxWitnessesPerVictim victim witness)
    (hfits' : plain.RegionFits options.maxWitnessesPerVictim victim witness) :
    Mirrors options.maxWitnessesPerVictim
      (row.insertWitness victim witness options.maxWitnessesPerVictim)
      (plain.insertWitness victim witness options.maxWitnessesPerVictim) := by
  obtain ⟨hcandidates, hworst⟩ :=
    insertWitness_candidates row victim witness options.maxWitnessesPerVictim
  obtain ⟨hcandidates', hworst'⟩ :=
    insertWitness_candidates plain victim witness options.maxWitnessesPerVictim
  obtain ⟨hplaced, hwitnesses, -⟩ := h.placed.insertWitness options.maxWitnessesPerVictim_pos
    options.maxWitnessesPerVictim_le hfits
  obtain ⟨hplaced', hwitnesses', hbound'⟩ := h.placed_plain.insertWitness
    options.maxWitnessesPerVictim_pos options.maxWitnessesPerVictim_le hfits'
  constructor
  · exact hplaced
  · exact hplaced'
  · exact h.remembers.congr hcandidates hworst
  · exact h.remembers_plain.congr hcandidates' hworst'
  · rw [hcandidates']
    exact h.sorted_plain
  · rw [hcandidates, hcandidates']
    exact h.candidates
  · intro v
    rw [hwitnesses, hwitnesses']
    split_ifs with hv
    · rw [h.bound_plain, ← h.witnesses, hv]
      rcases hroom with hbound | hpivot
      · rw [hbound]
      · exact keepWitness_of_mem hpivot _ _
    · exact h.witnesses v
  · intro v
    rw [hbound', h.bound_plain]

/-- A step that is undisturbed leaves the rows alike. -/
theorem Mirrors.step (h : Mirrors options.maxWitnessesPerVictim row plain) {s : RowStep}
    (hstep : s.Undisturbed options row plain)
    (hnumber : ∀ candidate, s = .candidate candidate → candidate.dist2.isNaN = false) :
    Mirrors options.maxWitnessesPerVictim (row.step options s)
      (if s.isWrite then plain.step options s else plain) := by
  cases s with
  | candidate candidate =>
      exact h.insertCandidate hstep (hnumber candidate rfl) options.candidateWidth
  | witness victim witness =>
      obtain ⟨hsorted, hinsert⟩ := hstep
      have heq := h.candidates_eq hsorted
      change Mirrors _ (row.admitWitness options victim witness)
        (plain.admitWitness options victim witness)
      rw [admitWitness, admitWitness, ← hasCandidate_congr heq, ← hasCandidate_congr heq]
      split_ifs with hends
      · obtain ⟨hroom, hfits, hfits'⟩ := hinsert hends
        exact h.insertWitness hroom hfits hfits'
      · exact h
  | compact =>
      obtain ⟨hplaced, hwitnesses, hcandidates, hworst⟩ := WitnessesPlaced.compact h.placed hstep
      exact { h with
        placed := hplaced
        remembers := h.remembers.congr hcandidates hworst
        candidates := hcandidates ▸ h.candidates
        witnesses := fun v => (hwitnesses v).trans (h.witnesses v) }
  | reduce =>
      exact { h with
        placed := h.placed
        remembers := h.remembers.sortCandidates
        candidates := (sortByDistance_perm _).trans h.candidates
        witnesses := h.witnesses }

/-- After undisturbed steps, the rows are alike. -/
theorem Mirrors.steps {steps : List RowStep} (h : Mirrors options.maxWitnessesPerVictim row plain)
    (hsteps : RowStep.AllUndisturbed options row plain steps)
    (hnumber : ∀ candidate, .candidate candidate ∈ steps → candidate.dist2.isNaN = false) :
    Mirrors options.maxWitnessesPerVictim (steps.foldl (RuntimeViewLuneRow.step options) row)
      ((steps.filter RowStep.isWrite).foldl (RuntimeViewLuneRow.step options) plain) := by
  induction steps generalizing row plain with
  | nil => exact h
  | cons s steps ih =>
      obtain ⟨hstep, hrest⟩ := hsteps
      have hnext := h.step hstep fun candidate heq => hnumber candidate (heq ▸ List.mem_cons_self)
      have hend := ih hnext hrest fun candidate hin => hnumber candidate (.tail _ hin)
      cases hwrite : s.isWrite with
      | true =>
          rw [hwrite, if_pos rfl] at hend
          rw [List.filter_cons_of_pos hwrite]
          exact hend
      | false =>
          rw [hwrite, if_neg Bool.false_ne_true] at hend
          rw [List.filter_cons_of_neg (by rw [hwrite]; exact Bool.false_ne_true)]
          exact hend

end

/-! ## Runs -/

namespace ViewLuneCall

variable {source : Nat} {c : ViewLuneCall} {calls : List ViewLuneCall}

theorem isWrite_of_mem_rowSteps {s : RowStep} (h : s ∈ c.rowSteps source) :
    s.isWrite = c.isWrite := by
  cases c with
  | writeEdges edges =>
      obtain ⟨_, -, rfl⟩ := List.mem_map.mp h
      rfl
  | writeWitnesses viewFamily witnesses =>
      obtain ⟨_, -, rfl⟩ := List.mem_map.mp h
      rfl
  | compactStorage => rw [List.mem_singleton.mp h]; rfl
  | reduceAllRows baseRows => rw [List.mem_singleton.mp h]; rfl

/-- Without the maintenance calls, the rows see the writes. -/
theorem rowSteps_filter (calls : List ViewLuneCall) (source : Nat) :
    (calls.filter isWrite).flatMap (rowSteps source) =
      (calls.flatMap (rowSteps source)).filter RowStep.isWrite := by
  induction calls with
  | nil => rfl
  | cons c calls ih =>
      rw [List.flatMap_cons, List.filter_append, ← ih]
      cases hwrite : c.isWrite with
      | true =>
          have hall : (c.rowSteps source).filter RowStep.isWrite = c.rowSteps source :=
            List.filter_eq_self.mpr fun s hs => (isWrite_of_mem_rowSteps hs).trans hwrite
          rw [List.filter_cons_of_pos hwrite, List.flatMap_cons, hall]
      | false =>
          have hnone : (c.rowSteps source).filter RowStep.isWrite = [] := by
            apply List.filter_eq_nil_iff.mpr
            intro s hs
            rw [isWrite_of_mem_rowSteps hs, hwrite]
            exact Bool.false_ne_true
          rw [List.filter_cons_of_neg (by rw [hwrite]; exact Bool.false_ne_true), hnone]
          rfl

theorem number_of_mem_rowSteps {candidate : ViewLuneCandidate}
    (h : .candidate candidate ∈ calls.flatMap (rowSteps source)) :
    candidate.dist2.isNaN = false := by
  obtain ⟨c, -, hin⟩ := List.mem_flatMap.mp h
  cases c with
  | writeEdges edges =>
      obtain ⟨update, hupdate, heq⟩ := List.mem_map.mp hin
      rw [← RowStep.candidate.inj heq]
      exact candidateUpdates_number hupdate
  | writeWitnesses viewFamily witnesses =>
      obtain ⟨_, -, heq⟩ := List.mem_map.mp hin
      cases heq
  | compactStorage => cases List.mem_singleton.mp hin
  | reduceAllRows baseRows => cases List.mem_singleton.mp hin

end ViewLuneCall

/-- No write of the run shows the maintenance before it. -/
def MaintenanceUnseen (numPoints : Nat) (options : ViewLunePruneOptions)
    (calls : List ViewLuneCall) : Prop :=
  ∀ source < numPoints, RowStep.AllUndisturbed options RuntimeViewLuneRow.default
    RuntimeViewLuneRow.default (calls.flatMap (ViewLuneCall.rowSteps source))

/-- The rows that a final reduction after the calls produces. -/
def finalRows (numPoints : Nat) (options : ViewLunePruneOptions) (calls : List ViewLuneCall)
    (baseRows : Option (List (List UInt32))) : List ViewLuneRowOutput :=
  (((RuntimeViewLuneAccumulator.create numPoints options).run calls).reduceAllRows baseRows).2

theorem getElem?_finalRows (numPoints : Nat) (options : ViewLunePruneOptions)
    (calls : List ViewLuneCall) (baseRows : Option (List (List UInt32))) (source : Nat) :
    (finalRows numPoints options calls baseRows)[source]? =
      if source < numPoints then
        some (((calls.flatMap (ViewLuneCall.rowSteps source)).foldl
          (RuntimeViewLuneRow.step options) RuntimeViewLuneRow.default).reduceRow options
            (RuntimeViewLuneAccumulator.baseRow baseRows source)).2
      else none := by
  obtain ⟨hrows, hoptions⟩ :=
    RuntimeViewLuneAccumulator.run_rows calls (.create numPoints options)
  rw [finalRows, RuntimeViewLuneAccumulator.reduceAllRows]
  dsimp only
  rw [List.getElem?_map, List.getElem?_mapIdx, hrows, hoptions, List.getElem?_mapIdx,
    RuntimeViewLuneAccumulator.create, List.getElem?_replicate]
  split_ifs <;> rfl

/-- A run whose writes do not show the maintenance ends as if there had been none. -/
theorem maintenance_transparent {numPoints : Nat} {options : ViewLunePruneOptions}
    {calls : List ViewLuneCall} (h : MaintenanceUnseen numPoints options calls)
    (baseRows : Option (List (List UInt32))) :
    finalRows numPoints options calls baseRows =
      finalRows numPoints options (calls.filter ViewLuneCall.isWrite) baseRows := by
  apply List.ext_getElem?
  intro source
  rw [getElem?_finalRows, getElem?_finalRows]
  split_ifs with hsource
  · have hend := (mirrors_default options.maxWitnessesPerVictim).steps (h source hsource)
      fun candidate hin => ViewLuneCall.number_of_mem_rowSteps hin
    rw [ViewLuneCall.rowSteps_filter,
      reduceRow_congr hend.placed hend.placed_plain hend.candidates hend.witnesses]
  · rfl

/-! ## A write after a reduction -/

/-- Room for two neighbors. -/
def twoNeighbors : ViewLunePruneOptions where
  maxDegree := 2
  candidateWidth := 2
  maxWitnessesPerVictim := 1
  nearestCore := 0
  maxDegree_pos := Nat.two_pos
  candidateWidth_ge := by decide
  candidateWidth_le := by decide
  maxWitnessesPerVictim_pos := Nat.one_pos
  maxWitnessesPerVictim_le := by decide
  nearestCore_le := by decide

/-- A direct edge from point 0. -/
def edgeFromZero (dst : UInt32) (dist : F32) : PendingEdge :=
  ⟨0, dst, 0, dist, false, 0, PENDING_EDGE_DIRECT⟩

/-- Points 5 and 3 at distances 1 and 2; then point 5 again, at distance 1/2. -/
def nearerAgain (between : List ViewLuneCall) : List ViewLuneCall :=
  [.writeEdges [edgeFromZero 5 ⟨0x3f800000⟩], .writeEdges [edgeFromZero 3 ⟨0x40000000⟩]] ++
    between ++ [.writeEdges [edgeFromZero 5 ⟨0x3f000000⟩]]

theorem rowSteps_edgeFromZero (dst : UInt32) (dist : F32) :
    (ViewLuneCall.writeEdges [edgeFromZero dst dist]).rowSteps 0 =
      [.candidate ⟨dst, dist.capped⟩] := by
  have hflag : PENDING_EDGE_DIRECT &&& PENDING_EDGE_DIRECT ≠ 0 := by decide
  have hcandidate : (edgeFromZero dst dist).isCandidate = true := decide_eq_true (.inl hflag)
  rw [ViewLuneCall.rowSteps, candidateUpdates_singleton, if_pos ⟨rfl, hcandidate⟩]
  rfl

theorem nearerAgain_rowSteps (between : List ViewLuneCall) :
    (nearerAgain between).flatMap (ViewLuneCall.rowSteps 0) =
      [.candidate ⟨5, ⟨0x3f800000⟩⟩, .candidate ⟨3, ⟨0x40000000⟩⟩] ++
        between.flatMap (ViewLuneCall.rowSteps 0) ++ [.candidate ⟨5, ⟨0x3f000000⟩⟩] := by
  rw [nearerAgain, List.flatMap_append, List.flatMap_append, List.flatMap_cons, List.flatMap_cons,
    List.flatMap_nil, List.flatMap_cons, List.flatMap_nil, rowSteps_edgeFromZero,
    rowSteps_edgeFromZero, rowSteps_edgeFromZero]
  rfl

/-- After a reduction point 5 is not found again, and takes the place of point 3. -/
theorem reduction_duplicates_neighbor : ¬ ∀ (numPoints : Nat) (options : ViewLunePruneOptions)
    (calls : List ViewLuneCall) (baseRows : Option (List (List UInt32))),
    (finalRows numPoints options calls baseRows).map ViewLuneRowOutput.neighbors =
      (finalRows numPoints options (calls.filter ViewLuneCall.isWrite) baseRows).map
        ViewLuneRowOutput.neighbors := by
  intro h
  have hrows := congrArg (fun rows => rows[0]?)
    (h 1 twoNeighbors (nearerAgain [.reduceAllRows none]) none)
  simp only [List.getElem?_map] at hrows
  rw [getElem?_finalRows, getElem?_finalRows, if_pos Nat.zero_lt_one, if_pos Nat.zero_lt_one,
    ViewLuneCall.rowSteps_filter, nearerAgain_rowSteps] at hrows
  exact absurd hrows (by decide)

/-- A reduction that leaves the candidates in order is not seen. -/
theorem maintenance_transparent_in_order :
    MaintenanceUnseen 1 twoNeighbors
        [.compactStorage, .writeEdges [edgeFromZero 5 ⟨0x3f800000⟩], .reduceAllRows none,
          .writeEdges [edgeFromZero 5 ⟨0x3f000000⟩]] ∧
      finalRows 1 twoNeighbors
          [.compactStorage, .writeEdges [edgeFromZero 5 ⟨0x3f800000⟩], .reduceAllRows none,
            .writeEdges [edgeFromZero 5 ⟨0x3f000000⟩]] none =
        finalRows 1 twoNeighbors
          ([.compactStorage, .writeEdges [edgeFromZero 5 ⟨0x3f800000⟩], .reduceAllRows none,
            .writeEdges [edgeFromZero 5 ⟨0x3f000000⟩]].filter ViewLuneCall.isWrite) none := by
  have hunseen : MaintenanceUnseen 1 twoNeighbors
      [.compactStorage, .writeEdges [edgeFromZero 5 ⟨0x3f800000⟩], .reduceAllRows none,
        .writeEdges [edgeFromZero 5 ⟨0x3f000000⟩]] := by
    intro source hsource
    obtain rfl : source = 0 := Nat.lt_one_iff.mp hsource
    rw [List.flatMap_cons, List.flatMap_cons, List.flatMap_cons, List.flatMap_cons,
      List.flatMap_nil, rowSteps_edgeFromZero, rowSteps_edgeFromZero]
    refine ⟨?_, .nil, trivial, List.pairwise_singleton _ _, trivial⟩
    intro before row after heq
    cases before <;> cases heq
  exact ⟨hunseen, maintenance_transparent hunseen none⟩

end ForgeANN
