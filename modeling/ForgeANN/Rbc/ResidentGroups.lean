-- SUMMARY: Resident subtree groups: child runs packed in order, under a byte budget and a bound on the leaves.
import ForgeANN.Gather.Bounded
import ForgeANN.Lib.Saturating
import ForgeANN.Lib.StableTop
import ForgeANN.Rbc.ChildRuns
import Mathlib.Algebra.Order.BigOperators.Group.List
import Mathlib.Data.Finset.Dedup

/-!
# Resident subtree groups

Runs are packed into a pending group as long as its vectors fit the budget and
its points are those of few leaves. A group that is closed is tested again, and
where it fails its runs are handed to the levelwise path.
-/
namespace ForgeANN

open Lib

/-! ## Estimates -/

/-- What grouping uses of the settings. -/
structure D1ResidentSubtreeConfig where
  maxReadAmplification : Float
  maxWindowBytes : UInt64
  maxNativeExpectedLeaves : UInt64

def d1ResidentSubtreeVectorBytes (dim pointCount : UInt64) : UInt64 :=
  let rowBytes := (max dim 1).saturatingMul 4
  (max pointCount 1).saturatingMul rowBytes

def d1ResidentSubtreeEstimatedBytes (dim pointCount : UInt64) : UInt64 :=
  (d1ResidentSubtreeVectorBytes dim pointCount).saturatingAdd ((max pointCount 1).saturatingMul 4)

/-! ## Groups -/

/-- A run and its points. -/
abbrev RunPoints := ChildRun × List UInt32

structure D1ResidentSubtreeGroup where
  groupIndex : Nat
  pairs : List RunPoints
  uniqueIds : List UInt32
  sourceRuns : Nat
  selectedPoints : UInt64
  logicalBytes : Nat
  physicalBytes : Nat
  plannedWindows : Nat
  bufferRatio : Float
  residentBytes : UInt64
  expectedLeaves : UInt64

structure D1ResidentSubtreeGrouping where
  groups : List D1ResidentSubtreeGroup
  levelwisePairs : List RunPoints
  candidates : UInt64
  selectedRuns : UInt64
  rejectedRuns : UInt64

structure D1ResidentPendingGroup where
  pairs : List RunPoints
  uniqueSeen : Finset UInt32
  uniqueIds : List UInt32
  selectedPoints : UInt64
  expectedLeaves : UInt64

namespace D1ResidentPendingGroup

def new : D1ResidentPendingGroup := ⟨[], ∅, [], 0, 0⟩

variable (pending : D1ResidentPendingGroup)

def isEmpty : Bool := pending.pairs.isEmpty

def estimatedResidentBytesWith (additionalUnique dim : UInt64) : UInt64 :=
  d1ResidentSubtreeEstimatedBytes dim
    ((UInt64.ofNat pending.uniqueSeen.card).saturatingAdd additionalUnique)

def expectedLeavesWith (additionalPoints adaptiveCMax : UInt64) : UInt64 :=
  max ((pending.selectedPoints.saturatingAdd additionalPoints).divCeil (max adaptiveCMax 1)) 1

/-- `if self.unique_seen.insert(pid) { self.unique_ids.push(pid); }`. -/
def insertId (ids : Finset UInt32 × List UInt32) (pid : UInt32) : Finset UInt32 × List UInt32 :=
  if pid ∈ ids.1 then ids else (insert pid ids.1, ids.2 ++ [pid])

def push (run : RunPoints) (runUniqueIds : List UInt32) (adaptiveCMax : UInt64) :
    D1ResidentPendingGroup :=
  let selectedPoints := pending.selectedPoints.saturatingAdd (UInt64.ofNat run.2.length)
  let ids := runUniqueIds.foldl insertId (pending.uniqueSeen, pending.uniqueIds)
  { pairs := pending.pairs ++ [run]
    uniqueSeen := ids.1
    uniqueIds := ids.2
    selectedPoints
    expectedLeaves := max (selectedPoints.divCeil (max adaptiveCMax 1)) 1 }

/-- `buffer_ratio`. -/
def groupBufferRatio (logicalBytes physicalBytes : Nat) : Float :=
  if physicalBytes = 0 then 1.0 else asF64 logicalBytes / asF64 physicalBytes

/-- A group, or the runs again. -/
def intoGroupOrLevelwise (sort : RowSort) (groupIndex : Nat) (config : D1ResidentSubtreeConfig)
    (dim groupBudgetBytes : UInt64) : Except (List RunPoints) D1ResidentSubtreeGroup :=
  if pending.pairs = [] then .error []
  else
    let uniqueIds := pending.uniqueIds.mergeSort fun a b => a ≤ b
    let residentBytes := d1ResidentSubtreeEstimatedBytes dim (UInt64.ofNat uniqueIds.length)
    if groupBudgetBytes < residentBytes then .error pending.pairs
    else if config.maxNativeExpectedLeaves < pending.expectedLeaves then .error pending.pairs
    else
      let planner : BoundedReadPlanner := {
        rowBytes := ((max dim 1).saturatingMul 4).toNat
        maxWindowBytes := config.maxWindowBytes.toNat
        maxReadAmplification := config.maxReadAmplification }
      let plan := planner.plan sort uniqueIds
      .ok {
        groupIndex
        pairs := pending.pairs
        uniqueIds
        sourceRuns := pending.pairs.length
        selectedPoints := pending.selectedPoints
        logicalBytes := plan.logicalBytes
        physicalBytes := plan.physicalBytes
        plannedWindows := plan.windows.length
        bufferRatio := groupBufferRatio plan.logicalBytes plan.physicalBytes
        residentBytes
        expectedLeaves := max pending.expectedLeaves 4 }

end D1ResidentPendingGroup

/-! ## Grouping -/

/-- The variables of the loop. -/
structure GroupingState where
  groups : List D1ResidentSubtreeGroup
  levelwisePairs : List RunPoints
  candidates : UInt64
  selectedRuns : UInt64
  rejectedRuns : UInt64
  pending : D1ResidentPendingGroup

section

variable (sort : RowSort) (config : D1ResidentSubtreeConfig)
  (dim adaptiveCMax groupBudgetBytes : UInt64)

/-- `finalize_d1_resident_pending_group`, with a new pending group in its place. -/
def finalizeD1ResidentPendingGroup (state : GroupingState) : GroupingState :=
  if state.pending.isEmpty then { state with pending := .new }
  else
    match state.pending.intoGroupOrLevelwise sort state.groups.length config dim
        groupBudgetBytes with
    | .ok group => { state with groups := state.groups ++ [group], pending := .new }
    | .error pairs => { state with
        rejectedRuns := state.rejectedRuns.saturatingAdd (UInt64.ofNat state.pending.pairs.length)
        levelwisePairs := state.levelwisePairs ++ pairs
        pending := .new }

/-- The body of the loop. -/
def groupRun (state : GroupingState) (run : RunPoints) : GroupingState :=
  if run.2.isEmpty then state
  else
    let state := { state with candidates := state.candidates.saturatingAdd 1 }
    let runUniqueIds := sortDedup run.2
    let additionalUnique := UInt64.ofNat
      (runUniqueIds.countP fun pid => decide (pid ∉ state.pending.uniqueSeen))
    let runExpectedLeaves := max ((UInt64.ofNat run.2.length).divCeil (max adaptiveCMax 1)) 1
    if config.maxNativeExpectedLeaves < runExpectedLeaves then
      let state := if state.pending.isEmpty then state
        else finalizeD1ResidentPendingGroup sort config dim groupBudgetBytes state
      { state with
        selectedRuns := state.selectedRuns.saturatingAdd 1
        rejectedRuns := state.rejectedRuns.saturatingAdd 1
        levelwisePairs := state.levelwisePairs ++ [run] }
    else
      let projectedBytes := state.pending.estimatedResidentBytesWith additionalUnique dim
      let projectedExpectedLeaves :=
        state.pending.expectedLeavesWith (UInt64.ofNat run.2.length) adaptiveCMax
      let state := if !state.pending.isEmpty ∧ (groupBudgetBytes < projectedBytes ∨
          config.maxNativeExpectedLeaves < projectedExpectedLeaves) then
          finalizeD1ResidentPendingGroup sort config dim groupBudgetBytes state
        else state
      { state with
        selectedRuns := state.selectedRuns.saturatingAdd 1
        pending := state.pending.push run runUniqueIds adaptiveCMax }

def groupD1ResidentSubtreeInputsWithBudget (pairs : List RunPoints) : D1ResidentSubtreeGrouping :=
  let state := finalizeD1ResidentPendingGroup sort config dim groupBudgetBytes
    (pairs.foldl (groupRun sort config dim adaptiveCMax groupBudgetBytes) ⟨[], [], 0, 0, 0, .new⟩)
  { groups := state.groups
    levelwisePairs := state.levelwisePairs
    candidates := state.candidates
    selectedRuns := state.selectedRuns
    rejectedRuns := state.rejectedRuns }

end

/-! ## What a group is -/

/-- The number of points of some runs. -/
def pointCount (pairs : List RunPoints) : Nat := (pairs.map fun run => run.2.length).sum

/-- The pending group's totals are those of its runs. -/
structure PendingTotals (adaptiveCMax : UInt64) (pending : D1ResidentPendingGroup) : Prop where
  seen : pending.uniqueSeen = pending.uniqueIds.toFinset
  nodup : pending.uniqueIds.Nodup
  ids : ∀ id, id ∈ pending.uniqueIds ↔ ∃ run ∈ pending.pairs, id ∈ run.2
  points : pending.selectedPoints.Capped (pointCount pending.pairs)
  leaves : pending.pairs ≠ [] →
    pending.expectedLeaves = max (pending.selectedPoints.divCeil (max adaptiveCMax 1)) 1

/-- A closed group: its ids are the union of its runs' ids, in order, and it is within both limits. -/
structure GroupWithin (config : D1ResidentSubtreeConfig) (dim adaptiveCMax groupBudgetBytes : UInt64)
    (group : D1ResidentSubtreeGroup) : Prop where
  nonempty : group.pairs ≠ []
  sorted : group.uniqueIds.Pairwise (· < ·)
  ids : ∀ id, id ∈ group.uniqueIds ↔ ∃ run ∈ group.pairs, id ∈ run.2
  points : group.selectedPoints.Capped (pointCount group.pairs)
  bytes : group.residentBytes =
    d1ResidentSubtreeEstimatedBytes dim (UInt64.ofNat group.uniqueIds.length)
  budget : group.residentBytes ≤ groupBudgetBytes
  leaves : group.selectedPoints.divCeil (max adaptiveCMax 1) ≤ config.maxNativeExpectedLeaves

section

variable {sort : RowSort} {config : D1ResidentSubtreeConfig}
  {dim adaptiveCMax groupBudgetBytes : UInt64} {pending : D1ResidentPendingGroup}
  {group : D1ResidentSubtreeGroup} {state : GroupingState} {done rejected : List RunPoints}
  {run : RunPoints} {groupIndex : Nat}

theorem PendingTotals.new (adaptiveCMax : UInt64) : PendingTotals adaptiveCMax .new where
  seen := rfl
  nodup := List.nodup_nil
  ids id := by simp [D1ResidentPendingGroup.new]
  points := rfl
  leaves h := absurd rfl h

/-- Ids are added once. -/
theorem insertIds (newIds : List UInt32) {seen : Finset UInt32} {ids : List UInt32}
    (hseen : seen = ids.toFinset) (hnodup : ids.Nodup) :
    let after := newIds.foldl D1ResidentPendingGroup.insertId (seen, ids)
    after.1 = after.2.toFinset ∧ after.2.Nodup ∧ ∀ id, id ∈ after.2 ↔ id ∈ ids ∨ id ∈ newIds := by
  induction newIds generalizing seen ids with
  | nil => exact ⟨hseen, hnodup, fun id => by simp⟩
  | cons pid newIds ih =>
      rw [List.foldl_cons, D1ResidentPendingGroup.insertId]
      split_ifs with hmem
      · obtain ⟨hset, hnd, hids⟩ := ih hseen hnodup
        refine ⟨hset, hnd, fun id => (hids id).trans ?_⟩
        rw [hseen, List.mem_toFinset] at hmem
        rw [List.mem_cons]
        constructor
        · rintro (h | h)
          · exact .inl h
          · exact .inr (.inr h)
        · rintro (h | rfl | h)
          · exact .inl h
          · exact .inl hmem
          · exact .inr h
      · have hnew : pid ∉ ids := by
          rw [hseen, List.mem_toFinset] at hmem
          exact hmem
        have hset' : insert pid seen = (ids ++ [pid]).toFinset := by
          ext id
          simp [hseen]
        have hnodup' : (ids ++ [pid]).Nodup :=
          List.nodup_append.mpr ⟨hnodup, List.nodup_singleton pid, by
            intro a ha b hb heq
            rw [List.mem_singleton] at hb
            exact hnew (hb ▸ heq ▸ ha)⟩
        obtain ⟨hset, hnd, hids⟩ := ih hset' hnodup'
        refine ⟨hset, hnd, fun id => (hids id).trans ?_⟩
        rw [List.mem_append, List.mem_singleton, List.mem_cons, or_assoc]

theorem PendingTotals.push (h : PendingTotals adaptiveCMax pending) (hlen : run.2.length < 2 ^ 64) :
    PendingTotals adaptiveCMax (pending.push run (sortDedup run.2) adaptiveCMax) := by
  obtain ⟨hseen, hnodup, hids⟩ := insertIds (sortDedup run.2) h.seen h.nodup
  refine ⟨hseen, hnodup, fun id => (hids id).trans ?_, ?_, fun _ => rfl⟩
  · rw [h.ids, mem_sortDedup, D1ResidentPendingGroup.push]
    simp only [List.mem_append, List.mem_singleton]
    constructor
    · rintro (⟨other, hother, hid⟩ | hid)
      · exact ⟨other, .inl hother, hid⟩
      · exact ⟨run, .inr rfl, hid⟩
    · rintro ⟨other, hother | rfl, hid⟩
      · exact .inl ⟨other, hother, hid⟩
      · exact .inr hid
  · have hrun : (UInt64.ofNat run.2.length).Capped run.2.length := by
      rw [UInt64.Capped, UInt64.toNat_ofNat_of_lt' hlen, Nat.min_eq_left]
      exact Nat.le_pred_of_lt hlen
    have hsum := h.points.add hrun
    rw [pointCount, D1ResidentPendingGroup.push, List.map_append, List.sum_append, ← pointCount]
    simpa using hsum

theorem intoGroup_ok (h : PendingTotals adaptiveCMax pending)
    (hok : pending.intoGroupOrLevelwise sort groupIndex config dim groupBudgetBytes = .ok group) :
    GroupWithin config dim adaptiveCMax groupBudgetBytes group ∧ group.pairs = pending.pairs ∧
      group.groupIndex = groupIndex := by
  rw [D1ResidentPendingGroup.intoGroupOrLevelwise] at hok
  dsimp only at hok
  split_ifs at hok with hempty hbytes hleaves
  cases hok
  have hperm := List.mergeSort_perm pending.uniqueIds fun a b => decide (a ≤ b)
  refine ⟨⟨hempty, ?_, ?_, h.points, rfl, UInt64.not_lt.mp hbytes, ?_⟩, rfl, rfl⟩
  · have hle : (pending.uniqueIds.mergeSort fun a b => decide (a ≤ b)).Pairwise (· ≤ ·) :=
      (List.pairwise_mergeSort (le_trans_decide id) (le_total_decide id) _).imp of_decide_eq_true
    exact (hle.and (hperm.nodup_iff.mpr h.nodup)).imp fun ⟨hab, hne⟩ => lt_of_le_of_ne hab hne
  · exact fun id => (hperm.mem_iff).trans (h.ids id)
  · rw [h.leaves hempty, UInt64.not_lt] at hleaves
    rw [UInt64.le_iff_toNat_le, UInt64.toNat_max] at hleaves
    exact UInt64.le_iff_toNat_le.mpr (le_trans (le_max_left _ _) hleaves)

theorem intoGroup_error
    (herr : pending.intoGroupOrLevelwise sort groupIndex config dim groupBudgetBytes =
      .error rejected) : rejected = pending.pairs := by
  rw [D1ResidentPendingGroup.intoGroupOrLevelwise] at herr
  dsimp only at herr
  split_ifs at herr with hempty <;> cases herr
  · exact hempty.symm
  · rfl
  · rfl

/-! ## The loop -/

/-- All runs of some groups. -/
def groupedPairs (groups : List D1ResidentSubtreeGroup) : List RunPoints :=
  groups.flatMap fun group => group.pairs

variable (config dim adaptiveCMax groupBudgetBytes) in
/-- Of the runs so far every one that has points is in a group, pending, or left to the levelwise
path; the runs of the groups, and behind them the pending ones, are in order. -/
structure Grouped (done : List RunPoints) (state : GroupingState) : Prop where
  partition : (groupedPairs state.groups ++ state.pending.pairs ++ state.levelwisePairs).Perm
    (done.filter fun run => !run.2.isEmpty)
  order : (groupedPairs state.groups ++ state.pending.pairs).Sublist done
  indices : state.groups.map (fun group => group.groupIndex) = List.range state.groups.length
  groups : ∀ group ∈ state.groups, GroupWithin config dim adaptiveCMax groupBudgetBytes group
  pending : PendingTotals adaptiveCMax state.pending

theorem Grouped.initial : Grouped config dim adaptiveCMax groupBudgetBytes [] ⟨[], [], 0, 0, 0, .new⟩ where
  partition := .nil
  order := .slnil
  indices := rfl
  groups _ h := nomatch h
  pending := .new adaptiveCMax

/-- Closing the pending group loses no run, and leaves none pending. -/
theorem Grouped.finalize (sort : RowSort) (h : Grouped config dim adaptiveCMax groupBudgetBytes done state) :
    Grouped config dim adaptiveCMax groupBudgetBytes done
        (finalizeD1ResidentPendingGroup sort config dim groupBudgetBytes state) ∧
      (finalizeD1ResidentPendingGroup sort config dim groupBudgetBytes state).pending = .new := by
  have hnil : D1ResidentPendingGroup.new.pairs = [] := rfl
  rw [finalizeD1ResidentPendingGroup]
  split_ifs with hempty
  · have hpairs : state.pending.pairs = [] := List.isEmpty_iff.mp hempty
    have hpartition := h.partition
    have horder := h.order
    rw [hpairs] at hpartition horder
    exact ⟨⟨hpartition, horder, h.indices, h.groups, .new adaptiveCMax⟩, rfl⟩
  · cases hinto : state.pending.intoGroupOrLevelwise sort state.groups.length config dim
        groupBudgetBytes with
    | ok group =>
        obtain ⟨hwithin, hpairs, hindex⟩ := intoGroup_ok h.pending hinto
        refine ⟨⟨?_, ?_, ?_, ?_, .new adaptiveCMax⟩, rfl⟩
        · have hpartition := h.partition
          rw [← hpairs] at hpartition
          simpa [groupedPairs, hnil] using hpartition
        · have horder := h.order
          rw [← hpairs] at horder
          simpa [groupedPairs, hnil] using horder
        · rw [List.map_append, h.indices, List.length_append, List.length_singleton, List.range_succ,
            List.map_singleton, hindex]
        · intro other hother
          rcases List.mem_append.mp hother with hold | hnew
          · exact h.groups other hold
          · rwa [List.mem_singleton.mp hnew]
    | error pairs =>
        have hpairs := intoGroup_error hinto
        subst hpairs
        refine ⟨⟨?_, ?_, h.indices, h.groups, .new adaptiveCMax⟩, rfl⟩
        · dsimp only
          rw [hnil, List.append_nil]
          refine List.Perm.trans ?_ h.partition
          rw [List.append_assoc]
          exact List.perm_append_comm.append_left _
        · dsimp only
          rw [hnil, List.append_nil]
          exact (List.sublist_append_left _ _).trans h.order

/-- A run that is added to the pending group. -/
theorem Grouped.push (h : Grouped config dim adaptiveCMax groupBudgetBytes done state)
    (hne : run.2 ≠ []) (hlen : run.2.length < 2 ^ 64) :
    Grouped config dim adaptiveCMax groupBudgetBytes (done ++ [run]) { state with
      pending := state.pending.push run (sortDedup run.2) adaptiveCMax } := by
  have hpush : (state.pending.push run (sortDedup run.2) adaptiveCMax).pairs =
      state.pending.pairs ++ [run] := rfl
  have hfilter : ([run].filter fun run => !run.2.isEmpty) = [run] := by simp [hne]
  refine ⟨?_, ?_, h.indices, h.groups, h.pending.push hlen⟩
  · rw [List.filter_append, hfilter]
    dsimp only
    rw [hpush, ← List.append_assoc, List.append_assoc _ [run]]
    refine (List.perm_append_comm.append_left _).trans ?_
    rw [← List.append_assoc]
    exact h.partition.append_right [run]
  · dsimp only
    rw [hpush, ← List.append_assoc]
    exact h.order.append (.refl [run])

/-- A run that is left to the levelwise path, with no group pending. -/
theorem Grouped.levelwise (h : Grouped config dim adaptiveCMax groupBudgetBytes done state)
    (hne : run.2 ≠ []) :
    Grouped config dim adaptiveCMax groupBudgetBytes (done ++ [run]) { state with
      levelwisePairs := state.levelwisePairs ++ [run] } := by
  have hfilter : ([run].filter fun run => !run.2.isEmpty) = [run] := by simp [hne]
  refine ⟨?_, h.order.trans (List.sublist_append_left _ _), h.indices, h.groups, h.pending⟩
  rw [List.filter_append, hfilter]
  dsimp only
  rw [← List.append_assoc]
  exact h.partition.append_right [run]

/-- A run without points is passed over. -/
theorem Grouped.skip (h : Grouped config dim adaptiveCMax groupBudgetBytes done state)
    (hempty : run.2.isEmpty) : Grouped config dim adaptiveCMax groupBudgetBytes (done ++ [run]) state := by
  refine ⟨?_, h.order.trans (List.sublist_append_left _ _), h.indices, h.groups, h.pending⟩
  rw [List.filter_append, List.filter_singleton, hempty]
  simpa using h.partition

/-- The counters play no part. -/
theorem Grouped.counters (h : Grouped config dim adaptiveCMax groupBudgetBytes done state)
    (candidates selectedRuns rejectedRuns : UInt64) :
    Grouped config dim adaptiveCMax groupBudgetBytes done
      { state with candidates, selectedRuns, rejectedRuns } :=
  ⟨h.partition, h.order, h.indices, h.groups, h.pending⟩

variable (sort) in
theorem Grouped.next (h : Grouped config dim adaptiveCMax groupBudgetBytes done state)
    (hlen : run.2.length < 2 ^ 64) :
    Grouped config dim adaptiveCMax groupBudgetBytes (done ++ [run])
      (groupRun sort config dim adaptiveCMax groupBudgetBytes state run) := by
  rw [groupRun]
  split_ifs with hempty
  · exact h.skip hempty
  · have hne : run.2 ≠ [] := fun heq => hempty (List.isEmpty_iff.mpr heq)
    have hcounted := h.counters (state.candidates.saturatingAdd 1) state.selectedRuns state.rejectedRuns
    dsimp only
    split_ifs
    · exact (hcounted.levelwise hne).counters _ _ _
    · exact ((hcounted.finalize sort).1.levelwise hne).counters _ _ _
    · exact ((hcounted.finalize sort).1.push hne hlen).counters _ _ _
    · exact (hcounted.push hne hlen).counters _ _ _

variable (sort) in
theorem Grouped.foldl (runs : List RunPoints) (hlen : ∀ run ∈ runs, run.2.length < 2 ^ 64)
    (h : Grouped config dim adaptiveCMax groupBudgetBytes done state) :
    Grouped config dim adaptiveCMax groupBudgetBytes (done ++ runs)
      (runs.foldl (groupRun sort config dim adaptiveCMax groupBudgetBytes) state) := by
  induction runs generalizing done state with
  | nil => rwa [List.append_nil]
  | cons run runs ih =>
      have hnext := ih (fun other hother => hlen other (List.mem_cons_of_mem _ hother))
        (h.next sort (hlen run List.mem_cons_self))
      rwa [List.append_assoc] at hnext

end

/-! ## The groups as a partition -/

/-- Runs with their points, all of them in memory. -/
structure DrainedRuns where
  pairs : List RunPoints
  inMemory : pointCount pairs * 4 < 2 ^ 64

theorem pointCount_le {pairs more : List RunPoints} (h : pairs.Sublist more) :
    pointCount pairs ≤ pointCount more := (h.map _).sum_le_sum fun _ _ => Nat.zero_le _

theorem length_le_pointCount {pairs : List RunPoints} {run : RunPoints} (h : run ∈ pairs) :
    run.2.length ≤ pointCount pairs := by
  have hle := pointCount_le (List.singleton_sublist.mpr h)
  simpa [pointCount] using hle

/-- What a grouping is to be: every run with points once, in a group or on its own, the groups in
the order of the runs and numbered from 0, and each of them within the budget and the leaves. -/
structure BudgetedPartition (config : D1ResidentSubtreeConfig)
    (dim adaptiveCMax groupBudgetBytes : UInt64) (pairs : List RunPoints)
    (grouping : D1ResidentSubtreeGrouping) : Prop where
  partition : (groupedPairs grouping.groups ++ grouping.levelwisePairs).Perm
    (pairs.filter fun run => !run.2.isEmpty)
  order : (groupedPairs grouping.groups).Sublist pairs
  indices : grouping.groups.map (fun group => group.groupIndex) =
    List.range grouping.groups.length
  nonempty : ∀ group ∈ grouping.groups, group.pairs ≠ []
  uniqueIds : ∀ group ∈ grouping.groups, group.uniqueIds.Pairwise (· < ·) ∧
    ∀ id, id ∈ group.uniqueIds ↔ ∃ run ∈ group.pairs, id ∈ run.2
  residentBytes : ∀ group ∈ grouping.groups, group.residentBytes =
      d1ResidentSubtreeEstimatedBytes dim (UInt64.ofNat group.uniqueIds.length) ∧
    group.residentBytes ≤ groupBudgetBytes
  expectedLeaves : ∀ group ∈ grouping.groups,
    divCeil (pointCount group.pairs) (max adaptiveCMax.toNat 1) ≤
      config.maxNativeExpectedLeaves.toNat

/-- Grouping is a budgeted partition of the runs. -/
theorem group_budgetedPartition (sort : RowSort) (config : D1ResidentSubtreeConfig)
    (dim adaptiveCMax groupBudgetBytes : UInt64) (runs : DrainedRuns) :
    BudgetedPartition config dim adaptiveCMax groupBudgetBytes runs.pairs
      (groupD1ResidentSubtreeInputsWithBudget sort config dim adaptiveCMax groupBudgetBytes
        runs.pairs) := by
  have hmemory := runs.inMemory
  have hlen : ∀ run ∈ runs.pairs, run.2.length < 2 ^ 64 := by
    intro run hrun
    have hle := length_le_pointCount hrun
    omega
  have hloop : Grouped config dim adaptiveCMax groupBudgetBytes ([] ++ runs.pairs) _ :=
    Grouped.foldl sort runs.pairs hlen .initial
  obtain ⟨hfinal, hpending⟩ := hloop.finalize sort
  have hnil : D1ResidentPendingGroup.new.pairs = [] := rfl
  have hpartition := hfinal.partition
  have horder := hfinal.order
  rw [hpending, hnil, List.append_nil] at hpartition horder
  refine ⟨hpartition, horder, hfinal.indices, ?_, ?_, ?_, ?_⟩
  · exact fun group hgroup => (hfinal.groups group hgroup).nonempty
  · exact fun group hgroup => ⟨(hfinal.groups group hgroup).sorted, (hfinal.groups group hgroup).ids⟩
  · exact fun group hgroup => ⟨(hfinal.groups group hgroup).bytes, (hfinal.groups group hgroup).budget⟩
  · intro group hgroup
    have hwithin := hfinal.groups group hgroup
    have hsub : group.pairs.Sublist runs.pairs :=
      (List.sublist_flatten_of_mem (List.mem_map_of_mem hgroup)).trans
        (List.flatMap_def ▸ horder)
    have hle := pointCount_le hsub
    have hpoints : group.selectedPoints.toNat = pointCount group.pairs :=
      hwithin.points.eq_of_le (by rw [UInt64.maxNat]; omega)
    have hleaves := UInt64.le_iff_toNat_le.mp hwithin.leaves
    have hone : (1 : UInt64).toNat = 1 := rfl
    rw [UInt64.toNat_divCeil _ (by rw [UInt64.toNat_max, hone]; omega), UInt64.toNat_max, hone,
      hpoints] at hleaves
    exact hleaves

theorem threePoints_inMemory (run run' : ChildRun) :
    pointCount [(run, [1, 2]), (run', [2])] * 4 < 2 ^ 64 := by
  have hcount : pointCount [(run, [1, 2]), (run', [2])] = 3 := rfl
  rw [hcount]
  decide

/-- Two runs with a point in common. -/
def threePoints : DrainedRuns where
  pairs := [(⟨[⟨0, 2⟩], 2, 0⟩, [1, 2]), (⟨[⟨8, 1⟩], 1, 0⟩, [2])]
  inMemory := threePoints_inMemory _ _

theorem group_budgetedPartition_three :
    let config : D1ResidentSubtreeConfig := ⟨2.0, 1048576, 16⟩
    BudgetedPartition config 4 2 4096 threePoints.pairs
      (groupD1ResidentSubtreeInputsWithBudget (.byKey GatherRow.rowId) config 4 2 4096
        threePoints.pairs) :=
  group_budgetedPartition (.byKey GatherRow.rowId) ⟨2.0, 1048576, 16⟩ 4 2 4096 threePoints

end ForgeANN
