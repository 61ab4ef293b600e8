-- SUMMARY: Spilling in memory and spilling to disk feed the points' reservoirs the same edges.
import ForgeANN.Spill.Lossless
import ForgeANN.Spill.MemoryHeld

/-!
# Memory and disk agree

The two sinks cut a shard's edges into different segments, and their reducers
go over the segments in different ways. Both emit one callback a point, from a
reservoir that was fed the point's flushed edges.
-/
namespace ForgeANN

open Lib

/-! ## One group -/

/-- The segment with its records sorted. -/
def InMemorySpillChoices.resort (choices : InMemorySpillChoices) (segment : InMemorySpillSegment) :
    InMemorySpillSegment :=
  { segment with records := choices.sortRecords.sort segment.records }

/-- The edges of a segment, in order. -/
def InMemorySpillSegment.edges (segment : InMemorySpillSegment) : List PendingEdge :=
  segment.records.map SpillRecord16.toPendingEdge

namespace GroupRange

variable {r : GroupRange}

/-- The records of one segment, those before the range included: none of them is of its points. -/
theorem OneChunk.reduceRecords_filled (h : r.OneChunk) {records : List SpillRecord16}
    (hp : ∀ record ∈ records, r.inside record.toPendingEdge = true) (before : List PendingEdge) :
    r.reduceRecords (r.filled before) records =
      pure (r.filled (before ++ records.map SpillRecord16.toPendingEdge)) := by
  induction records generalizing before with
  | nil =>
      rw [reduceRecords, List.map_nil, List.append_nil]
  | cons record records ih =>
      have hrest := ih (fun other hother => hp other (List.mem_cons_of_mem _ hother))
        (before ++ [record.toPendingEdge])
      have hinside : record.toPendingEdge.p < r.pointEnd :=
        of_decide_eq_true (hp record List.mem_cons_self)
      rw [List.append_assoc, List.singleton_append] at hrest
      rw [reduceRecords, List.map_cons]
      by_cases hbefore : record.toPendingEdge.p < r.pointStart
      · rw [if_pos hbefore, ← hrest, filled, filled, slab_concat_of_lt hbefore]
      · have hadvance : r.advanceInMemory record.toPendingEdge.p (r.filled before) =
            pure (r.filled before) := by
          have hlt : record.toPendingEdge.p < r.chunkEnd (r.filled before).chunkStart := by
            rw [filled, h.chunkEnd_eq]
            exact hinside
          rw [advanceInMemory, if_pos hlt]
        have hfilled : insertEdge record.toPendingEdge (r.filled before) =
            r.filled (before ++ [record.toPendingEdge]) := by
          rw [filled, filled, slab_concat (Nat.not_lt.mp hbefore)]
          rfl
        have hahead : ¬ record.toPendingEdge.p < (r.filled before).chunkStart := hbefore
        rw [if_neg hbefore, if_neg (Nat.not_le.mpr hinside), hadvance, pure_bind, if_neg hahead,
          hfilled, hrest]

theorem OneChunk.reduceInMemory_eq (h : r.OneChunk) {segments : List InMemorySpillSegment}
    (hp : ∀ edge ∈ segments.flatMap InMemorySpillSegment.edges, r.inside edge = true) :
    r.reduceInMemory segments =
      Emission.emit (r.callbacks (segments.flatMap InMemorySpillSegment.edges)) := by
  have hfold : ∀ before, segments.foldlM
      (fun state segment => r.reduceRecords state segment.records) (r.filled before) =
      pure (r.filled (before ++ segments.flatMap InMemorySpillSegment.edges)) := by
    induction segments with
    | nil =>
        intro before
        rw [List.foldlM_nil, List.flatMap_nil, List.append_nil]
    | cons segment segments ih =>
        intro before
        rw [List.flatMap_cons] at hp ⊢
        rw [List.foldlM_cons, h.reduceRecords_filled, pure_bind, ih, List.append_assoc]
        · rfl
        · exact fun edge hedge => hp edge (List.mem_append_right _ hedge)
        · exact fun record hrecord =>
            hp _ (List.mem_append_left _ (List.mem_map_of_mem hrecord))
  rw [reduceInMemory, h.firstChunk_eq, hfold, pure_bind, h.emitRest_filled, List.nil_append]

end GroupRange

/-! ## What the in-memory reducer reads -/

namespace InMemorySpillArtifacts

/-- The edges of a group, in the order in which the reducer reads them. -/
def groupEdges (choices : InMemorySpillChoices) (group : InMemoryGroup) : List PendingEdge :=
  (choices.sortGroup.sort (group.items.map choices.resort)).flatMap InMemorySpillSegment.edges

/-- All edges, in the order in which the reducer would read them. -/
def readEdges (artifacts : InMemorySpillArtifacts) (choices : InMemorySpillChoices) :
    List PendingEdge :=
  (artifacts.groups choices).flatMap (groupEdges choices)

section

variable {artifacts : InMemorySpillArtifacts} {edges : List PendingEdge}
  (choices : InMemorySpillChoices)

theorem groupEdges_perm (group : InMemoryGroup) :
    (groupEdges choices group).Perm (group.items.flatMap InMemorySpillSegment.edges) := by
  apply ((choices.sortGroup.perm _).flatMap_right _).trans
  rw [List.flatMap_map]
  apply List.Perm.flatMap_left
  intro segment _
  exact (choices.sortRecords.perm segment.records).map _

theorem readEdges_perm_segments : (artifacts.readEdges choices).Perm
    (artifacts.segments.flatMap InMemorySpillSegment.edges) := by
  have hgroups : (artifacts.groups choices).flatMap GreedyRun.items =
      choices.sortSegments.sort artifacts.segments := flatMap_keyRuns _
  have hsorted : (artifacts.readEdges choices).Perm
      ((choices.sortSegments.sort artifacts.segments).flatMap InMemorySpillSegment.edges) := by
    rw [← hgroups, List.flatMap_assoc]
    exact List.Perm.flatMap_left _ fun group _ => groupEdges_perm choices group
  exact hsorted.trans ((choices.sortSegments.perm _).flatMap_right _)

theorem mem_groupEdges {group : InMemoryGroup} {edge : PendingEdge} :
    edge ∈ groupEdges choices group ↔
      ∃ segment ∈ group.items, ∃ record ∈ segment.records, record.toPendingEdge = edge := by
  rw [(groupEdges_perm choices group).mem_iff, List.mem_flatMap]
  exact exists_congr fun segment => and_congr_right fun _ => List.mem_map

/-- The groups are the shards, in order. -/
theorem groups_pairwise :
    (artifacts.groups choices).Pairwise fun a b => a.state < b.state :=
  keyRuns_pairwise ((choices.sortSegments.sorted _).imp fun h => Prod.Lex.monotone_fst _ _ h)

theorem groups_nodup : ((artifacts.groups choices).map GreedyRun.state).Nodup :=
  List.pairwise_map.mpr ((groups_pairwise choices).imp Nat.ne_of_lt)

theorem mem_segments {group : InMemoryGroup} (hgroup : group ∈ artifacts.groups choices)
    {segment : InMemorySpillSegment} (hsegment : segment ∈ group.items) :
    segment ∈ artifacts.segments ∧ segment.shardId = group.state :=
  ⟨(choices.sortSegments.perm _).mem_iff.mp ((items_sublist hgroup).subset hsegment),
    key_of_mem_keyRuns hgroup hsegment⟩

theorem Holds.records_all (h : artifacts.Holds edges) :
    (artifacts.segments.flatMap InMemorySpillSegment.records).Perm
      (edges.map PendingEdge.record) := by
  let keys := sortDedup (artifacts.segments.map InMemorySpillSegment.shardId ++
    edges.map fun edge => edge.p / artifacts.shardPoints)
  have hnodup : keys.Nodup := sortDedup_nodup _
  have hsegments := perm_flatMap_filter InMemorySpillSegment.shardId hnodup
    fun segment (hsegment : segment ∈ artifacts.segments) =>
      mem_sortDedup.mpr (List.mem_append_left _ (List.mem_map_of_mem hsegment))
  have hedges := perm_flatMap_filter (fun edge : PendingEdge => edge.p / artifacts.shardPoints)
    hnodup fun edge (hedge : edge ∈ edges) =>
      mem_sortDedup.mpr (List.mem_append_right _ (List.mem_map.mpr ⟨edge, hedge, rfl⟩))
  apply ((hsegments.flatMap_right _).symm).trans
  apply List.Perm.trans _ (hedges.map PendingEdge.record)
  rw [List.flatMap_assoc, List.map_flatMap]
  exact List.Perm.flatMap_left _ fun shardId _ => h.records shardId

/-- Every edge is read once. -/
theorem Holds.readEdges_perm (h : artifacts.Holds edges) (hp : ∀ edge ∈ edges, edge.p < 2 ^ 32) :
    (artifacts.readEdges choices).Perm (edges.map PendingEdge.spilled) := by
  apply (readEdges_perm_segments choices).trans
  have hmap := h.records_all.map SpillRecord16.toPendingEdge
  rw [List.map_flatMap, List.map_map] at hmap
  apply hmap.trans
  apply List.Perm.of_eq
  apply List.map_congr_left
  intro edge hedge
  exact toPendingEdge_record (hp edge hedge)

theorem Holds.record_of_mem (h : artifacts.Holds edges) (hp : ∀ edge ∈ edges, edge.p < 2 ^ 32)
    {segment : InMemorySpillSegment} (hsegment : segment ∈ artifacts.segments)
    {record : SpillRecord16} (hrecord : record ∈ segment.records) :
    ∃ edge ∈ edges, edge.p / artifacts.shardPoints = segment.shardId ∧
      record.toPendingEdge = edge.spilled := by
  have hmem : record ∈ segmentRecords artifacts.segments segment.shardId :=
    List.mem_flatMap.mpr ⟨segment, List.mem_filter.mpr ⟨hsegment, by simp⟩, hrecord⟩
  obtain ⟨edge, hedge, rfl⟩ := List.mem_map.mp ((h.records _).mem_iff.mp hmem)
  obtain ⟨hedge, hshard⟩ := List.mem_filter.mp hedge
  exact ⟨edge, hedge, of_decide_eq_true hshard, toPendingEdge_record (hp edge hedge)⟩

end

/-! ## The groups cover the points -/

/-- Where a group's shard starts, and where it ends. -/
def shardStart (shardPoints : Nat) (group : InMemoryGroup) : Nat := group.state * shardPoints

def shardEnd (numPoints shardPoints : Nat) (group : InMemoryGroup) : Nat :=
  min (group.state * shardPoints + shardPoints) numPoints

section

variable {artifacts : InMemorySpillArtifacts} {edges : List PendingEdge} {numPoints : Nat}
  (choices : InMemorySpillChoices) {group : InMemoryGroup}

/-- The edges of a group are those of its shard. -/
theorem Holds.inside (h : artifacts.Holds edges) (hp : ∀ edge ∈ edges, edge.p < 2 ^ 32)
    (hn : ∀ edge ∈ edges, edge.p < numPoints) (hgroup : group ∈ artifacts.groups choices)
    {segment : InMemorySpillSegment} (hsegment : segment ∈ group.items) {record : SpillRecord16}
    (hrecord : record ∈ segment.records) :
    shardStart artifacts.shardPoints group ≤ record.toPendingEdge.p ∧
      record.toPendingEdge.p < shardEnd numPoints artifacts.shardPoints group := by
  obtain ⟨hmem, hstate⟩ := mem_segments choices hgroup hsegment
  obtain ⟨edge, hedge, hshard, heq⟩ := h.record_of_mem hp hmem hrecord
  have hrange := (Nat.div_eq_iff h.shardPoints_pos).mp (hshard.trans hstate)
  have hlt : edge.p < numPoints := hn edge hedge
  have hpos := h.shardPoints_pos
  have hspilled : record.toPendingEdge.p = edge.p := by
    rw [heq]
    rfl
  rw [hspilled, shardStart, shardEnd]
  omega

theorem Holds.arrivals_group (h : artifacts.Holds edges) (hp : ∀ edge ∈ edges, edge.p < 2 ^ 32)
    (hgroup : group ∈ artifacts.groups choices) {point : Nat}
    (hpoint : point / artifacts.shardPoints = group.state) :
    arrivals (groupEdges choices group) point = arrivals (artifacts.readEdges choices) point := by
  rw [readEdges, arrivals, arrivals, List.filter_flatMap]
  symm
  apply flatMap_eq_of_unique ((groups_pairwise choices).imp fun hlt heq => ?_) hgroup
  · intro other hother hne
    apply List.filter_eq_nil_iff.mpr
    intro edge hedge heq
    obtain ⟨segment, hsegment, record, hrecord, rfl⟩ := (mem_groupEdges choices).mp hedge
    obtain ⟨hmem, hstate⟩ := mem_segments choices hother hsegment
    obtain ⟨original, -, hshard, hspilled⟩ := h.record_of_mem hp hmem hrecord
    have hsame : original.p = point := by
      rw [← of_decide_eq_true heq, hspilled]
      rfl
    have hstates : other.state = group.state := by rw [← hstate, ← hshard, hsame, hpoint]
    exact hne (List.inj_on_of_nodup_map (groups_nodup choices) hother hgroup hstates)
  · exact Nat.lt_irrefl _ (heq ▸ hlt)

/-- A group feeds its points' reservoirs, and nothing strays from the shard. -/
theorem Holds.reduceGroup (h : artifacts.Holds edges) (hp : ∀ edge ∈ edges, edge.p < 2 ^ 32)
    (hn : ∀ edge ∈ edges, edge.p < numPoints) (hgroup : group ∈ artifacts.groups choices)
    {lMax groupStart : Nat} (hl : 0 < lMax)
    (hstart : shardStart artifacts.shardPoints group ≤ groupStart)
    (hlt : groupStart < shardEnd numPoints artifacts.shardPoints group) :
    reduceInMemorySegmentGroupInRange choices groupStart
        (shardEnd numPoints artifacts.shardPoints group) lMax artifacts.shardPoints group.items =
      Emission.emit (pointCallbacks lMax hl (artifacts.readEdges choices) groupStart
        (shardEnd numPoints artifacts.shardPoints group)) := by
  have hpos := h.shardPoints_pos
  have hchunk : shardEnd numPoints artifacts.shardPoints group ≤
      groupStart + artifacts.shardPoints := by
    rw [shardStart] at hstart
    rw [shardEnd]
    omega
  let r : GroupRange := ⟨groupStart, shardEnd numPoints artifacts.shardPoints group,
    max (min (max artifacts.shardPoints 1)
      (max (shardEnd numPoints artifacts.shardPoints group - groupStart) 1)) 1, by omega, lMax, hl⟩
  have hone : r.OneChunk := by
    refine ⟨hlt, ?_⟩
    change shardEnd numPoints artifacts.shardPoints group ≤ groupStart + max (min
      (max artifacts.shardPoints 1)
      (max (shardEnd numPoints artifacts.shardPoints group - groupStart) 1)) 1
    omega
  have hinside : ∀ edge ∈ groupEdges choices group, r.inside edge = true := by
    intro edge hedge
    obtain ⟨segment, hsegment, record, hrecord, rfl⟩ := (mem_groupEdges choices).mp hedge
    exact decide_eq_true (h.inside choices hp hn hgroup hsegment hrecord).2
  rw [reduceInMemorySegmentGroupInRange, if_neg (Nat.not_le.mpr hlt)]
  dsimp only
  rw [dif_pos hl]
  apply (hone.reduceInMemory_eq hinside).trans
  congr 1
  apply pointCallbacks_congr
  intro point hlow hhigh
  apply h.arrivals_group choices hp hgroup
  rw [Nat.div_eq_iff hpos]
  change groupStart ≤ point at hlow
  change point < shardEnd numPoints artifacts.shardPoints group at hhigh
  rw [shardStart] at hstart
  rw [shardEnd] at hhigh
  omega

theorem Holds.stepsOver (h : artifacts.Holds edges) (hp : ∀ edge ∈ edges, edge.p < 2 ^ 32)
    (hn : ∀ edge ∈ edges, edge.p < numPoints) (hgroup : group ∈ artifacts.groups choices)
    {lMax : Nat} (hl : 0 < lMax) (pointStart : Nat) :
    StepsOver lMax hl (artifacts.readEdges choices) pointStart
      (reduceInMemoryGroupFrom choices numPoints pointStart lMax artifacts.shardPoints) group
      (shardStart artifacts.shardPoints group)
      (shardEnd numPoints artifacts.shardPoints group) := by
  have hshard : group.first.shardId = group.state :=
    (mem_segments choices hgroup List.mem_cons_self).2
  have hlt : shardStart artifacts.shardPoints group <
      shardEnd numPoints artifacts.shardPoints group := by
    obtain ⟨hmem, -⟩ := mem_segments choices hgroup (List.mem_cons_self (a := group.first))
    obtain ⟨record, hrecord, -⟩ := (h.formed group.first hmem).srcMin
    obtain ⟨hlow, hhigh⟩ := h.inside choices hp hn hgroup List.mem_cons_self hrecord
    exact Nat.lt_of_le_of_lt hlow hhigh
  have hstart : ¬ numPoints ≤ group.state * artifacts.shardPoints := by
    rw [shardStart, shardEnd] at hlt
    omega
  have hnone : (group.items.find? fun segment =>
      segment.srcMin.toNat < group.state * artifacts.shardPoints ||
        min (group.state * artifacts.shardPoints + artifacts.shardPoints) numPoints ≤
          segment.srcMax.toNat) = none := by
    rw [List.find?_eq_none]
    intro segment hsegment
    have hformed := h.formed segment (mem_segments choices hgroup hsegment).1
    obtain ⟨low, hlow, hmin⟩ := hformed.srcMin
    obtain ⟨high, hhigh, hmax⟩ := hformed.srcMax
    have hin := (h.inside choices hp hn hgroup hsegment hlow).1
    have hbelow := (h.inside choices hp hn hgroup hsegment hhigh).2
    simp only [Bool.or_eq_true, decide_eq_true_eq, not_or, Nat.not_lt, Nat.not_le, hmin, hmax]
    exact ⟨hin, hbelow⟩
  constructor
  · exact hlt
  · intro hskip next
    rw [shardEnd] at hskip
    rw [reduceInMemoryGroupFrom]
    dsimp only
    rw [hshard, if_neg hstart, if_pos hskip]
  · intro hahead next
    have hreduce := h.reduceGroup choices hp hn hgroup hl
      (Nat.le_max_left (shardStart artifacts.shardPoints group) pointStart)
      (Nat.max_lt.mpr ⟨hlt, hahead⟩)
    simp only [shardStart, shardEnd] at hahead hreduce ⊢
    rw [reduceInMemoryGroupFrom]
    dsimp only
    rw [hshard, if_neg hstart, if_neg (Nat.not_le.mpr hahead)]
    simp only [hnone]
    rw [hreduce]

/-- Every edge is in a group's shard. -/
theorem mem_readEdges_group (h : artifacts.Holds edges) (hp : ∀ edge ∈ edges, edge.p < 2 ^ 32)
    (hn : ∀ edge ∈ edges, edge.p < numPoints) {edge : PendingEdge}
    (hedge : edge ∈ artifacts.readEdges choices) :
    ∃ group ∈ artifacts.groups choices, shardStart artifacts.shardPoints group ≤ edge.p ∧
      edge.p < shardEnd numPoints artifacts.shardPoints group := by
  obtain ⟨group, hgroup, hmem⟩ := List.mem_flatMap.mp hedge
  obtain ⟨segment, hsegment, record, hrecord, rfl⟩ := (mem_groupEdges choices).mp hmem
  exact ⟨group, hgroup, h.inside choices hp hn hgroup hsegment hrecord⟩

/-- The in-memory reducer emits one callback a point. -/
theorem Holds.reduce_eq (h : artifacts.Holds edges) (hp : ∀ edge ∈ edges, edge.p < 2 ^ 32)
    (hn : ∀ edge ∈ edges, edge.p < numPoints) {pointStart lMax : Nat} (hl : 0 < lMax)
    (hstart : pointStart < numPoints) :
    reduceInMemorySegmentsShardedInOrderFrom choices numPoints pointStart lMax artifacts =
      ⟨pointCallbacks lMax hl (artifacts.readEdges choices) pointStart numPoints,
        .ok artifacts.stats⟩ := by
  have hordered : (artifacts.groups choices).Pairwise fun a b =>
      shardEnd numPoints artifacts.shardPoints a ≤ shardStart artifacts.shardPoints b := by
    apply (groups_pairwise choices).imp
    intro a b hlt
    apply (Nat.min_le_left ..).trans
    rw [shardStart, ← Nat.succ_mul]
    exact Nat.mul_le_mul_right _ hlt
  have hfold := foldlM_blocks hordered (fun group _ => Nat.min_le_right ..)
    (fun group hgroup => h.stepsOver choices hp hn hgroup hl pointStart) (Nat.le_refl _)
    (Nat.le_of_lt hstart) (fun group _ => Nat.le_max_right ..)
    (fun edge hedge _ => mem_readEdges_group choices h hp hn hedge)
  rw [reduceInMemorySegmentsShardedInOrderFrom, if_neg (by omega), ← bind_assoc, hfold]
  exact congrArg (Emission.mk · _) (List.append_nil _)

end
end InMemorySpillArtifacts

/-! ## Agreement -/

/-- An in-memory sink for the same shards. -/
def SpillConfig.inMemory (cfg : SpillConfig) (flushThresholdEdges : Nat) : InMemorySpillConfig where
  shardPoints := cfg.shardPoints
  shardPoints_pos := cfg.shardPoints_pos
  flushThresholdEdges := flushThresholdEdges

theorem offers_perm {edges more : List PendingEdge} (h : edges.Perm more) (point : Nat) :
    ((arrivals edges point).map PendingEdge.offer).Perm
      ((arrivals more point).map PendingEdge.offer) :=
  (h.filter _).map _

theorem pointCallbacks_eq_nil {lMax : Nat} {h : 0 < lMax} {edges : List PendingEdge}
    {start stop : Nat} (hle : stop ≤ start) : pointCallbacks lMax h edges start stop = [] := by
  rw [pointCallbacks, Nat.sub_eq_zero_of_le hle]
  rfl

/-- Whatever the batches and the thresholds: unless a shard runs out of part ids, both reducers read
back what was flushed, and call back the same points in the same order, from reservoirs that were
offered the same edges. -/
theorem memory_agrees_with_disk (cfg : SpillConfig) (choices : SpillChoices) (sort : SegmentSort)
    (flushThresholdEdges : Nat) (memoryChoices : InMemorySpillChoices)
    {batches : List (List PendingEdge)} {numPoints pointStart lMax : Nat}
    (hp : ∀ edge ∈ batches.flatten, edge.p < 2 ^ 32)
    (hn : ∀ edge ∈ batches.flatten, edge.p < numPoints) (hl : 0 < lMax) :
    ∃ onDisk inMemory, spillBatches cfg choices batches = .ok onDisk ∧
      inMemorySpillBatches (cfg.inMemory flushThresholdEdges) memoryChoices batches =
        .ok inMemory ∧
      (onDisk.PartsFit →
        (readEdges onDisk sort).Perm (batches.flatten.map PendingEdge.spilled) ∧
        (inMemory.readEdges memoryChoices).Perm (batches.flatten.map PendingEdge.spilled) ∧
        (∀ point, ((arrivals (readEdges onDisk sort) point).map PendingEdge.offer).Perm
          ((arrivals (inMemory.readEdges memoryChoices) point).map PendingEdge.offer)) ∧
        ∃ diskStats memoryStats,
          reduceSegmentsShardedInOrderFromWithLimit numPoints pointStart lMax cfg.shardPoints sort
              onDisk =
            ⟨pointCallbacks lMax hl (readEdges onDisk sort) pointStart numPoints,
              .ok diskStats⟩ ∧
          reduceInMemorySegmentsShardedInOrderFrom memoryChoices numPoints pointStart lMax
              inMemory =
            ⟨pointCallbacks lMax hl (inMemory.readEdges memoryChoices) pointStart numPoints,
              .ok memoryStats⟩) := by
  obtain ⟨onDisk, hspill, hholds⟩ := spillBatches_holds cfg choices sort hp
  obtain ⟨inMemory, hspillMemory, -, hmemory⟩ :=
    inMemorySpillBatches_holds (cfg.inMemory flushThresholdEdges) memoryChoices hp
  refine ⟨onDisk, inMemory, hspill, hspillMemory, fun hfit => ?_⟩
  obtain ⟨log, hdisk, hdiskPerm⟩ := hholds hfit
  have hmemoryPerm := hmemory.readEdges_perm memoryChoices hp
  have hoffers := offers_perm (hdiskPerm.trans hmemoryPerm.symm)
  refine ⟨hdiskPerm, hmemoryPerm, hoffers, ?_⟩
  rcases Nat.lt_or_ge pointStart numPoints with hstart | hstart
  · obtain ⟨stats, hreduce⟩ := hdisk.reduce_eq sort hl hstart (lt_of_perm_spilled hdiskPerm hn)
    exact ⟨stats, inMemory.stats, hreduce, hmemory.reduce_eq memoryChoices hp hn hl hstart⟩
  · refine ⟨.default, .default, ?_, ?_⟩
    · rw [reduceSegmentsShardedInOrderFromWithLimit, if_pos (.inr hstart),
        pointCallbacks_eq_nil hstart]
      rfl
    · rw [reduceInMemorySegmentsShardedInOrderFrom, if_pos (.inr hstart),
        pointCallbacks_eq_nil hstart]
      rfl

def insertionMemoryChoices : InMemorySpillChoices where
  sortEdges := .byKey PendingEdge.p
  sortRecords := .byKey SpillRecord16.src
  bufferOrder := id
  bufferOrder_perm := List.Perm.refl
  sortSegments := .byKey InMemorySpillSegment.shardKey
  sortGroup := .byKey InMemorySpillSegment.srcKey

theorem memory_agrees_with_disk_two_shards :
    ∃ onDisk inMemory, spillBatches twoShardConfig insertionChoices twoShardBatches = .ok onDisk ∧
      inMemorySpillBatches (twoShardConfig.inMemory 3) insertionMemoryChoices twoShardBatches =
        .ok inMemory ∧
      onDisk.PartsFit ∧
      (readEdges onDisk (.byKey SpillSegmentDesc.sortKey)).Perm
        (twoShardBatches.flatten.map PendingEdge.spilled) ∧
      (inMemory.readEdges insertionMemoryChoices).Perm
        (twoShardBatches.flatten.map PendingEdge.spilled) ∧
      (∀ point, ((arrivals (readEdges onDisk (.byKey SpillSegmentDesc.sortKey)) point).map
          PendingEdge.offer).Perm
        ((arrivals (inMemory.readEdges insertionMemoryChoices) point).map PendingEdge.offer)) ∧
      ∃ diskStats memoryStats,
        reduceSegmentsShardedInOrderFromWithLimit 5 1 2 2 (.byKey SpillSegmentDesc.sortKey)
            onDisk =
          ⟨pointCallbacks 2 (Nat.succ_pos 1)
            (readEdges onDisk (.byKey SpillSegmentDesc.sortKey)) 1 5, .ok diskStats⟩ ∧
        reduceInMemorySegmentsShardedInOrderFrom insertionMemoryChoices 5 1 2 inMemory =
          ⟨pointCallbacks 2 (Nat.succ_pos 1) (inMemory.readEdges insertionMemoryChoices) 1 5,
            .ok memoryStats⟩ := by
  have hp : ∀ edge ∈ twoShardBatches.flatten, edge.p < 2 ^ 32 := by simp [twoShardBatches]
  have hn : ∀ edge ∈ twoShardBatches.flatten, edge.p < 5 := by simp [twoShardBatches]
  obtain ⟨onDisk, inMemory, hspill, hmemory, hreduce⟩ := memory_agrees_with_disk twoShardConfig
    insertionChoices (.byKey SpillSegmentDesc.sortKey) 3 insertionMemoryChoices hp hn
    (Nat.succ_pos 1)
  have hfit := twoShardBatches_partsFit hspill
  exact ⟨onDisk, inMemory, hspill, hmemory, hfit, hreduce hfit⟩

/-! ## A point past the last -/

/-- An edge of the last of two points, and one of a point behind it. -/
def strayBatches : List (List PendingEdge) :=
  [[⟨1, 7, 1, ⟨0⟩, false, 0, 0⟩], [⟨5, 9, 2, ⟨1⟩, false, 0, 0⟩]]

def onePointConfig : SpillConfig where
  shardPoints := 1
  shardPoints_pos := Nat.one_pos
  ioCfg := .disabled
  flushThresholdEdges := 1
  partMaxBytes := 16

def strayMemory : InMemorySpillArtifacts where
  shardPoints := 1
  segments := [⟨1, [⟨1, 7, 1, 0, ⟨0⟩⟩], 1, 1⟩, ⟨5, [⟨5, 9, 2, 0, ⟨1⟩⟩], 5, 5⟩]

theorem strayMemory_groups : strayMemory.groups insertionMemoryChoices =
    [⟨⟨1, [⟨1, 7, 1, 0, ⟨0⟩⟩], 1, 1⟩, [], 1⟩, ⟨⟨5, [⟨5, 9, 2, 0, ⟨1⟩⟩], 5, 5⟩, [], 5⟩] := by
  have hsorted : insertionMemoryChoices.sortSegments.sort strayMemory.segments =
      [⟨1, [⟨1, 7, 1, 0, ⟨0⟩⟩], 1, 1⟩, ⟨5, [⟨5, 9, 2, 0, ⟨1⟩⟩], 5, 5⟩] := by decide
  rw [InMemorySpillArtifacts.groups, hsorted]
  exact (greedyRuns_cons rfl).trans (congrArg _ (greedyRuns_singleton rfl))

/-- The disk reducer rejects the stray edge's shard before it calls back, the in-memory one when it
gets there, past both points. -/
theorem strayBatches_diverge :
    ∃ onDisk inMemory, spillBatches onePointConfig insertionChoices strayBatches = .ok onDisk ∧
      inMemorySpillBatches (onePointConfig.inMemory 1) insertionMemoryChoices strayBatches =
        .ok inMemory ∧
      onDisk.PartsFit ∧
      (reduceSegmentsShardedInOrderFromWithLimit 2 0 1 1 (.byKey SpillSegmentDesc.sortKey)
        onDisk).emitted.map Prod.fst = [] ∧
      (reduceInMemorySegmentsShardedInOrderFrom insertionMemoryChoices 2 0 1
        inMemory).emitted.map Prod.fst = [0, 1] := by
  have hmanifest : (spillBatches onePointConfig insertionChoices strayBatches).map
      (fun artifacts => (artifacts.segmentManifest.map fun segment => segment.shardId.toNat)) =
        .ok [1, 5] := rfl
  have hparts : (spillBatches onePointConfig insertionChoices strayBatches).map
      (fun artifacts => artifacts.partFiles.length) = .ok 2 := rfl
  cases hspill : spillBatches onePointConfig insertionChoices strayBatches with
  | error err =>
      rw [hspill] at hparts
      cases hparts
  | ok onDisk =>
      rw [hspill] at hmanifest hparts
      have hshards : (onDisk.segmentManifest.map fun segment => segment.shardId.toNat) = [1, 5] :=
        Except.ok.inj hmanifest
      have hlen : onDisk.partFiles.length = 2 := Except.ok.inj hparts
      refine ⟨onDisk, strayMemory, rfl, rfl, fun shardId => ?_, ?_, ?_⟩
      · exact Nat.lt_of_le_of_lt (List.length_filter_le ..) (by omega)
      · have hmem : 5 ∈ sortDedup (onDisk.segmentManifest.map fun segment =>
            segment.shardId.toNat) := mem_sortDedup.mpr (by rw [hshards]; decide)
        have hstray : ∀ segments, ∃ err, groupOfShard 2 1 (.byKey SpillSegmentDesc.sortKey)
            segments 5 = .error err := fun segments => ⟨_, rfl⟩
        obtain ⟨err, herr⟩ := mapM_error_of_mem (f := fun shardId =>
          groupOfShard 2 1 (.byKey SpillSegmentDesc.sortKey)
            (onDisk.segmentManifest.filter fun segment => segment.shardId.toNat = shardId) shardId)
          hmem (hstray _).choose_spec
        rw [reduceSegmentsShardedInOrderFromWithLimit, if_neg (by decide), groupSegmentsByShard,
          herr]
        rfl
      · rw [reduceInMemorySegmentsShardedInOrderFrom, if_neg (by decide), strayMemory_groups]
        decide +kernel

end ForgeANN
