-- SUMMARY: The spill pipeline end to end: what was flushed is what the points' reservoirs are fed, in point order.
import ForgeANN.Spill.Arrivals
import ForgeANN.Spill.Kept

/-!
# The spill pipeline is lossless

The sink's artifacts store, shard by shard, what was flushed. The serial reducer
reads every shard's segments in one chunk, so it emits one callback a point, from
a reservoir that was fed the point's flushed edges.
-/
namespace ForgeANN

open Lib

/-! ## Callbacks over a range of points -/

/-- One callback a point, from its reservoir once the edges have arrived. -/
def pointCallbacks (lMax : Nat) (h : 0 < lMax) (edges : List PendingEdge) (start stop : Nat) :
    List Callback :=
  (List.range (stop - start)).map fun i =>
    (UInt32.ofNat (start + i), (reservoirOf lMax h edges (start + i)).neighbors)

section

variable {lMax : Nat} {h : 0 < lMax} {edges more : List PendingEdge} {start mid stop : Nat}

theorem pointCallbacks_append (hmid : start ≤ mid) (hstop : mid ≤ stop) :
    pointCallbacks lMax h edges start mid ++ pointCallbacks lMax h edges mid stop =
      pointCallbacks lMax h edges start stop := by
  have hlen : stop - start = (mid - start) + (stop - mid) := by omega
  have hshift : ∀ i, start + (mid - start + i) = mid + i := fun i => by omega
  simp only [pointCallbacks]
  rw [hlen, List.range_add, List.map_append, List.map_map]
  simp only [Function.comp_def, hshift]

theorem pointCallbacks_congr
    (hsame : ∀ point, start ≤ point → point < stop → arrivals edges point = arrivals more point) :
    pointCallbacks lMax h edges start stop = pointCallbacks lMax h more start stop := by
  apply List.map_congr_left
  intro i hi
  have hlt : i < stop - start := List.mem_range.mp hi
  rw [reservoirOf, reservoirOf, hsame (start + i) (by omega) (by omega)]

/-- Points without edges get empty callbacks. -/
theorem pointCallbacks_eq_empty (hnone : ∀ edge ∈ edges, start ≤ edge.p → stop ≤ edge.p) :
    pointCallbacks lMax h edges start stop = emptyCallbacks start stop := by
  apply List.map_congr_left
  intro i hi
  have hlt : i < stop - start := List.mem_range.mp hi
  have hempty : arrivals edges (start + i) = [] := by
    apply List.filter_eq_nil_iff.mpr
    intro edge hedge heq
    have hp : edge.p = start + i := by simpa using heq
    have := hnone edge hedge
    omega
  rw [reservoirOf, hempty]
  rfl

end

/-! ## Loops over ranges of points -/

/-- A step over a range of points: nothing happens if it lies before the first point, and else the
points up to its end are called back. -/
structure StepsOver {β : Type} (lMax : Nat) (h : 0 < lMax) (edges : List PendingEdge)
    (pointStart : Nat) (step : Nat → β → Reduction Nat) (b : β) (start stop : Nat) : Prop where
  lt : start < stop
  skip : stop ≤ pointStart → ∀ next, step next b = pure next
  emit : pointStart < stop → ∀ next, step next b = do
    Emission.emit (emptyCallbacks next (max start pointStart))
    Emission.emit (pointCallbacks lMax h edges (max start pointStart) stop)
    pure stop

/-- A loop over ranges in point order that have all the edges calls back once a point. -/
theorem foldlM_blocks {β : Type} {lMax : Nat} {hl : 0 < lMax} {edges : List PendingEdge}
    {pointStart numPoints next : Nat} {step : Nat → β → Reduction Nat} {start stop : β → Nat}
    {blocks : List β} (hordered : blocks.Pairwise fun a b => stop a ≤ start b)
    (hbound : ∀ b ∈ blocks, stop b ≤ numPoints)
    (hstep : ∀ b ∈ blocks, StepsOver lMax hl edges pointStart step b (start b) (stop b))
    (hfrom : pointStart ≤ next) (hle : next ≤ numPoints)
    (hahead : ∀ b ∈ blocks, next ≤ max (start b) pointStart)
    (hedges : ∀ edge ∈ edges, next ≤ edge.p → ∃ b ∈ blocks, start b ≤ edge.p ∧ edge.p < stop b) :
    (do
      let next ← blocks.foldlM step next
      Emission.emit (emptyCallbacks next numPoints)) =
      Emission.emit (pointCallbacks lMax hl edges next numPoints) := by
  induction blocks generalizing next with
  | nil =>
      rw [List.foldlM_nil, pure_bind, pointCallbacks_eq_empty]
      intro edge hedge hp
      obtain ⟨b, hb, -⟩ := hedges edge hedge hp
      cases hb
  | cons b blocks ih =>
      obtain ⟨hbefore, hordered⟩ := List.pairwise_cons.mp hordered
      have hb := hstep b List.mem_cons_self
      have hlt := hb.lt
      have hend := hbound b List.mem_cons_self
      have hbound' := fun c hc => hbound c (List.mem_cons_of_mem b hc)
      have hstep' := fun c hc => hstep c (List.mem_cons_of_mem b hc)
      rw [List.foldlM_cons, bind_assoc]
      rcases Nat.lt_or_ge pointStart (stop b) with hstop | hskip
      · have hstart := hahead b List.mem_cons_self
        have hgap : ∀ edge ∈ edges, next ≤ edge.p → max (start b) pointStart ≤ edge.p := by
          intro edge hedge hp
          obtain ⟨c, hc, hlow, -⟩ := hedges edge hedge hp
          rcases List.mem_cons.mp hc with rfl | hc
          · omega
          · have := hbefore c hc
            omega
        have hrest := ih hordered hbound' hstep' (Nat.le_of_lt hstop) hend
          (fun c hc => (hbefore c hc).trans (Nat.le_max_left ..))
          (fun edge hedge hp => by
            obtain ⟨c, hc, hlow, hhigh⟩ := hedges edge hedge (by omega)
            rcases List.mem_cons.mp hc with rfl | hc
            · omega
            · exact ⟨c, hc, hlow, hhigh⟩)
        have happend : pointCallbacks lMax hl edges next (max (start b) pointStart) ++
            (pointCallbacks lMax hl edges (max (start b) pointStart) (stop b) ++
              pointCallbacks lMax hl edges (stop b) numPoints) =
            pointCallbacks lMax hl edges next numPoints := by
          rw [pointCallbacks_append (by omega) hend, pointCallbacks_append hstart (by omega)]
        rw [hb.emit hstop, ← pointCallbacks_eq_empty (h := hl) hgap]
        simp only [bind_assoc, pure_bind, hrest]
        rw [← happend]
        rfl
      · rw [hb.skip hskip, pure_bind]
        apply ih hordered hbound' hstep' hfrom hle
        · exact fun c hc => hahead c (List.mem_cons_of_mem _ hc)
        · intro edge hedge hp
          obtain ⟨c, hc, hlow, hhigh⟩ := hedges edge hedge hp
          rcases List.mem_cons.mp hc with rfl | hc
          · omega
          · exact ⟨c, hc, hlow, hhigh⟩

/-! ## Reading the groups -/

/-- What a segment's edges are read as, if it can be opened. -/
def segmentEdges (artifacts : SpillArtifacts) (segment : SpillSegmentDesc) : List PendingEdge :=
  match openSegment artifacts segment with
  | .ok reader => reader.edges.1
  | .error _ => []

/-- The segment opens and is read to its end. -/
def Readable (artifacts : SpillArtifacts) (segment : SpillSegmentDesc) : Prop :=
  ∃ reader, openSegment artifacts segment = .ok reader ∧ reader.edges.2 = none

theorem readSegments_of_readable {artifacts : SpillArtifacts} {segments : List SpillSegmentDesc}
    (h : ∀ segment ∈ segments, Readable artifacts segment) :
    readSegments artifacts segments = (segments.flatMap (segmentEdges artifacts), none) := by
  induction segments with
  | nil => rfl
  | cons segment segments ih =>
      obtain ⟨reader, hopen, hend⟩ := h segment List.mem_cons_self
      have hrest := ih fun s hs => h s (List.mem_cons_of_mem _ hs)
      rw [readSegments, hopen]
      simp only [hend, hrest, List.flatMap_cons, segmentEdges, hopen]

/-- The group's segments hold the edges of its points, and no others. -/
structure SegmentGroup.Reads (group : SegmentGroup) (artifacts : SpillArtifacts)
    (edges : List PendingEdge) : Prop where
  readable : ∀ segment ∈ group.segments, Readable artifacts segment
  inside : ∀ edge ∈ group.segments.flatMap (segmentEdges artifacts),
    group.pointStart ≤ edge.p ∧ edge.p < group.pointEnd
  arrivals : ∀ point, group.pointStart ≤ point → point < group.pointEnd →
    ForgeANN.arrivals (group.segments.flatMap (segmentEdges artifacts)) point =
      ForgeANN.arrivals edges point

/-- The groups of a well-formed artifact, in point order. -/
structure WellGrouped (groups : List SegmentGroup) (artifacts : SpillArtifacts)
    (edges : List PendingEdge) (numPoints pointsPerShard : Nat) : Prop where
  reads : ∀ group ∈ groups, group.Reads artifacts edges
  within : ∀ group ∈ groups, group.pointEnd ≤ numPoints ∧
    group.pointEnd ≤ group.pointStart + max pointsPerShard 1
  ordered : groups.Pairwise fun a b => a.pointEnd ≤ b.pointStart

section

variable {artifacts : SpillArtifacts} {edges : List PendingEdge} {group : SegmentGroup}
  {groups : List SegmentGroup} {numPoints pointStart lMax pointsPerShard : Nat}

theorem SegmentGroup.Reads.reduceInRange (h : group.Reads artifacts edges) (hl : 0 < lMax)
    {groupStart chunk : Nat} (hstart : group.pointStart ≤ groupStart)
    (hlt : groupStart < group.pointEnd) (hchunk : group.pointEnd ≤ groupStart + chunk) :
    reduceSegmentGroupInRange groupStart group.pointEnd lMax chunk group.segments artifacts =
      Emission.emit (pointCallbacks lMax hl edges groupStart group.pointEnd) := by
  let r : GroupRange := ⟨groupStart, group.pointEnd, max chunk 1, by omega, lMax, hl⟩
  have hone : r.OneChunk := ⟨hlt, by change group.pointEnd ≤ groupStart + max chunk 1; omega⟩
  have hinside : (group.segments.flatMap (segmentEdges artifacts)).find?
      (fun edge => !r.inside edge) = none := by
    rw [List.find?_eq_none]
    intro edge hedge
    have hp := (h.inside edge hedge).2
    simpa [r, GroupRange.inside] using hp
  have hreduce := hone.reduce_eq artifacts group.segments
  rw [readSegments_of_readable h.readable] at hreduce
  simp only [hinside] at hreduce
  rw [reduceSegmentGroupInRange, if_neg (Nat.not_le.mpr hlt), dif_pos hl]
  apply hreduce.trans
  congr 1
  exact pointCallbacks_congr fun point hlow hhigh => h.arrivals point (hstart.trans hlow) hhigh

theorem WellGrouped.foldlM_reduceGroupFrom (hl : 0 < lMax)
    (h : WellGrouped groups artifacts edges numPoints pointsPerShard)
    (hle : pointStart ≤ numPoints)
    (hedges : ∀ edge ∈ edges, pointStart ≤ edge.p →
      ∃ group ∈ groups, group.pointStart ≤ edge.p ∧ edge.p < group.pointEnd) :
    (do
      let nextPoint ←
        groups.foldlM (reduceGroupFrom pointStart lMax pointsPerShard artifacts) pointStart
      Emission.emit (emptyCallbacks nextPoint numPoints)) =
      Emission.emit (pointCallbacks lMax hl edges pointStart numPoints) := by
  refine foldlM_blocks h.ordered (fun group hgroup => (h.within group hgroup).1)
    (fun group hgroup => ?_) (Nat.le_refl _) hle (fun group _ => Nat.le_max_right ..) hedges
  constructor
  · exact group.pointStart_lt
  · intro hskip next
    rw [reduceGroupFrom, if_pos hskip]
  · intro hahead next
    have hlt := group.pointStart_lt
    have hfits := (h.within group hgroup).2
    have hreduce := (h.reads group hgroup).reduceInRange hl
      (Nat.le_max_left group.pointStart pointStart) (Nat.max_lt.mpr ⟨hlt, hahead⟩)
      (show group.pointEnd ≤ max group.pointStart pointStart + min (max pointsPerShard 1)
        (max (group.pointEnd - max group.pointStart pointStart) 1) by omega)
    rw [reduceGroupFrom, if_neg (Nat.not_le.mpr hahead)]
    dsimp only
    rw [hreduce]

end

/-! ## Grouping -/

/-- The group of a shard whose segments lie in it. -/
def shardGroup (numPoints pointsPerShard : Nat) (sort : SegmentSort)
    (segments : List SpillSegmentDesc) (shardId : Nat)
    (h : shardId * max pointsPerShard 1 < numPoints) : SegmentGroup where
  pointStart := shardId * max pointsPerShard 1
  pointEnd := min (shardId * max pointsPerShard 1 + max pointsPerShard 1) numPoints
  pointStart_lt := shardStart_lt_shardEnd numPoints pointsPerShard shardId h
  segments := sort.sort segments

theorem groupOfShard_ok {numPoints pointsPerShard shardId : Nat} (sort : SegmentSort)
    {segments : List SpillSegmentDesc} (hstart : shardId * max pointsPerShard 1 < numPoints)
    (hrange : ∀ segment ∈ segments, shardId * max pointsPerShard 1 ≤ segment.srcMin.toNat ∧
      segment.srcMax.toNat < min (shardId * max pointsPerShard 1 + max pointsPerShard 1) numPoints) :
    groupOfShard numPoints pointsPerShard sort segments shardId =
      .ok (shardGroup numPoints pointsPerShard sort segments shardId hstart) := by
  have hnone : segments.find? (fun segment =>
      segment.srcMin.toNat < shardId * max pointsPerShard 1 ||
        min (shardId * max pointsPerShard 1 + max pointsPerShard 1) numPoints ≤
          segment.srcMax.toNat) = none := by
    rw [List.find?_eq_none]
    intro segment hsegment
    obtain ⟨hlow, hhigh⟩ := hrange segment hsegment
    simp only [Bool.or_eq_true, decide_eq_true_eq, not_or, Nat.not_lt, Nat.not_le]
    exact ⟨hlow, hhigh⟩
  unfold groupOfShard
  dsimp only
  rw [dif_pos hstart]
  simp only [hnone]
  rfl

/-! ## What the reducer reads -/

/-- The edges of a shard, in the order in which the reducer reads them. -/
def shardEdges (artifacts : SpillArtifacts) (sort : SegmentSort) (shardId : Nat) :
    List PendingEdge :=
  (sort.sort (artifacts.segmentManifest.filter fun segment =>
    segment.shardId.toNat = shardId)).flatMap (segmentEdges artifacts)

/-- The shards of the manifest, ascending. -/
def SpillArtifacts.shardIds (artifacts : SpillArtifacts) : List Nat :=
  sortDedup (artifacts.segmentManifest.map fun segment => segment.shardId.toNat)

/-- All edges, in the order in which the reducer would read them. -/
def readEdges (artifacts : SpillArtifacts) (sort : SegmentSort) : List PendingEdge :=
  artifacts.shardIds.flatMap (shardEdges artifacts sort)

/-- The artifacts' segments store the log's edges. -/
structure SpillArtifacts.Holds (artifacts : SpillArtifacts) (cfg : SpillConfig)
    (log : SegmentLog) : Prop where
  manifest : artifacts.segmentManifest = log.map Prod.fst
  stores : ∀ entry ∈ log, artifacts.Stores cfg entry.1 entry.2

section

variable {artifacts : SpillArtifacts} {cfg : SpillConfig} {log : SegmentLog} (sort : SegmentSort)

theorem SpillArtifacts.Stores.segmentEdges_eq {segment : SpillSegmentDesc}
    {edges : List PendingEdge} (h : artifacts.Stores cfg segment edges) :
    segmentEdges artifacts segment = edges.map PendingEdge.spilled := by
  obtain ⟨reader, hopen, hedges⟩ := h.opens
  rw [segmentEdges, hopen]
  simp only [hedges]

theorem SpillArtifacts.Holds.shardEdges_perm (h : artifacts.Holds cfg log) (shardId : Nat) :
    (shardEdges artifacts sort shardId).Perm
      ((log.edgesOf shardId).map PendingEdge.spilled) := by
  refine ((sort.perm _).flatMap_right _).trans ?_
  rw [h.manifest, List.filter_map, List.flatMap_map, SegmentLog.edgesOf, List.map_flatMap]
  apply List.Perm.of_eq
  apply List.flatMap_congr
  intro entry hentry
  exact (h.stores entry (List.mem_filter.mp hentry).1).segmentEdges_eq

theorem SpillArtifacts.Holds.mem_shardIds (h : artifacts.Holds cfg log) {shardId : Nat} :
    shardId ∈ artifacts.shardIds ↔ ∃ edge, edge ∈ log.edgesOf shardId := by
  have hmem : shardId ∈ artifacts.shardIds ↔
      ∃ entry ∈ log, entry.1.shardId.toNat = shardId := by
    simp [SpillArtifacts.shardIds, h.manifest]
  rw [hmem]
  constructor
  · rintro ⟨entry, hentry, rfl⟩
    obtain ⟨edge, hedge, -⟩ := (h.stores entry hentry).srcMin
    exact ⟨edge, List.mem_flatMap.mpr ⟨entry, List.mem_filter.mpr ⟨hentry, by simp⟩, hedge⟩⟩
  · rintro ⟨edge, hedge⟩
    obtain ⟨entry, hentry, -⟩ := List.mem_flatMap.mp hedge
    obtain ⟨hentry, hshard⟩ := List.mem_filter.mp hentry
    exact ⟨entry, hentry, by simpa using hshard⟩

/-- Every edge is read once: the shards make up what was flushed. -/
theorem SpillArtifacts.Holds.readEdges_perm (h : artifacts.Holds cfg log)
    {flushed : List PendingEdge}
    (hlog : ∀ shardId, (log.edgesOf shardId).Perm
      (flushed.filter fun edge => edge.p / cfg.shardPoints = shardId)) :
    (readEdges artifacts sort).Perm (flushed.map PendingEdge.spilled) := by
  have hbuckets := perm_flatMap_filter (fun edge : PendingEdge => edge.p / cfg.shardPoints)
    (sortDedup_nodup (artifacts.segmentManifest.map fun segment => segment.shardId.toNat))
    (l := flushed) (by
      intro edge hedge
      apply h.mem_shardIds.mpr
      refine ⟨edge, (hlog _).mem_iff.mpr ?_⟩
      exact List.mem_filter.mpr ⟨hedge, by simp⟩)
  refine .trans ?_ (hbuckets.map PendingEdge.spilled)
  rw [List.map_flatMap]
  apply List.Perm.flatMap_left
  intro shardId _
  exact (h.shardEdges_perm sort shardId).trans ((hlog shardId).map _)

theorem SpillArtifacts.Holds.shard_of_mem (h : artifacts.Holds cfg log) {shardId : Nat}
    {edge : PendingEdge} (hedge : edge ∈ shardEdges artifacts sort shardId) :
    edge.p / cfg.shardPoints = shardId := by
  obtain ⟨written, hwritten, rfl⟩ := List.mem_map.mp ((h.shardEdges_perm sort _).mem_iff.mp hedge)
  obtain ⟨entry, hentry, hmem⟩ := List.mem_flatMap.mp hwritten
  obtain ⟨hentry, hshard⟩ := List.mem_filter.mp hentry
  exact ((h.stores entry hentry).owns written hmem).2.trans (of_decide_eq_true hshard)

/-- A point's edges are in its shard. -/
theorem SpillArtifacts.Holds.arrivals_shardEdges (h : artifacts.Holds cfg log) {shardId point : Nat}
    (hmem : shardId ∈ artifacts.shardIds) (hpoint : point / cfg.shardPoints = shardId) :
    arrivals (shardEdges artifacts sort shardId) point =
      arrivals (readEdges artifacts sort) point := by
  rw [readEdges, arrivals, arrivals, List.filter_flatMap]
  symm
  apply flatMap_eq_of_unique (sortDedup_nodup _) hmem
  intro other _ hne
  apply List.filter_eq_nil_iff.mpr
  intro edge hedge heq
  have hp : edge.p = point := by simpa using heq
  have hshard := h.shard_of_mem sort hedge
  rw [hp, hpoint] at hshard
  exact hne hshard.symm

theorem div_eq_iff_range {cfg : SpillConfig} {point shardId : Nat} :
    point / cfg.shardPoints = shardId ↔
      shardId * cfg.shardPoints ≤ point ∧ point < shardId * cfg.shardPoints + cfg.shardPoints := by
  rw [Nat.div_eq_iff cfg.shardPoints_pos]
  have hpos := cfg.shardPoints_pos
  omega

theorem mem_readEdges {edge : PendingEdge} :
    edge ∈ readEdges artifacts sort ↔
      ∃ shardId ∈ artifacts.shardIds, edge ∈ shardEdges artifacts sort shardId :=
  List.mem_flatMap

theorem SpillArtifacts.Holds.readable (h : artifacts.Holds cfg log) {segment : SpillSegmentDesc}
    (hmem : segment ∈ artifacts.segmentManifest) : Readable artifacts segment := by
  rw [h.manifest] at hmem
  obtain ⟨entry, hentry, rfl⟩ := List.mem_map.mp hmem
  obtain ⟨reader, hopen, hedges⟩ := (h.stores entry hentry).opens
  exact ⟨reader, hopen, by rw [hedges]⟩

/-- The metadata of a segment names edges that are read from its shard. -/
theorem SpillArtifacts.Holds.metadata (h : artifacts.Holds cfg log) {segment : SpillSegmentDesc}
    (hmem : segment ∈ artifacts.segmentManifest) :
    (∃ edge ∈ shardEdges artifacts sort segment.shardId.toNat, segment.srcMin.toNat = edge.p) ∧
      ∃ edge ∈ shardEdges artifacts sort segment.shardId.toNat, segment.srcMax.toNat = edge.p := by
  rw [h.manifest] at hmem
  obtain ⟨entry, hentry, rfl⟩ := List.mem_map.mp hmem
  have hread : ∀ edge ∈ entry.2, edge.spilled ∈ shardEdges artifacts sort entry.1.shardId.toNat ∧
      (UInt32.ofNat edge.p).toNat = edge.spilled.p := by
    intro edge hedge
    refine ⟨(h.shardEdges_perm sort _).mem_iff.mpr (List.mem_map_of_mem ?_), ?_⟩
    · exact List.mem_flatMap.mpr ⟨entry, List.mem_filter.mpr ⟨hentry, by simp⟩, hedge⟩
    · exact UInt32.toNat_ofNat_of_lt' ((h.stores entry hentry).owns edge hedge).1
  obtain ⟨low, hlow, hmin⟩ := (h.stores entry hentry).srcMin
  obtain ⟨high, hhigh, hmax⟩ := (h.stores entry hentry).srcMax
  refine ⟨⟨low.spilled, (hread low hlow).1, ?_⟩, ⟨high.spilled, (hread high hhigh).1, ?_⟩⟩
  · rw [hmin, (hread low hlow).2]
  · rw [hmax, (hread high hhigh).2]

/-- A shard of the manifest becomes a group that reads its edges. -/
theorem SpillArtifacts.Holds.groupOfShard_eq (h : artifacts.Holds cfg log) {numPoints shardId : Nat}
    (hp : ∀ edge ∈ readEdges artifacts sort, edge.p < numPoints)
    (hmem : shardId ∈ artifacts.shardIds) :
    ∃ group : SegmentGroup, groupOfShard numPoints cfg.shardPoints sort
        (artifacts.segmentManifest.filter fun segment => segment.shardId.toNat = shardId) shardId =
          .ok group ∧
      group.pointStart = shardId * cfg.shardPoints ∧
      group.pointEnd = min (shardId * cfg.shardPoints + cfg.shardPoints) numPoints ∧
      group.Reads artifacts (readEdges artifacts sort) := by
  have hmax : max cfg.shardPoints 1 = cfg.shardPoints := Nat.max_eq_left cfg.shardPoints_pos
  have hrange : ∀ edge ∈ shardEdges artifacts sort shardId,
      shardId * cfg.shardPoints ≤ edge.p ∧
        edge.p < min (shardId * cfg.shardPoints + cfg.shardPoints) numPoints := by
    intro edge hedge
    have hlt := hp edge ((mem_readEdges sort).mpr ⟨shardId, hmem, hedge⟩)
    obtain ⟨hlow, hhigh⟩ := div_eq_iff_range.mp (h.shard_of_mem sort hedge)
    exact ⟨hlow, Nat.lt_min.mpr ⟨hhigh, hlt⟩⟩
  have hsegments : ∀ segment ∈
      artifacts.segmentManifest.filter (fun segment => segment.shardId.toNat = shardId),
      shardId * cfg.shardPoints ≤ segment.srcMin.toNat ∧
        segment.srcMax.toNat < min (shardId * cfg.shardPoints + cfg.shardPoints) numPoints := by
    intro segment hsegment
    obtain ⟨hin, hshard⟩ := List.mem_filter.mp hsegment
    obtain ⟨⟨low, hlow, hmin⟩, ⟨high, hhigh, hmax⟩⟩ := h.metadata sort hin
    rw [of_decide_eq_true hshard] at hlow hhigh
    rw [hmin, hmax]
    exact ⟨(hrange low hlow).1, (hrange high hhigh).2⟩
  have hstart : shardId * cfg.shardPoints < numPoints := by
    obtain ⟨edge, hedge⟩ := h.mem_shardIds.mp hmem
    have hread := (h.shardEdges_perm sort shardId).mem_iff.mpr (List.mem_map_of_mem hedge)
    have := hrange _ hread
    omega
  have hstart' : shardId * max cfg.shardPoints 1 < numPoints := by rwa [hmax]
  have hgroup := groupOfShard_ok sort hstart' (by rw [hmax]; exact hsegments)
  refine ⟨_, hgroup, by simp only [shardGroup, hmax], by simp only [shardGroup, hmax], ?_⟩
  constructor
  · intro segment hsegment
    have hin := (sort.perm _).mem_iff.mp hsegment
    exact h.readable (List.mem_filter.mp hin).1
  · intro edge hedge
    simp only [shardGroup, hmax]
    exact hrange edge hedge
  · intro point hlow hhigh
    simp only [shardGroup, hmax] at hlow hhigh
    exact h.arrivals_shardEdges sort hmem (div_eq_iff_range.mpr ⟨hlow, by omega⟩)

/-- Every shard becomes a group, and every edge is in one. -/
theorem SpillArtifacts.Holds.wellGrouped (h : artifacts.Holds cfg log) {numPoints : Nat}
    (hp : ∀ edge ∈ readEdges artifacts sort, edge.p < numPoints) :
    ∃ groups, groupSegmentsByShard numPoints cfg.shardPoints sort artifacts = .ok groups ∧
      WellGrouped groups artifacts (readEdges artifacts sort) numPoints cfg.shardPoints ∧
      ∀ edge ∈ readEdges artifacts sort,
        ∃ group ∈ groups, group.pointStart ≤ edge.p ∧ edge.p < group.pointEnd := by
  have hmax : max cfg.shardPoints 1 = cfg.shardPoints := Nat.max_eq_left cfg.shardPoints_pos
  have : Nonempty SegmentGroup := ⟨⟨0, 1, Nat.one_pos, []⟩⟩
  choose! groupOf hok hstart hend hreads using
    fun shardId (hmem : shardId ∈ artifacts.shardIds) => h.groupOfShard_eq sort hp hmem
  refine ⟨artifacts.shardIds.map groupOf, mapM_eq_ok_map hok, ?_, ?_⟩
  · constructor
    · intro group hgroup
      obtain ⟨shardId, hmem, rfl⟩ := List.mem_map.mp hgroup
      exact hreads shardId hmem
    · intro group hgroup
      obtain ⟨shardId, hmem, rfl⟩ := List.mem_map.mp hgroup
      rw [hstart shardId hmem, hend shardId hmem, hmax]
      exact ⟨Nat.min_le_right .., Nat.min_le_left ..⟩
    · rw [List.pairwise_map]
      refine (sortDedup_pairwise _).imp_of_mem fun {a b} ha hb hab => ?_
      rw [hend a ha, hstart b hb]
      apply (Nat.min_le_left ..).trans
      rw [← Nat.succ_mul]
      exact Nat.mul_le_mul_right _ hab
  · intro edge hedge
    obtain ⟨shardId, hmem, hin⟩ := (mem_readEdges sort).mp hedge
    refine ⟨groupOf shardId, List.mem_map_of_mem hmem, ?_⟩
    obtain ⟨hlow, hhigh⟩ := div_eq_iff_range.mp (h.shard_of_mem sort hin)
    rw [hstart shardId hmem, hend shardId hmem]
    exact ⟨hlow, Nat.lt_min.mpr ⟨hhigh, hp edge hedge⟩⟩

/-- From artifacts that store a log, the reducer emits one callback a point. -/
theorem SpillArtifacts.Holds.reduce_eq (h : artifacts.Holds cfg log)
    {numPoints pointStart lMax : Nat} (hl : 0 < lMax) (hstart : pointStart < numPoints)
    (hp : ∀ edge ∈ readEdges artifacts sort, edge.p < numPoints) :
    ∃ stats, reduceSegmentsShardedInOrderFromWithLimit numPoints pointStart lMax cfg.shardPoints
        sort artifacts =
      ⟨pointCallbacks lMax hl (readEdges artifacts sort) pointStart numPoints, .ok stats⟩ := by
  obtain ⟨groups, hgroups, hwell, hcovered⟩ := h.wellGrouped sort hp
  have hfold := hwell.foldlM_reduceGroupFrom hl (Nat.le_of_lt hstart)
    (fun edge hedge _ => hcovered edge hedge)
  refine ⟨reduceStats groups artifacts, ?_⟩
  rw [reduceSegmentsShardedInOrderFromWithLimit, if_neg (by omega), hgroups, Emission.lift_ok,
    pure_bind, ← bind_assoc, hfold]
  exact congrArg (Emission.mk · _) (List.append_nil _)

end

/-! ## The whole pipeline -/

/-- The sink succeeds, and unless a shard runs out of part ids every flushed edge is read once. -/
theorem spillBatches_holds (cfg : SpillConfig) (choices : SpillChoices) (sort : SegmentSort)
    {batches : List (List PendingEdge)} (hp : ∀ edge ∈ batches.flatten, edge.p < 2 ^ 32) :
    ∃ artifacts, spillBatches cfg choices batches = .ok artifacts ∧
      (artifacts.PartsFit → ∃ log : SegmentLog, artifacts.Holds cfg log ∧
        (readEdges artifacts sort).Perm (batches.flatten.map PendingEdge.spilled)) := by
  obtain ⟨artifacts, hspill, hstores⟩ := spillBatches_stores cfg choices hp
  refine ⟨artifacts, hspill, fun hfit => ?_⟩
  obtain ⟨log, hmanifest, hlog, hedges⟩ := hstores hfit
  have hholds : artifacts.Holds cfg log := ⟨hmanifest, hlog⟩
  exact ⟨log, hholds, hholds.readEdges_perm sort hedges⟩

theorem lt_of_perm_spilled {numPoints : Nat} {edges flushed : List PendingEdge}
    (h : edges.Perm (flushed.map PendingEdge.spilled)) (hp : ∀ edge ∈ flushed, edge.p < numPoints) :
    ∀ edge ∈ edges, edge.p < numPoints := by
  intro edge hedge
  obtain ⟨original, horiginal, rfl⟩ := List.mem_map.mp (h.mem_iff.mp hedge)
  exact hp original horiginal

/-- Whatever the batches: unless a shard runs out of part ids, what the reducer reads back is what was
flushed, and it calls back once for each point, in order, from a reservoir that was fed the point's
edges among these. -/
theorem spill_lossless (cfg : SpillConfig) (choices : SpillChoices) (sort : SegmentSort)
    {batches : List (List PendingEdge)} {numPoints pointStart lMax : Nat}
    (hn : numPoints < 2 ^ 32) (hp : ∀ edge ∈ batches.flatten, edge.p < numPoints)
    (hl : 0 < lMax) (hstart : pointStart < numPoints) :
    ∃ artifacts, spillBatches cfg choices batches = .ok artifacts ∧
      (artifacts.PartsFit →
        (readEdges artifacts sort).Perm (batches.flatten.map PendingEdge.spilled) ∧
        ∃ stats, reduceSegmentsShardedInOrderFromWithLimit numPoints pointStart lMax cfg.shardPoints
            sort artifacts =
          ⟨pointCallbacks lMax hl (readEdges artifacts sort) pointStart numPoints, .ok stats⟩) := by
  obtain ⟨artifacts, hspill, hholds⟩ := spillBatches_holds cfg choices sort
    fun edge hedge => Nat.lt_trans (hp edge hedge) hn
  refine ⟨artifacts, hspill, fun hfit => ?_⟩
  obtain ⟨log, hholds, hperm⟩ := hholds hfit
  exact ⟨hperm, hholds.reduce_eq sort hl hstart (lt_of_perm_spilled hperm hp)⟩

/-- Three edges in two batches, over two shards. -/
def twoShardBatches : List (List PendingEdge) :=
  [[⟨3, 7, 1, ⟨0⟩, true, 0, 0⟩, ⟨0, 9, 2, ⟨1⟩, false, 0, 0⟩], [⟨2, 5, 3, ⟨2⟩, false, 0, 0⟩]]

def twoShardConfig : SpillConfig where
  shardPoints := 2
  shardPoints_pos := Nat.succ_pos 1
  ioCfg := .disabled
  flushThresholdEdges := 2
  partMaxBytes := 16

def insertionChoices : SpillChoices where
  sortEdges := .byKey PendingEdge.p
  bufferOrder := id
  bufferOrder_perm _ := .refl _
  writerOrder := List.reverse
  writerOrder_perm _ := List.reverse_perm _

theorem twoShardBatches_partsFit {artifacts : SpillArtifacts}
    (h : spillBatches twoShardConfig insertionChoices twoShardBatches = .ok artifacts) :
    artifacts.PartsFit := by
  have hparts : (spillBatches twoShardConfig insertionChoices twoShardBatches).map
      (fun artifacts => artifacts.partFiles.length) = .ok 2 := rfl
  intro shardId
  rw [h] at hparts
  have hlen : artifacts.partFiles.length = 2 := Except.ok.inj hparts
  exact Nat.lt_of_le_of_lt (List.length_filter_le ..) (by omega)

theorem spill_lossless_two_shards :
    ∃ artifacts, spillBatches twoShardConfig insertionChoices twoShardBatches = .ok artifacts ∧
      artifacts.PartsFit ∧
      (readEdges artifacts (.byKey SpillSegmentDesc.sortKey)).Perm
        (twoShardBatches.flatten.map PendingEdge.spilled) ∧
      ∃ stats, reduceSegmentsShardedInOrderFromWithLimit 5 1 2 2 (.byKey SpillSegmentDesc.sortKey)
          artifacts =
        ⟨pointCallbacks 2 (Nat.succ_pos 1)
          (readEdges artifacts (.byKey SpillSegmentDesc.sortKey)) 1 5, .ok stats⟩ := by
  have hn : 5 < 2 ^ 32 := by decide
  have hp : ∀ edge ∈ twoShardBatches.flatten, edge.p < 5 := by simp [twoShardBatches]
  have hstart : 1 < 5 := by decide
  obtain ⟨artifacts, hspill, hreduce⟩ := spill_lossless twoShardConfig insertionChoices
    (.byKey SpillSegmentDesc.sortKey) hn hp (Nat.succ_pos 1) hstart
  have hfit := twoShardBatches_partsFit hspill
  exact ⟨artifacts, hspill, hfit, hreduce hfit⟩

end ForgeANN
