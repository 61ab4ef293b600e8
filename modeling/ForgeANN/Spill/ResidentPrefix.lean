-- SUMMARY: Whatever part of the reservoirs is resident, every point is offered the same edges, and called back once, in order.
import ForgeANN.HashPrune.History
import ForgeANN.Spill.HybridSink
import ForgeANN.Spill.MemoryAgreement

/-!
# The resident prefix

Reservoirs that are fed in batches have been offered the edges of their points, and
so have those that the parallel reducer fills from the spill. Which points are
resident decides the order of the offers only.
-/
namespace ForgeANN

open Lib

/-! ## Resident reservoirs -/

/-- The reservoirs of the first points once the edges have arrived. -/
def reservoirsOf (lMax : Nat) (h : 0 < lMax) (edges : List PendingEdge) (points : Nat) :
    List HashPruneReservoir :=
  (List.range points).map (reservoirOf lMax h edges)

section

variable {lMax points : Nat} {h : 0 < lMax} {edges more : List PendingEdge} {edge : PendingEdge}

theorem allocateReservoirSlab_eq : allocateReservoirSlab points lMax h =
    reservoirsOf lMax h [] points := by
  rw [allocateReservoirSlab, reservoirsOf]
  apply List.ext_getElem
  · rw [List.length_replicate, List.length_map, List.length_range]
  · intro i hi _
    rw [List.getElem_replicate, List.getElem_map]
    rfl

theorem insertPendingEdge_reservoirsOf (hp : edge.p < points) :
    insertPendingEdge (reservoirsOf lMax h edges points) edge =
      .ok (reservoirsOf lMax h (edges ++ [edge]) points) := by
  have hget : (reservoirsOf lMax h edges points)[edge.p]? =
      some (reservoirOf lMax h edges edge.p) := by
    rw [reservoirsOf, List.getElem?_map, List.getElem?_range hp]
    rfl
  rw [insertPendingEdge, hget]
  refine congrArg Except.ok (List.ext_getElem ?_ fun i hi _ => ?_)
  · simp only [reservoirsOf, List.length_set, List.length_map, List.length_range]
  · rw [List.getElem_set]
    simp only [reservoirsOf, List.getElem_map, List.getElem_range]
    split_ifs with heq
    · rw [← heq]
      exact (reservoirOf_concat rfl).symm
    · exact (reservoirOf_concat_of_ne heq).symm

theorem foldlM_insertPendingEdge (hp : ∀ edge ∈ more, edge.p < points) :
    more.foldlM insertPendingEdge (reservoirsOf lMax h edges points) =
      .ok (reservoirsOf lMax h (edges ++ more) points) := by
  induction more generalizing edges with
  | nil => rw [List.foldlM_nil, List.append_nil]; rfl
  | cons edge more ih =>
      rw [List.foldlM_cons, insertPendingEdge_reservoirsOf (hp edge List.mem_cons_self), ok_bind,
        ih fun e he => hp e (List.mem_cons_of_mem edge he), List.append_assoc]
      rfl

theorem flushPendingEdgesToReservoirs_eq (edgeSort : EdgeSort)
    (hp : ∀ edge ∈ more, edge.p < points) :
    flushPendingEdgesToReservoirs edgeSort (reservoirsOf lMax h edges points) more =
      .ok (reservoirsOf lMax h (edges ++ edgeSort.sort more) points) :=
  foldlM_insertPendingEdge fun edge hedge => hp edge ((edgeSort.perm more).mem_iff.mp hedge)

theorem foldlM_flushPendingEdges (edgeSort : EdgeSort) {batches : List (List PendingEdge)}
    (hp : ∀ batch ∈ batches, ∀ edge ∈ batch, edge.p < points) :
    batches.foldlM (flushPendingEdgesToReservoirs edgeSort) (reservoirsOf lMax h edges points) =
      .ok (reservoirsOf lMax h (edges ++ batches.flatMap edgeSort.sort) points) := by
  induction batches generalizing edges with
  | nil =>
      rw [List.foldlM_nil, List.flatMap_nil, List.append_nil]
      rfl
  | cons batch batches ih =>
      rw [List.foldlM_cons, flushPendingEdgesToReservoirs_eq edgeSort (hp batch List.mem_cons_self),
        ok_bind, ih fun b hb => hp b (List.mem_cons_of_mem batch hb), List.append_assoc,
        List.flatMap_cons]

theorem emitReservoirs_eq : emitReservoirs (reservoirsOf lMax h edges points) =
    Emission.emit (pointCallbacks lMax h edges 0 points) := by
  refine congrArg Emission.emit (List.ext_getElem ?_ fun i hi _ => ?_)
  · simp only [reservoirsOf, pointCallbacks, List.length_map, List.length_zipIdx, List.length_range,
      Nat.sub_zero]
  · simp only [reservoirsOf, pointCallbacks, List.getElem_map, List.getElem_zipIdx,
      List.getElem_range, Nat.zero_add]

end

/-! ## The hybrid sink -/

section

variable {lMax residentPoints : Nat} {h : 0 < lMax} {edgeSort : EdgeSort} {cfg : SpillConfig}
  {choices : SpillChoices}

theorem SpillState.flushPendingEdges_nil (state : SpillState) :
    state.flushPendingEdges cfg choices [] = .ok state := by
  rw [SpillState.flushPendingEdges, List.perm_nil.mp (choices.sortEdges.perm [])]
  rfl

theorem skipEmpty_eq {σ : Type} {flush : σ → List PendingEdge → AnnResult σ} {state : σ}
    (hnil : flush state [] = .ok state) (edges : List PendingEdge) :
    skipEmpty flush state edges = flush state edges := by
  rw [skipEmpty]
  split_ifs with hedges
  · rw [hedges, hnil]
  · rfl

/-- The resident edges arrive in any case; what may fail is the spill. -/
theorem HybridState.flushPendingEdges_eq (edges batch : List PendingEdge) (spill : SpillState) :
    HybridState.flushPendingEdges residentPoints edgeSort cfg choices
        ⟨reservoirsOf lMax h edges residentPoints, spill⟩ batch =
      (spill.flushPendingEdges cfg choices
        (batch.filter fun edge => !isResident residentPoints edge)).map fun spill =>
          ⟨reservoirsOf lMax h
            (edges ++ edgeSort.sort (batch.filter (isResident residentPoints))) residentPoints,
            spill⟩ := by
  have hresident : skipEmpty (flushPendingEdgesToReservoirs edgeSort)
      (reservoirsOf lMax h edges residentPoints) (batch.filter (isResident residentPoints)) =
      .ok (reservoirsOf lMax h (edges ++ edgeSort.sort (batch.filter (isResident residentPoints)))
        residentPoints) := by
    rw [skipEmpty_eq (by
      rw [flushPendingEdgesToReservoirs, List.perm_nil.mp (edgeSort.perm [])]
      rfl)]
    exact flushPendingEdgesToReservoirs_eq edgeSort fun edge hedge =>
      of_decide_eq_true (List.mem_filter.mp hedge).2
  rw [HybridState.flushPendingEdges]
  dsimp only
  rw [hresident, ok_bind, skipEmpty_eq spill.flushPendingEdges_nil]
  cases spill.flushPendingEdges cfg choices
      (batch.filter fun edge => !isResident residentPoints edge) with
  | error e => rfl
  | ok spill => rfl

theorem foldlM_hybrid (batches : List (List PendingEdge)) (edges : List PendingEdge)
    (spill : SpillState) :
    batches.foldlM (HybridState.flushPendingEdges residentPoints edgeSort cfg choices)
        ⟨reservoirsOf lMax h edges residentPoints, spill⟩ =
      ((batches.map fun batch => batch.filter fun edge => !isResident residentPoints edge).foldlM
        (SpillState.flushPendingEdges cfg choices) spill).map fun spill =>
          ⟨reservoirsOf lMax h (edges ++ batches.flatMap fun batch =>
            edgeSort.sort (batch.filter (isResident residentPoints))) residentPoints, spill⟩ := by
  induction batches generalizing edges spill with
  | nil =>
      rw [List.foldlM_nil, List.flatMap_nil, List.append_nil]
      rfl
  | cons batch batches ih =>
      rw [List.foldlM_cons, HybridState.flushPendingEdges_eq, List.map_cons, List.foldlM_cons]
      cases spill.flushPendingEdges cfg choices
          (batch.filter fun edge => !isResident residentPoints edge) with
      | error e => rfl
      | ok spill =>
          rw [ok_bind, List.flatMap_cons, ← List.append_assoc]
          exact ih _ spill

end

/-! ## The spill in parallel -/

theorem SegmentGroup.Reads.clean {group : SegmentGroup} {artifacts : SpillArtifacts}
    {edges : List PendingEdge} (h : group.Reads artifacts edges) : group.Clean artifacts := by
  have hread := readSegments_of_readable h.readable
  rw [SegmentGroup.Clean, hread]
  exact ⟨rfl, fun edge hedge => (h.inside edge hedge).2⟩

theorem SegmentGroup.Reads.degreesFit {group : SegmentGroup} {artifacts : SpillArtifacts}
    {edges : List PendingEdge} {pointStart lMax : Nat} (h : group.Reads artifacts edges)
    (hfit : ∀ point, DegreeFits lMax edges point) : group.DegreesFit pointStart lMax artifacts := by
  intro point hlow hhigh
  have hstart : group.pointStart ≤ point := (Nat.le_max_left ..).trans hlow
  have hfit := hfit point
  rw [DegreeFits, ← h.arrivals point hstart hhigh] at hfit
  rwa [DegreeFits, readSegments_of_readable h.readable]

/-- From artifacts that store a log, groups in parallel give one callback a point, too. -/
theorem SpillArtifacts.Holds.parallel_eq {artifacts : SpillArtifacts} {cfg : SpillConfig}
    {log : SegmentLog} (sort : SegmentSort) (h : artifacts.Holds cfg log)
    {numPoints pointStart lMax : Nat} (hl : 0 < lMax) (hstart : pointStart < numPoints)
    (hp : ∀ edge ∈ readEdges artifacts sort, edge.p < numPoints)
    (hfit : ∀ point, DegreeFits lMax (readEdges artifacts sort) point) (partSort : PartSort)
    (maxParallelGroups : Nat) :
    ∃ stats, reduceSegmentsShardedInOrderFromParallel numPoints pointStart lMax cfg.shardPoints sort
        partSort artifacts maxParallelGroups =
      ⟨pointCallbacks lMax hl (readEdges artifacts sort) pointStart numPoints, .ok stats⟩ := by
  obtain ⟨stats, hserial⟩ := h.reduce_eq sort hl hstart hp
  obtain ⟨groups, hgroups, hwell, -⟩ := h.wellGrouped sort hp
  refine ⟨stats, ?_⟩
  by_cases hfew : (activeGroups pointStart groups).length ≤ 1 ∨ maxParallelGroups ≤ 1
  · rw [reduceParallel_of_few lMax maxParallelGroups partSort hstart hgroups hfew, hserial]
  have hreads : ∀ group ∈ activeGroups pointStart groups,
      group.Active pointStart cfg.shardPoints ∧ group.Clean artifacts ∧
        group.DegreesFit pointStart lMax artifacts := by
    intro group hgroup
    have hread := hwell.reads group (List.mem_filter.mp hgroup).1
    exact ⟨active_of_mem hgroups hgroup, hread.clean, hread.degreesFit hfit⟩
  have hparts : ∃ parts, (activeGroups pointStart groups).mapM
      (SegmentGroup.toPart pointStart lMax cfg.shardPoints artifacts) = .ok parts :=
    ⟨_, mapM_eq_ok_map fun group hgroup => (hreads group hgroup).1.toPart_of_clean hl
      (hreads group hgroup).2.1⟩
  obtain ⟨parts, hparts⟩ := hparts
  have hsame : ∀ group ∈ activeGroups pointStart groups,
      group.replay pointStart lMax cfg.shardPoints artifacts =
        group.reduceSerial pointStart lMax cfg.shardPoints artifacts := by
    intro group hgroup
    obtain ⟨hactive, hclean, hdegrees⟩ := hreads group hgroup
    exact (hactive.replay_of_clean hl hclean).1 hdegrees
  rw [reduceParallel_eq lMax maxParallelGroups partSort hstart hgroups hfew, hparts]
  simp only
  rw [walk_congr hsame, ← hserial, reduceSerial_eq_walk lMax hstart hgroups]

/-! ## Offers -/

/-- A build that succeeds, with a row for every point from what its reservoir was offered. -/
structure Offered (lMax : Nat) (hl : 0 < lMax) (numPoints : Nat) (edges : List PendingEdge)
    (build : Reduction SpillReduceStats) (offers : Nat → List Offer) : Prop where
  perm : ∀ point < numPoints, (offers point).Perm ((arrivals edges point).map PendingEdge.offer)
  result : ∃ stats, build.result = .ok stats
  rows : build.emitted = (List.range numPoints).map fun point =>
    (UInt32.ofNat point, ((HashPruneReservoir.new lMax hl).insertAll (offers point)).neighbors)

section

variable {lMax numPoints residentPoints : Nat} (hl : 0 < lMax)
  {edges resident spilled : List PendingEdge}

/-- Rows of a prefix from some edges, and the rows behind it from others. -/
theorem offered_append (hle : residentPoints ≤ numPoints) (stats : SpillReduceStats)
    (hresident : ∀ point < residentPoints, ((arrivals resident point).map PendingEdge.offer).Perm
      ((arrivals edges point).map PendingEdge.offer))
    (hspilled : ∀ point, residentPoints ≤ point → point < numPoints →
      ((arrivals spilled point).map PendingEdge.offer).Perm
        ((arrivals edges point).map PendingEdge.offer)) :
    Offered lMax hl numPoints edges
      ⟨pointCallbacks lMax hl resident 0 residentPoints ++
        pointCallbacks lMax hl spilled residentPoints numPoints, .ok stats⟩
      fun point => (arrivals (if point < residentPoints then resident else spilled) point).map
        PendingEdge.offer where
  perm point hlt := by
    split_ifs with hpoint
    · exact hresident point hpoint
    · exact hspilled point (Nat.le_of_not_lt hpoint) hlt
  result := ⟨stats, rfl⟩
  rows := by
    have hlen : numPoints = residentPoints + (numPoints - residentPoints) := by omega
    simp only [pointCallbacks, Nat.sub_zero, Nat.zero_add]
    conv_rhs => rw [hlen, List.range_add, List.map_append, List.map_map]
    refine congrArg₂ (· ++ ·) (List.map_congr_left fun point hpoint => ?_)
      (List.map_congr_left fun i _ => ?_)
    · rw [if_pos (List.mem_range.mp hpoint)]
      rfl
    · rw [Function.comp_apply, if_neg (Nat.not_lt.mpr (Nat.le_add_right _ _))]
      rfl

/-- What keeps the edges of a point keeps its offers. -/
theorem arrivals_filter_perm {keep : PendingEdge → Bool} {point : Nat}
    (h : resident.Perm (edges.filter keep)) (hkeep : ∀ edge : PendingEdge, edge.p = point →
      keep edge = true) :
    ((arrivals resident point).map PendingEdge.offer).Perm
      ((arrivals edges point).map PendingEdge.offer) := by
  have hsame : arrivals (edges.filter keep) point = arrivals edges point := by
    rw [arrivals, arrivals, List.filter_filter]
    refine List.filter_congr fun edge _ => ?_
    by_cases hp : edge.p = point
    · rw [hkeep edge hp, Bool.and_true]
    · rw [decide_eq_false hp, Bool.false_and]
  have hperm := offers_perm h point
  rwa [hsame] at hperm

theorem arrivals_map_spilled (edges : List PendingEdge) (point : Nat) :
    (arrivals (edges.map PendingEdge.spilled) point).map PendingEdge.offer =
      (arrivals edges point).map PendingEdge.offer := by
  rw [arrivals, List.filter_map, List.map_map]
  rfl

/-- With candidates that are points, some target is never offered. -/
theorem degreeFits_of_points (hn : numPoints < 2 ^ 32)
    (hperm : spilled.Perm (edges.map PendingEdge.spilled))
    (hc : ∀ edge ∈ edges, edge.c.toNat < numPoints) (point : Nat) :
    DegreeFits lMax spilled point := by
  refine .inr ⟨UInt32.ofNat numPoints, fun edge hedge heq => ?_⟩
  obtain ⟨original, horiginal, rfl⟩ :=
    List.mem_map.mp (hperm.mem_iff.mp (List.mem_of_mem_filter hedge))
  have hlt := hc original horiginal
  rw [show original.c = UInt32.ofNat numPoints from heq, UInt32.toNat_ofNat_of_lt' hn] at hlt
  exact Nat.lt_irrefl _ hlt

end

namespace OomSettings

variable (settings : OomSettings) {numPoints lMax : Nat} (hl : 0 < lMax)
  {batches : List (List PendingEdge)}

/-- The resident edges, in the order of the offers. -/
def residentEdges (batches : List (List PendingEdge)) : List PendingEdge :=
  batches.flatMap fun batch =>
    settings.edgeSort.sort (batch.filter (isResident settings.residentPoints))

/-- The spilled edges, in the order in which the reducer reads them back. -/
def readBack (batches : List (List PendingEdge)) : List PendingEdge :=
  match spillBatches settings.cfg settings.choices (settings.spilled batches) with
  | .ok artifacts => readEdges artifacts settings.segmentSort
  | .error _ => []

/-- What the reservoir of a point is offered, in order: resident, as the batches are flushed, and
else as the spill is read back. -/
def offers (batches : List (List PendingEdge)) (point : Nat) : List Offer :=
  (arrivals (if point < settings.residentPoints then settings.residentEdges batches
    else settings.readBack batches) point).map PendingEdge.offer

theorem spilled_flatten : (settings.spilled batches).flatten =
    batches.flatten.filter fun edge => !isResident settings.residentPoints edge :=
  List.filter_flatten.symm

theorem residentEdges_perm : (settings.residentEdges batches).Perm
    (batches.flatten.filter (isResident settings.residentPoints)) := by
  rw [List.filter_flatten, ← List.flatMap_def]
  exact List.Perm.flatMap_left batches fun batch _ => settings.edgeSort.perm _

/-- The spill is reduced to the rows behind the resident ones. -/
theorem reduceSpill_eq (hn : numPoints < 2 ^ 32)
    (hp : ∀ edge ∈ batches.flatten, edge.p < numPoints ∧ edge.c.toNat < numPoints)
    (hlt : settings.residentPoints < numPoints) :
    ∃ artifacts, spillBatches settings.cfg settings.choices (settings.spilled batches) =
        .ok artifacts ∧
      (artifacts.PartsFit →
        (∀ point, settings.residentPoints ≤ point →
          ((arrivals (settings.readBack batches) point).map PendingEdge.offer).Perm
            ((arrivals batches.flatten point).map PendingEdge.offer)) ∧
        ∃ stats, settings.reduceSpill numPoints lMax artifacts =
          ⟨pointCallbacks lMax hl (settings.readBack batches) settings.residentPoints numPoints,
            .ok stats⟩) := by
  have hmem : ∀ edge ∈ (settings.spilled batches).flatten,
      edge.p < numPoints ∧ edge.c.toNat < numPoints := by
    intro edge hedge
    rw [spilled_flatten] at hedge
    exact hp edge (List.mem_of_mem_filter hedge)
  obtain ⟨artifacts, hspill, hholds⟩ := spillBatches_holds settings.cfg settings.choices
    settings.segmentSort fun edge hedge => (hmem edge hedge).1.trans hn
  refine ⟨artifacts, hspill, fun hfit => ?_⟩
  obtain ⟨log, hholds, hperm⟩ := hholds hfit
  obtain ⟨stats, hreduce⟩ := hholds.parallel_eq settings.segmentSort hl hlt
    (lt_of_perm_spilled hperm fun edge hedge => (hmem edge hedge).1)
    (degreeFits_of_points hn hperm fun edge hedge => (hmem edge hedge).2) settings.partSort
    settings.maxParallelGroups
  have hback : settings.readBack batches = readEdges artifacts settings.segmentSort := by
    rw [readBack, hspill]
  rw [hback]
  refine ⟨fun point hpoint => ?_, stats, hreduce⟩
  have hoffers := offers_perm hperm point
  rw [arrivals_map_spilled] at hoffers
  have hkept : (settings.spilled batches).flatten.Perm
      (batches.flatten.filter fun edge => !isResident settings.residentPoints edge) :=
    .of_eq settings.spilled_flatten
  refine hoffers.trans (arrivals_filter_perm hkept fun edge hedge => ?_)
  rw [isResident, hedge, decide_eq_false (Nat.not_lt.mpr hpoint)]
  rfl

/-! ### The modes -/

theorem build_resident (hall : settings.residentPoints = numPoints)
    (hp : ∀ edge ∈ batches.flatten, edge.p < numPoints) :
    settings.build numPoints lMax hl batches =
      ⟨pointCallbacks lMax hl (settings.residentEdges batches) 0 numPoints, .ok .default⟩ := by
  have hbatches : ∀ batch ∈ batches, ∀ edge ∈ batch, edge.p < numPoints := fun batch hbatch edge
    hedge => hp edge (List.mem_flatten_of_mem hbatch hedge)
  have hsame : settings.residentEdges batches = batches.flatMap settings.edgeSort.sort := by
    refine List.flatMap_congr fun batch hbatch => congrArg settings.edgeSort.sort ?_
    refine List.filter_eq_self.mpr fun edge hedge => ?_
    rw [isResident, hall]
    exact decide_eq_true (hbatches batch hbatch edge hedge)
  rw [build, if_pos hall, allocateReservoirSlab_eq,
    foldlM_flushPendingEdges settings.edgeSort hbatches, Emission.lift_ok, pure_bind,
    emitReservoirs_eq, Emission.emit_bind, List.nil_append, hsame]
  exact congrArg (Emission.mk · _) (List.append_nil _)

theorem build_hybrid (hall : settings.residentPoints ≠ numPoints)
    (hsome : 0 < settings.residentPoints) {artifacts : SpillArtifacts}
    (hspill : spillBatches settings.cfg settings.choices (settings.spilled batches) =
      .ok artifacts) {rows : List Callback} {stats : SpillReduceStats}
    (hreduce : settings.reduceSpill numPoints lMax artifacts = ⟨rows, .ok stats⟩) :
    settings.build numPoints lMax hl batches =
      ⟨pointCallbacks lMax hl (settings.residentEdges batches) 0 settings.residentPoints ++ rows,
        .ok stats⟩ := by
  rw [build, if_neg hall, if_pos hsome, allocateReservoirSlab_eq, foldlM_hybrid]
  rw [spillBatches, OomSettings.spilled] at hspill
  cases hfed : (batches.map fun batch => batch.filter fun edge =>
      !isResident settings.residentPoints edge).foldlM
      (SpillState.flushPendingEdges settings.cfg settings.choices) SpillState.create with
  | error e =>
      rw [hfed] at hspill
      cases hspill
  | ok spill =>
      rw [hfed, ok_bind] at hspill
      simp only [Except.map, Emission.lift_ok, pure_bind, hspill, emitReservoirs_eq,
        Emission.emit_bind, hreduce, List.nil_append]
      rfl

theorem build_spilled (hall : settings.residentPoints ≠ numPoints)
    (hzero : settings.residentPoints = 0) {artifacts : SpillArtifacts}
    (hspill : spillBatches settings.cfg settings.choices (settings.spilled batches) =
      .ok artifacts) {rows : List Callback} {stats : SpillReduceStats}
    (hreduce : settings.reduceSpill numPoints lMax artifacts = ⟨rows, .ok stats⟩) :
    settings.build numPoints lMax hl batches = ⟨rows, .ok stats⟩ := by
  have hspilled : settings.spilled batches = batches := by
    rw [OomSettings.spilled, hzero]
    refine (List.map_congr_left fun batch _ => ?_).trans (List.map_id batches)
    exact List.filter_eq_self.mpr fun edge _ => rfl
  rw [hspilled] at hspill
  rw [build, if_neg hall, if_neg (Nat.not_lt.mpr hzero.le), hspill, Emission.lift_ok, pure_bind,
    hreduce]

/-- Every memory mode builds all rows, each from the offers of its point. -/
theorem build_offered (hn : numPoints < 2 ^ 32)
    (hp : ∀ edge ∈ batches.flatten, edge.p < numPoints ∧ edge.c.toNat < numPoints)
    (hle : settings.residentPoints ≤ numPoints)
    (hfit : ∀ artifacts, spillBatches settings.cfg settings.choices (settings.spilled batches) =
      .ok artifacts → artifacts.PartsFit) :
    Offered lMax hl numPoints batches.flatten (settings.build numPoints lMax hl batches)
      (settings.offers batches) := by
  have hresident : ∀ point < settings.residentPoints,
      ((arrivals (settings.residentEdges batches) point).map PendingEdge.offer).Perm
        ((arrivals batches.flatten point).map PendingEdge.offer) := by
    intro point hpoint
    refine arrivals_filter_perm settings.residentEdges_perm fun edge hedge => ?_
    rw [isResident, hedge, decide_eq_true hpoint]
  by_cases hall : settings.residentPoints = numPoints
  · -- nothing is behind the resident rows
    have hspilled : ∀ point, settings.residentPoints ≤ point → point < numPoints →
        ((arrivals (settings.readBack batches) point).map PendingEdge.offer).Perm
          ((arrivals batches.flatten point).map PendingEdge.offer) :=
      fun point hge hlt => absurd hlt (Nat.not_lt.mpr (hall ▸ hge))
    have hoffered := offered_append hl hle .default hresident hspilled
    rw [pointCallbacks_eq_nil hall.ge, List.append_nil] at hoffered
    rw [settings.build_resident hl hall fun edge hedge => (hp edge hedge).1]
    rw [hall] at hoffered
    unfold offers
    rw [hall]
    exact hoffered
  have hlt : settings.residentPoints < numPoints := Nat.lt_of_le_of_ne hle hall
  obtain ⟨artifacts, hspill, hreduce⟩ := settings.reduceSpill_eq hl hn hp hlt
  obtain ⟨hspilled, stats, hreduce⟩ := hreduce (hfit artifacts hspill)
  have hoffered := offered_append hl hle stats hresident
    fun point hge _ => hspilled point hge
  -- the other two modes hand out the same rows, of which one has none that are resident
  rcases Nat.eq_zero_or_pos settings.residentPoints with hzero | hsome
  · rw [settings.build_spilled hl hall hzero hspill hreduce]
    have hnil : pointCallbacks lMax hl (settings.residentEdges batches) 0 settings.residentPoints =
        [] := pointCallbacks_eq_nil hzero.le
    rw [hnil, List.nil_append] at hoffered
    exact hoffered
  · rw [settings.build_hybrid hl hall hsome hspill hreduce]
    exact hoffered

end OomSettings

/-- Reservoirs with the same slots have the same neighbours. -/
theorem neighbors_perm {lMax : Nat} (hl : 0 < lMax) {offers offers' : List Offer}
    (h : ∀ slot, slot ∈ ((HashPruneReservoir.new lMax hl).insertAll offers).slots ↔
      slot ∈ ((HashPruneReservoir.new lMax hl).insertAll offers').slots) :
    ((HashPruneReservoir.new lMax hl).insertAll offers).neighbors.Perm
      ((HashPruneReservoir.new lMax hl).insertAll offers').neighbors := by
  have hvalid := fun offers => HashPruneReservoir.insertAll_valid
    (HashPruneReservoir.new_valid hl) offers
  refine (List.perm_ext_iff_of_nodup (hvalid offers).nodup (hvalid offers').nodup).mpr fun c => ?_
  simp only [List.mem_map, h]

/-- Any two memory modes hand out the same points in the same order, from reservoirs that were
offered the same edges; where the order of the offers does not matter, the rows have the same
neighbours. -/
theorem residentPrefix_keeps_offers (s t : OomSettings) {numPoints lMax : Nat} (hl : 0 < lMax)
    {batches : List (List PendingEdge)} (hn : numPoints < 2 ^ 32)
    (hp : ∀ edge ∈ batches.flatten, edge.p < numPoints ∧ edge.c.toNat < numPoints)
    (hs : s.residentPoints ≤ numPoints) (ht : t.residentPoints ≤ numPoints)
    (hsfit : ∀ artifacts, spillBatches s.cfg s.choices (s.spilled batches) = .ok artifacts →
      artifacts.PartsFit)
    (htfit : ∀ artifacts, spillBatches t.cfg t.choices (t.spilled batches) = .ok artifacts →
      artifacts.PartsFit) :
    Offered lMax hl numPoints batches.flatten (s.build numPoints lMax hl batches)
        (s.offers batches) ∧
      Offered lMax hl numPoints batches.flatten (t.build numPoints lMax hl batches)
        (t.offers batches) ∧
      (∀ point < numPoints, (s.offers batches point).Perm (t.offers batches point)) ∧
      ∀ point < numPoints,
        HistoryIndependent lMax hl ((arrivals batches.flatten point).map PendingEdge.offer) →
          ((HashPruneReservoir.new lMax hl).insertAll (s.offers batches point)).neighbors.Perm
            ((HashPruneReservoir.new lMax hl).insertAll (t.offers batches point)).neighbors := by
  have hoffers := s.build_offered hl hn hp hs hsfit
  have hoffers' := t.build_offered hl hn hp ht htfit
  refine ⟨hoffers, hoffers', fun point hpoint => ?_, fun point hpoint hfree => ?_⟩
  · exact (hoffers.perm point hpoint).trans (hoffers'.perm point hpoint).symm
  · exact neighbors_perm hl (hfree _ _ (hoffers.perm point hpoint) (hoffers'.perm point hpoint))

/-- Ten points, of which some are resident. -/
def tenPointSettings (residentPoints : Nat) : OomSettings where
  residentPoints := residentPoints
  cfg := twoShardConfig
  maxParallelGroups := 4
  edgeSort := .byKey PendingEdge.p
  choices := insertionChoices
  segmentSort := .byKey SpillSegmentDesc.sortKey
  partSort := .byKey NeighborPart.pointStart

/-- Three resident points, the last of them in a shard of its own, and none at all. -/
theorem residentPrefix_keeps_offers_three :
    Offered 2 (Nat.succ_pos 1) 10 twoShardBatches.flatten
        ((tenPointSettings 3).build 10 2 (Nat.succ_pos 1) twoShardBatches)
        ((tenPointSettings 3).offers twoShardBatches) ∧
      Offered 2 (Nat.succ_pos 1) 10 twoShardBatches.flatten
        ((tenPointSettings 0).build 10 2 (Nat.succ_pos 1) twoShardBatches)
        ((tenPointSettings 0).offers twoShardBatches) ∧
      (∀ point < 10, ((tenPointSettings 3).offers twoShardBatches point).Perm
        ((tenPointSettings 0).offers twoShardBatches point)) ∧
      ∀ point < 10, HistoryIndependent 2 (Nat.succ_pos 1)
          ((arrivals twoShardBatches.flatten point).map PendingEdge.offer) →
        ((HashPruneReservoir.new 2 (Nat.succ_pos 1)).insertAll
            ((tenPointSettings 3).offers twoShardBatches point)).neighbors.Perm
          ((HashPruneReservoir.new 2 (Nat.succ_pos 1)).insertAll
            ((tenPointSettings 0).offers twoShardBatches point)).neighbors := by
  have hparts : ∀ residentPoints count, (spillBatches twoShardConfig insertionChoices
      ((tenPointSettings residentPoints).spilled twoShardBatches)).map
        (fun artifacts => artifacts.partFiles.length) = .ok count → count < 65535 →
      ∀ artifacts, spillBatches twoShardConfig insertionChoices
        ((tenPointSettings residentPoints).spilled twoShardBatches) = .ok artifacts →
        artifacts.PartsFit := by
    intro residentPoints count hcount hlt artifacts hspill shardId
    rw [hspill] at hcount
    have hlen : artifacts.partFiles.length = count := Except.ok.inj hcount
    exact Nat.lt_of_le_of_lt (List.length_filter_le ..) (hlen ▸ hlt)
  exact residentPrefix_keeps_offers (tenPointSettings 3) (tenPointSettings 0) (Nat.succ_pos 1)
    (by decide) (by decide) (by decide) (by decide) (hparts 3 1 rfl (by decide))
    (hparts 0 2 rfl (by decide))

end ForgeANN
