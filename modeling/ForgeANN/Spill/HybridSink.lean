-- SUMMARY: Edges below a resident prefix go to reservoirs and the others to the spill sink: the memory modes of a build.
import ForgeANN.Spill.Refinement

/-!
# Memory modes

With memory for all reservoirs nothing is spilled, and with none everything is. In
between the first points have reservoirs, and the edges of the others go to the
spill sink. The rows of the resident points are handed out before the spill is
reduced from there on.
-/
namespace ForgeANN

open Lib

/-- `sort_unstable_by_key(|e| e.p)`. -/
abbrev EdgeSort := UnstableSort fun a b : PendingEdge => a.p ≤ b.p

/-! ## Sinks -/

def insertPendingEdge (reservoirs : List HashPruneReservoir) (edge : PendingEdge) :
    AnnResult (List HashPruneReservoir) :=
  match reservoirs[edge.p]? with
  | some reservoir =>
      .ok (reservoirs.set edge.p (reservoir.insert edge.c edge.hash edge.dist))
  | none => .error (.panic "index out of bounds")

/-- The batch is sorted, so that every reservoir is locked once. -/
def flushPendingEdgesToReservoirs (edgeSort : EdgeSort) (reservoirs : List HashPruneReservoir)
    (edges : List PendingEdge) : AnnResult (List HashPruneReservoir) :=
  (edgeSort.sort edges).foldlM insertPendingEdge reservoirs

/-- A sink is not called without edges. -/
def skipEmpty {σ : Type} (flush : σ → List PendingEdge → AnnResult σ) (state : σ)
    (edges : List PendingEdge) : AnnResult σ :=
  if edges = [] then .ok state else flush state edges

/-- `HybridEdgeSink`, with what its two sinks hold. -/
structure HybridState where
  reservoirs : List HashPruneReservoir
  spill : SpillState

def isResident (residentPoints : Nat) (edge : PendingEdge) : Bool := edge.p < residentPoints

def HybridState.flushPendingEdges (residentPoints : Nat) (edgeSort : EdgeSort) (cfg : SpillConfig)
    (choices : SpillChoices) (state : HybridState) (edges : List PendingEdge) :
    AnnResult HybridState := do
  let residentEdges := edges.filter (isResident residentPoints)
  let spillEdges := edges.filter fun edge => !isResident residentPoints edge
  let reservoirs ← skipEmpty (flushPendingEdgesToReservoirs edgeSort) state.reservoirs residentEdges
  let spill ← skipEmpty (SpillState.flushPendingEdges cfg choices) state.spill spillEdges
  .ok ⟨reservoirs, spill⟩

/-! ## Modes -/

/-- What the memory budget and the machine decide, and what sorts leave open. -/
structure OomSettings where
  residentPoints : Nat
  cfg : SpillConfig
  maxParallelGroups : Nat
  edgeSort : EdgeSort
  choices : SpillChoices
  segmentSort : SegmentSort
  partSort : PartSort

/-- One call of `on_node_done` a reservoir. -/
def emitReservoirs (reservoirs : List HashPruneReservoir) : Reduction Unit :=
  Emission.emit (reservoirs.zipIdx.map fun (reservoir, i) => (UInt32.ofNat i, reservoir.neighbors))

namespace OomSettings

variable (settings : OomSettings) (numPoints lMax : Nat) (lMax_pos : 0 < lMax)

def reduceSpill (artifacts : SpillArtifacts) : Reduction SpillReduceStats :=
  reduceSegmentsShardedInOrderFromParallel numPoints settings.residentPoints lMax
    settings.cfg.shardPoints settings.segmentSort settings.partSort artifacts
    settings.maxParallelGroups

/-- `build_forgeann_graph_oom` from the first batch of edges on. -/
def build (batches : List (List PendingEdge)) : Reduction SpillReduceStats :=
  if settings.residentPoints = numPoints then do
    let reservoirs ← Emission.lift (batches.foldlM
      (flushPendingEdgesToReservoirs settings.edgeSort)
      (allocateReservoirSlab numPoints lMax lMax_pos))
    emitReservoirs reservoirs
    pure .default
  else if 0 < settings.residentPoints then do
    let sink ← Emission.lift (batches.foldlM
      (HybridState.flushPendingEdges settings.residentPoints settings.edgeSort settings.cfg
        settings.choices)
      ⟨allocateReservoirSlab settings.residentPoints lMax lMax_pos, SpillState.create⟩)
    let artifacts ← Emission.lift (sink.spill.finish settings.cfg settings.choices)
    emitReservoirs sink.reservoirs
    settings.reduceSpill numPoints lMax artifacts
  else do
    let artifacts ← Emission.lift (spillBatches settings.cfg settings.choices batches)
    settings.reduceSpill numPoints lMax artifacts

/-- The batches as the spill sink gets them. -/
def spilled (batches : List (List PendingEdge)) : List (List PendingEdge) :=
  batches.map fun edges => edges.filter fun edge => !isResident settings.residentPoints edge

end OomSettings

end ForgeANN
