-- SUMMARY: Leaves drained in batches: what goes to the recorder at once and what is collected for the edge sink.
import ForgeANN.Leaf.LeafEmission
import ForgeANN.Lib.SortDedup
import ForgeANN.Points.Hydrate
import ForgeANN.Scheduler.Budget

/-!
# Batches of leaves

A worker takes several leaves off the queue. Leaves of one dataset are hydrated
together, and what they hand out is collected before it goes to the edge sink; the
recorder is told at once. A leaf by itself hands its edges out directly.

Batches of other workers are under way meanwhile. The first error of any of them is kept
for all, and the recorder and the edge sink can refuse what they are given.
-/
namespace ForgeANN

open Lib

/-! ## Datasets -/

/-- What a leaf uses beside its dataset: the sketches, the matrix library, and the executor of
ADSampling. -/
structure LeafTools where
  prefetch : List UInt32 → AnnResult (List (List F32))
  norm : List F32 → F32
  matMul : List (List F32) → List (List F32) → Nat → Nat → F32
  computeLeafAdsamplingForParams : List (List F32) → Nat → AnnResult (List (List (Nat × F32)))

/-- A dataset as a leaf reads it. -/
def PointReads.leafStore (tools : LeafTools) (reads : PointReads) : LeafStore F32 where
  arith := F32.arith
  readPoint := reads.readPoint
  getDistance := reads.getDistance
  prefetch := tools.prefetch
  norm := tools.norm
  matMul := tools.matMul
  computeLeafAdsamplingForParams := tools.computeLeafAdsamplingForParams

/-- `PointPipelineConfig`, with what tells whether a leaf is hydrated. -/
structure HydrationConfig extends PointPipeline.PointPipelineConfig where
  enabled : Bool
  minLeafPoints : Nat

/-- A leaf, and a number that tells its execution from all others. -/
structure LeafTask where
  leaf : Leaf
  ticket : Nat

/-- A leaf in the queue, with the index of its dataset if it has one of its own. -/
structure QueuedLeaf extends LeafTask where
  dataset : Option Nat

/-! ## Sinks -/

/-- `stable_leaf_route_family`. -/
def stableLeafRouteFamily (leaf : Leaf) : UInt32 :=
  let mix (x : UInt64) : UInt64 :=
    let x := x + 0x9e3779b97f4a7c15
    let x := (x ^^^ (x >>> 30)) * 0xbf58476d1ce4e5b9
    let x := (x ^^^ (x >>> 27)) * 0x94d049bb133111eb
    x ^^^ (x >>> 31)
  let rotateLeft (x : UInt64) (n : UInt64) : UInt64 := (x <<< n) ||| (x >>> (64 - n))
  let first := (leaf.head?.getD 0).toUInt64
  let mid := (leaf[leaf.length / 2]?.getD 0).toUInt64
  let last := (leaf.getLast?.getD 0).toUInt64
  let seed := (UInt64.ofNat leaf.length * 0xd6e8feb86659fd93) ^^^ rotateLeft first 7 ^^^
    rotateLeft mid 17 ^^^ rotateLeft last 29
  max (mix seed).toUInt32 1

/-- What the recorder or the edge sink is given. -/
inductive DrainEvent where
  | record (family : UInt32) (flush : LeafFlush F32)
  | sink (flush : LeafFlush F32)

/-- The recorder of a build, of which there is one at most. -/
inductive LeafRecorder where
  | none
  | spineOverlay
  /-- The View-Lune recorder arranges a batch of edges before the edge sink gets it. -/
  | viewLune (arrange : List (LeafEdge F32) → List (LeafEdge F32))

namespace LeafRecorder

/-- `wants_lune_witnesses` of the sink that a leaf is given. No edge sink of a build wants them. -/
def wantsLuneWitnesses : LeafRecorder → Bool
  | none => false
  | spineOverlay => false
  | viewLune _ => true

/-- What becomes of a flush: edges are recorded and passed on, witnesses not by every sink. -/
def events (family : UInt32) : LeafRecorder → LeafFlush F32 → List DrainEvent
  | none, flush => [.sink flush]
  | spineOverlay, .edges edges => [.record family (.edges edges), .sink (.edges edges)]
  | spineOverlay, .witnesses _ => []
  | viewLune arrange, .edges edges =>
      [.record family (.edges edges), .sink (.edges (arrange edges))]
  | viewLune _, .witnesses witnesses => [.record family (.witnesses witnesses)]

end LeafRecorder

abbrev Drain := Emission DrainEvent AnnError

namespace DrainEvent

def recorded : DrainEvent → Option (UInt32 × LeafFlush F32)
  | record family flush => some (family, flush)
  | sink _ => Option.none

def sunk : DrainEvent → Option (LeafFlush F32)
  | record _ _ => Option.none
  | sink flush => some flush

end DrainEvent

/-! ## Leaves -/

/-- In which order parallel leaves hand out what they do, in which order they end, and which of
them are not started any more once one has failed. -/
structure ParallelOrder where
  merge : List (List DrainEvent) → List DrainEvent
  merge_perm : ∀ logs, (merge logs).Perm logs.flatten
  ended : List LeafTask → List LeafTask
  ended_perm : ∀ tasks, (ended tasks).Perm tasks
  started : List LeafTask → List LeafTask
  started_sublist : ∀ tasks, (started tasks).Sublist tasks

/-- What leaves meet that is not of their making, by the tickets of those that are at work
together: one leaf, or all of a batch that is hydrated. -/
structure Surroundings where
  /-- The message in `first_error` when it is looked at. -/
  firstError : List Nat → Option String
  /-- What the recorder or the edge sink answers to an event, by how many came before. -/
  answer : List Nat → Nat → DrainEvent → AnnResult Unit

/-- What a scheduler is created with, as far as its leaves depend on it. -/
structure DrainContext where
  params : LeafEmitParams
  metric : Metric
  tools : LeafTools
  dataset : PointReads
  datasets : Nat → PointReads
  sort : TableSort
  pointPipelineConfig : Option HydrationConfig
  recorder : LeafRecorder
  leafBatchDrainEnabled : Bool
  maxActiveHydrations : Nat
  largeLeafMinSize : Nat
  leafBlockRows : Nat
  threads : Nat
  order : ParallelOrder
  surroundings : Surroundings

namespace DrainContext

variable (ctx : DrainContext)

/-- The dataset of a leaf: its own, or that of the build. -/
def datasetOf (dataset : Option Nat) : PointReads :=
  match dataset with
  | some index => ctx.datasets index
  | none => ctx.dataset

/-- A resident subset in place of the dataset. -/
def hydrate (config : HydrationConfig) (reads : PointReads) (ids : List UInt32) :
    AnnResult PointReads := do
  let store ← reads.hydrateResidentSubset ctx.sort config.toPointPipelineConfig ids
  .ok (.ofResidentSubset store)

/-- A leaf on the path for its size. -/
def leafRun (reads : PointReads) (leaf : Leaf) : LeafRun F32 Unit :=
  let store := reads.leafStore ctx.tools
  let wants := ctx.recorder.wantsLuneWitnesses
  if ctx.largeLeafMinSize ≤ leaf.length then
    store.processLeafParallelLarge ctx.params ctx.metric leaf wants ctx.leafBlockRows ctx.threads
  else store.processLeaf ctx.params ctx.metric leaf wants

/-- The leaf's own hydration, which a resident subset does not need. -/
def leafDataset (reads : PointReads) (leaf : Leaf) : AnnResult PointReads :=
  match ctx.pointPipelineConfig with
  | some config =>
      if config.enabled && decide (config.minLeafPoints ≤ leaf.length) &&
        !reads.isResidentSubset then ctx.hydrate config reads leaf
      else .ok reads
  | none => .ok reads

/-- The flushes of a leaf as events for the recorder and for the edge sink. -/
def tagged (leaf : Leaf) (run : LeafRun F32 Unit) : Drain Unit :=
  ⟨run.emitted.flatMap (ctx.recorder.events (stableLeafRouteFamily leaf)), run.result⟩

/-- `check_for_error`: an error that is kept becomes everyone's. -/
def checkForError (tickets : List Nat) : AnnResult Unit :=
  match ctx.surroundings.firstError tickets with
  | some message => .error (.index message)
  | none => .ok ()

/-- `build_leaf_profile_with_dataset_sketches_and_sink`. A flush that is refused ends the leaf. -/
def buildLeafProfile (reads : PointReads) (answer : Nat → DrainEvent → AnnResult Unit)
    (task : LeafTask) : Drain Unit := do
  Emission.lift (ctx.checkForError [task.ticket])
  let leafDataset ← Emission.lift (ctx.leafDataset reads task.leaf)
  (ctx.tagged task.leaf (ctx.leafRun leafDataset task.leaf)).offeredTo answer

/-- `process_leaf_task_with_dataset`. -/
def processLeafTask (reads : PointReads) (task : LeafTask) : Drain Unit :=
  ctx.buildLeafProfile reads (ctx.surroundings.answer [task.ticket]) task

/-! ## Batches -/

/-- Leaf by leaf. -/
def processEach (reads : PointReads) (leaves : List LeafTask) : Drain Unit :=
  leaves.forM (ctx.processLeafTask reads)

/-- All leaves in parallel; where some fail, the error of one of them is returned. -/
def processParallel (reads : PointReads) (leaves : List LeafTask) : Drain Unit :=
  let emitted (leaves : List LeafTask) : List DrainEvent :=
    ctx.order.merge (leaves.map fun task => (ctx.processLeafTask reads task).emitted)
  match (ctx.order.ended leaves).mapM fun task => (ctx.processLeafTask reads task).result with
  | .ok _ => ⟨emitted leaves, .ok ()⟩
  | .error err => ⟨emitted (ctx.order.started leaves), .error err⟩

/-- `acquire_leaf_batch_hydration_slot`: the wait for a slot ends with the slot, or with an error
that one of its turns sees. Without a limit there is no wait. -/
def acquireLeafBatchHydrationSlot (tickets : List Nat) : AnnResult Unit :=
  if ctx.maxActiveHydrations = 0 then .ok () else ctx.checkForError tickets

/-- `BatchEdgeCollector`. -/
structure Collected where
  edges : List (LeafEdge F32)
  luneWitnesses : List PendingLuneWitness

/-- The edges and witnesses among events, for the edge sink. -/
def Collected.add (collected : Collected) (events : List DrainEvent) : Collected :=
  let sunk := events.filterMap DrainEvent.sunk
  ⟨collected.edges ++ sunk.flatMap LeafFlush.edgesIn,
    collected.luneWitnesses ++ sunk.flatMap LeafFlush.witnessesIn⟩

/-- The answers a leaf gets where its edge sink is the collector, which refuses nothing. -/
def collectorAnswer (ticket : Nat) (n : Nat) : DrainEvent → AnnResult Unit
  | .record family flush => ctx.surroundings.answer [ticket] n (.record family flush)
  | .sink _ => .ok ()

/-- A leaf whose edge sink is the collector: the recorder is told at once. -/
def collectLeaf (reads : PointReads) (collected : Collected) (task : LeafTask) :
    Drain Collected :=
  let run := ctx.buildLeafProfile reads (ctx.collectorAnswer task.ticket) task
  ⟨run.emitted.filter fun event => event.recorded.isSome,
    run.result.map fun _ => collected.add run.emitted⟩

/-- `BatchEdgeCollector::flush_into`. -/
def flushInto (tickets : List Nat) (collected : Collected) : Drain Unit :=
  (Emission.emit [.sink (.edges collected.edges), .sink (.witnesses collected.luneWitnesses)] :
    Drain Unit).offeredTo (ctx.surroundings.answer tickets)

/-- `process_leaf_batch_with_dataset`. -/
def processLeafBatchWithDataset (reads : PointReads) (leaves : List LeafTask) : Drain Unit :=
  if leaves.length ≤ 1 ∨ ctx.leafBatchDrainEnabled = false then ctx.processEach reads leaves
  else
    let uniqueIds := sortDedup (leaves.flatMap LeafTask.leaf)
    if uniqueIds = [] then pure ()
    -- the points are in memory already
    else if reads.isResidentSubset then ctx.processParallel reads leaves
    else
      match ctx.pointPipelineConfig with
      | none => ctx.processEach reads leaves
      | some config => do
          -- from here on the leaves share one turn at the recorded error and at the edge sink
          let tickets := leaves.map LeafTask.ticket
          Emission.lift (ctx.acquireLeafBatchHydrationSlot tickets)
          let hydrated ← Emission.lift (ctx.hydrate config reads uniqueIds)
          let collected ← leaves.foldlM (ctx.collectLeaf hydrated) ⟨[], []⟩
          ctx.flushInto tickets collected

/-- `flush_queued_leaf_batch`. -/
def flushQueuedLeafBatch (dataset : Option Nat) (leaves : List LeafTask) : Drain Unit :=
  if leaves = [] then pure () else ctx.processLeafBatchWithDataset (ctx.datasetOf dataset) leaves

/-- The leaves of one dataset after another, from those that are waiting on. -/
def processQueuedFrom : Option Nat → List LeafTask → List QueuedLeaf → Drain Unit
  | dataset, leaves, [] => ctx.flushQueuedLeafBatch dataset leaves
  | dataset, leaves, queued :: rest =>
      if leaves = [] then processQueuedFrom queued.dataset [queued.toLeafTask] rest
      else if dataset = queued.dataset then
        processQueuedFrom dataset (leaves ++ [queued.toLeafTask]) rest
      else do
        -- the dataset changes, so those that are waiting go first
        ctx.flushQueuedLeafBatch dataset leaves
        processQueuedFrom queued.dataset [queued.toLeafTask] rest

/-- `process_queued_leaf_batch`. -/
def processQueuedLeafBatch (queued : List QueuedLeaf) : Drain Unit :=
  ctx.processQueuedFrom none [] queued

end DrainContext

end ForgeANN
