-- SUMMARY: Splitting an oversized leaf: sampled leaders, top-k assignment, retries with more leaders, chunks at last.
import ForgeANN.Common.Float
import ForgeANN.Lib.SortDedup
import ForgeANN.Rbc.Materialize

/-!
# Forced splits

A leaf above the hard cap is clustered around sampled leaders, with more leaders
at every retry, until the clusters fit; the best split seen, or else plain
chunks, is what remains after the last retry.
-/
namespace ForgeANN

open Lib

/-! ## Sampling leaders -/

def splitmix64 (value : UInt64) : UInt64 :=
  let value := value + 0x9e3779b97f4a7c15
  let value := (value ^^^ (value >>> 30)) * 0xbf58476d1ce4e5b9
  let value := (value ^^^ (value >>> 27)) * 0x94d049bb133111eb
  value ^^^ (value >>> 31)

def stableSampleScore (pointId : UInt32) (seed : UInt64) : UInt64 :=
  splitmix64 (seed ^^^ pointId.toUInt64 * 0x9e3779b97f4a7c15)

/-- The ids with their first positions, each once. -/
def uniquePositions (ids : List UInt32) : List (UInt32 × Nat) :=
  dedupByKey Prod.fst
    (ids.zipIdx.mergeSort fun a b => decide (a.1 < b.1 ∨ a.1 = b.1 ∧ a.2 ≤ b.2))

/-- Selecting the `k` smallest scores and sorting them is sorting and taking `k`: scores are told
    apart by their ids, which are distinct. -/
def samplePositionsBottomk (ids : List UInt32) (k : Nat) (seed : UInt64) : List Nat :=
  if k = 0 ∨ ids = [] then []
  else
    let unique := uniquePositions ids
    if unique.length ≤ k then unique.map Prod.snd
    else
      let scored := unique.map fun (id, idx) => (stableSampleScore id seed, id, idx)
      let sorted := scored.mergeSort fun a b =>
        decide (a.1 < b.1 ∨ a.1 = b.1 ∧ a.2.1 ≤ b.2.1)
      (sorted.take k).map fun (_, _, idx) => idx

def sampleSetBottomk (ids : List UInt32) (k : Nat) (seed : UInt64) : List UInt32 :=
  (samplePositionsBottomk ids k seed).map fun idx => ids.getD idx 0

/-! ## The nearest leaders of a point -/

/-- The `k` nearest so far, the farthest first. -/
structure StackTopK where
  buf : List (F32 × Nat)
  k : Nat

namespace StackTopK

def new (k : Nat) : StackTopK := ⟨[], min k 32⟩

/-- Swaps an entry forward past those it is nearer than. -/
def sift (entry : F32 × Nat) : List (F32 × Nat) → List (F32 × Nat)
  | [] => [entry]
  | last :: buf => if entry.1.lt last.1 then last :: sift entry buf else entry :: last :: buf

def push (topK : StackTopK) (dist : F32) (id : Nat) : StackTopK :=
  if topK.buf.length < topK.k then { topK with buf := sift (dist, id) topK.buf }
  else
    match topK.buf with
    | [] => topK
    | last :: buf => if dist.lt last.1 then { topK with buf := sift (dist, id) buf } else topK

def ids (topK : StackTopK) : List Nat := topK.buf.reverse.map Prod.snd

end StackTopK

/-- Every point has a leader, or several. -/
structure Assigns (points leaders : Nat) (assignment : List (List Nat)) : Prop where
  length : assignment.length = points
  nonempty : ∀ lids ∈ assignment, lids ≠ []
  inRange : ∀ lids ∈ assignment, ∀ lid ∈ lids, lid < leaders

def PointLeaders (points leaders : Nat) : Type :=
  { assignment : List (List Nat) // Assigns points leaders assignment }

/-- The parameters of a forced split, its dataset and its random numbers. -/
structure ForcedSplitContext where
  metricL2 : Bool
  strictOomPrefetchPipelineEnabled : Bool
  maxLeaders : Nat
  cMin : Nat
  fanoutTop : Nat
  fanoutSecond : Nat
  getDistance : UInt32 → UInt32 → AnnResult F32
  /-- What the tiles of the matrix product come to, by the positions of point and leader. -/
  gramDistances : List UInt32 → List UInt32 → AnnResult (Nat → Nat → F32)
  /-- The ADSampling assignment, where the assignment context calls for it. -/
  adsampling : (depth : Nat) → (leaf leaders : List UInt32) → (fanout : Nat) →
    Option (AnnResult (PointLeaders leaf.length leaders.length))
  /-- The draws of `StdRng::seed_from_u64`. -/
  random : UInt64 → Nat → UInt64

namespace ForcedSplitContext

variable (ctx : ForcedSplitContext)

def adaptiveFanout (depth : Nat) : Nat :=
  match depth with
  | 0 => ctx.fanoutTop
  | 1 => ctx.fanoutSecond
  | _ => 1

/-! ## Assigning the points -/

def scalarLeaders (leaders : List UInt32) (fanout : Nat) (idx : UInt32) : AnnResult (List Nat) := do
  let topK ← leaders.zipIdx.foldlM (fun topK (leader, lid) => do
    let d ← ctx.getDistance idx leader
    .ok (StackTopK.push topK d lid)) (StackTopK.new fanout)
  .ok topK.ids

/-- With a fanout of one, the first of the nearest leaders; the first leader of all where none is
    nearer than infinity. -/
def gramBest (dist : Nat → F32) (numLeaders : Nat) : Nat :=
  ((List.range numLeaders).foldl
    (fun best lid => if (dist lid).lt best.1 then (dist lid, lid) else best)
    ((⟨0x7f800000⟩ : F32), 0)).2

def gramLeaders (dist : Nat → F32) (numLeaders fanout : Nat) : List Nat :=
  if fanout = 1 then [gramBest dist numLeaders]
  else
    ((List.range numLeaders).foldl (fun topK lid => StackTopK.push topK (dist lid) lid)
      (StackTopK.new fanout)).ids

def computeClustersGemm (leaf leaders : List UInt32) (fanout : Nat) : AnnResult (List (List Nat)) := do
  let dist ← ctx.gramDistances leaf leaders
  .ok ((List.range leaf.length).map fun i => gramLeaders (dist i) leaders.length fanout)

def computeClustersGemmBudgetedWithContext (depth : Nat) (leaf leaders : List UInt32)
    (fanout : Nat) : AnnResult (List (List Nat)) :=
  match ctx.adsampling depth leaf leaders fanout with
  | some assignment => assignment.map Subtype.val
  | none => ctx.computeClustersGemm leaf leaders fanout

/-- The leaders of every point, by the path the metric and the size call for. -/
def assignLeaders (depth : Nat) (leaf leaders : List UInt32) (fanout : Nat) :
    AnnResult (List (List Nat)) :=
  if ctx.metricL2 ∧ 256 ≤ leaf.length then
    if ctx.strictOomPrefetchPipelineEnabled then
      ctx.computeClustersGemmBudgetedWithContext depth leaf leaders fanout
    else ctx.computeClustersGemm leaf leaders fanout
  else leaf.mapM (ctx.scalarLeaders leaders fanout)

end ForcedSplitContext

def pushToLeaders (clusters : List (List UInt32)) (idx : UInt32) (lids : List Nat) :
    List (List UInt32) :=
  lids.foldl (fun clusters lid => clusters.modify lid (· ++ [idx])) clusters

/-- The points gathered into a cluster per leader. -/
def gatherClusters (numLeaders : Nat) (leaf : List UInt32) (assignment : List (List Nat)) :
    List (List UInt32) :=
  (leaf.zip assignment).foldl (fun clusters p => pushToLeaders clusters p.1 p.2)
    (List.replicate numLeaders [])

/-! ## The split -/

def FORCED_LEAF_HARD_CAP : Nat := 8000
def FORCED_LEAF_SPLIT_RETRY_LIMIT : Nat := 6

def shouldDedupCluster (depth localFanout : Nat) : Bool := depth ≤ 1 || 1 < localFanout

def maxChild (clusters : List (List UInt32)) : Nat :=
  (clusters.map List.length).max?.getD 0

/-- The clusters of one attempt, after merging, dedup and the removal of empty ones. -/
def mergedAttempt (ctx : ForcedSplitContext) (depth hardCap localFanout : Nat)
    (clusters : List (List UInt32)) : List (List UInt32) :=
  let merged := mergeClusters clusters (min ctx.cMin hardCap) hardCap
  let merged := if shouldDedupCluster depth localFanout then merged.map sortDedup else merged
  merged.filter fun cluster => cluster ≠ []

/-- What remains when no attempt has fitted: the best split seen, or chunks. -/
def settleSplit (leaf : List UInt32) (hardCap : Nat) (best : Option (Nat × List (List UInt32))) :
    List (List UInt32) :=
  match best with
  | some (_, split) => split
  | none => chunks hardCap leaf

/-- A split is kept if it is the first, or its largest child is smaller than any before. -/
def keepBetter (best : Option (Nat × List (List UInt32))) (merged : List (List UInt32)) :
    Option (Nat × List (List UInt32)) :=
  match best with
  | some (bestMaxChild, split) =>
      if maxChild merged < bestMaxChild then some (maxChild merged, merged)
      else some (bestMaxChild, split)
  | none => some (maxChild merged, merged)

/-- The loop over the attempts, `tries` of them left. -/
def trySplits (ctx : ForcedSplitContext) (leaf : List UInt32) (depth hardCap maxLeaders : Nat)
    (seed : UInt64) : Nat → Nat → Option (Nat × List (List UInt32)) → AnnResult (List (List UInt32))
  | 0, _, best => .ok (settleSplit leaf hardCap best)
  | tries + 1, numLeaders, best => do
      let sampleSeed := ctx.random seed (FORCED_LEAF_SPLIT_RETRY_LIMIT - (tries + 1))
      let leaders := sampleSetBottomk leaf numLeaders sampleSeed
      let localFanout := max (min (max (ctx.adaptiveFanout depth) 1) leaders.length) 1
      let assignment ← ctx.assignLeaders depth leaf leaders localFanout
      let merged := mergedAttempt ctx depth hardCap localFanout
        (gatherClusters numLeaders leaf assignment)
      let splits := 1 < merged.length ∧ maxChild merged < leaf.length
      if splits ∧ maxChild merged ≤ hardCap then .ok merged
      else
        let best := if splits then keepBetter best merged else best
        let nextLeaders := max (min (numLeaders * 2) maxLeaders) (numLeaders + 1)
        if maxLeaders ≤ numLeaders ∨ nextLeaders = numLeaders then
          .ok (settleSplit leaf hardCap best)
        else trySplits ctx leaf depth hardCap maxLeaders seed tries nextLeaders best

def forcedSplitOversizedLeaf (ctx : ForcedSplitContext) (leaf : List UInt32) (depth hardCap : Nat)
    (seed : UInt64) : AnnResult (List (List UInt32)) :=
  let n := leaf.length
  if n ≤ hardCap then .ok [leaf]
  else
    let maxLeaders := min (max ctx.maxLeaders 2) n
    let numLeaders := min (max ((n + hardCap - 1) / hardCap) 2) maxLeaders
    trySplits ctx leaf depth hardCap maxLeaders seed FORCED_LEAF_SPLIT_RETRY_LIMIT numLeaders none

end ForgeANN
