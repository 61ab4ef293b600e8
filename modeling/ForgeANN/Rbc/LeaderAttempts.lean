-- SUMMARY: How many leaders a cluster is assigned to, and the external assignment attempts that spool them as `u16`s.
import ForgeANN.Rbc.ExternalPartition
import ForgeANN.Rbc.Splits

/-!
# Leaders of the external assignment

The number of leaders is a sampled fraction of the cluster, capped by a command
line limit, and doubles while an attempt does not split the cluster. Every
attempt spools the indices of the leaders as `u16`s and plans the merge from them.
-/
namespace ForgeANN

open Lib

/-! ## Arguments -/

/-- The command line arguments the number of leaders depends on. -/
structure LeaderArgs where
  leafSizeMin : Nat
  leafSizeMax : Nat
  fanoutTop : Nat
  fanoutSecond : Nat
  maxLeaders : Nat
  psampFraction : Float

/-- `log_index_config_error`. -/
structure IndexConfigError where
  parameter : String
  err : String
deriving DecidableEq, Repr

/-- The checks on these arguments; the others are about other arguments. -/
def validateArgs (args : LeaderArgs) : Except IndexConfigError Unit :=
  if args.leafSizeMin = 0 ∨ args.leafSizeMax < args.leafSizeMin then
    .error ⟨"leaf_size_min", "leaf_size_min must be > 0 and <= leaf_size_max"⟩
  else if args.fanoutTop = 0 ∨ args.fanoutSecond = 0 then
    .error ⟨"fanout", "fanout_top and fanout_second must be > 0"⟩
  else if args.maxLeaders = 0 then
    .error ⟨"max_leaders", "max_leaders must be > 0"⟩
  else if ¬ args.psampFraction.isFinite ∨ args.psampFraction ≤ 0.0 then
    .error ⟨"psamp_fraction", "psamp_fraction must be finite and > 0"⟩
  else .ok ()

namespace LeaderArgs

variable (args : LeaderArgs)

def fanoutForDepth (depth : Nat) : Nat :=
  match depth with
  | 0 => args.fanoutTop
  | 1 => args.fanoutSecond
  | _ => 1

def adaptivePsampFraction (clusterSize depth : Nat) : Float :=
  let frac := args.psampFraction
  let frac :=
    if 20000000 ≤ clusterSize then frac * 0.05
    else if 10000000 ≤ clusterSize then frac * 0.1
    else if 5000000 ≤ clusterSize then frac * 0.2
    else if 1000000 ≤ clusterSize then frac * 0.4
    else if 100000 ≤ clusterSize then frac * 0.7
    else frac
  let frac :=
    if 4 < depth then frac * 0.35
    else if 2 < depth then frac * 0.5
    else if 0 < depth then frac * 0.8
    else frac
  let frac := if frac < 0.00005 then 0.00005 else frac
  if 0.1 < frac then 0.1 else frac

/-- The fanout of an attempt, clamped to its leaders. -/
def attemptFanout (depth numLeaders : Nat) : Nat :=
  if 1 < numLeaders then min (args.fanoutForDepth depth) numLeaders else 1

/-! ## Numbers of leaders -/

/-- Those `select_root_leaders` samples for the first attempt at the root. -/
def rootLeaderCount (n : Nat) : Nat :=
  min (max (roundToUsize (args.psampFraction * asF64 n)) 1) (min (max args.maxLeaders 1) n)

/-- Those sampled for the first attempt below it. -/
def leaderCount (n depth : Nat) : Nat :=
  min (max (roundToUsize (args.adaptivePsampFraction n depth * asF64 n)) 2) (min args.maxLeaders n)

def firstLeaderCount (n depth : Nat) : Nat :=
  if depth = 0 then args.rootLeaderCount n else args.leaderCount n depth

end LeaderArgs

/-! ## Assignments -/

/-- Every point has as many leaders as the fanout asks for, none of them twice. -/
structure FullyAssigns (points leaders fanout : Nat) (assignment : List (List Nat)) : Prop
    extends Assigns points leaders assignment where
  distinct : ∀ lids ∈ assignment, lids.Nodup
  full : ∀ lids ∈ assignment, lids.length = min fanout leaders

/-- A dataset and the random draws, with the arguments of the run. -/
structure PartitionContext (args : LeaderArgs) where
  getDistance : UInt32 → UInt32 → AnnResult F32
  /-- What the tiles of the matrix product come to, by the positions of point and leader. -/
  gramDistances : List UInt32 → List UInt32 → AnnResult (Nat → Nat → F32)
  /-- The ADSampling assignment, where the assignment context calls for it. -/
  adsampling : (depth : Nat) → (cur leaders : List UInt32) → (fanout : Nat) →
    Option (AnnResult { lids // FullyAssigns cur.length leaders.length fanout lids })
  /-- The draw of `select_root_leaders`, and those of the attempts. -/
  rootSeed : UInt64
  sampleSeed : Nat → UInt64

namespace PartitionContext

variable {args : LeaderArgs} (ctx : PartitionContext args)

/-- The first of the nearest leaders. -/
def scalarBest (leaders : List UInt32) (idx : UInt32) : AnnResult Nat := do
  let best ← leaders.zipIdx.foldlM (fun best (leader, lid) => do
    let d ← ctx.getDistance idx leader
    .ok (if d.lt best.1 then (d, lid) else best)) ((⟨0x7f800000⟩ : F32), 0)
  .ok best.2

def scalarTopK (leaders : List UInt32) (fanout : Nat) (idx : UInt32) : AnnResult (List Nat) := do
  let topK ← leaders.zipIdx.foldlM (fun topK (leader, lid) => do
    let d ← ctx.getDistance idx leader
    .ok (StackTopK.push topK d lid)) (StackTopK.new fanout)
  .ok topK.ids

/-- The leaders `compute_clusters_scalar_to_spool` writes a record of, point by point. -/
def computeClustersScalar (cur leaders : List UInt32) (localFanout : Nat) :
    AnnResult (List (List Nat)) :=
  let fanout := assignRecordFanout (min localFanout (max leaders.length 1))
  if fanout = 1 then
    cur.mapM fun idx => do
      let best ← ctx.scalarBest leaders idx
      .ok [best]
  else cur.mapM (ctx.scalarTopK leaders fanout)

/-- Those `compute_clusters_gemm_to_spool_budgeted_with_context` writes. -/
def computeClustersGemm (depth : Nat) (cur leaders : List UInt32) (localFanout : Nat) :
    AnnResult (List (List Nat)) :=
  let fanout := assignRecordFanout (min localFanout (max leaders.length 1))
  match ctx.adsampling depth cur leaders fanout with
  | some assignment => assignment.map Subtype.val
  | none => do
      let dist ← ctx.gramDistances cur leaders
      .ok ((List.range cur.length).map fun i =>
        ForcedSplitContext.gramLeaders (dist i) leaders.length fanout)

end PartitionContext

/-! ## Attempts -/

def countLids (rawCounts : List Nat) (lids : List Nat) : List Nat :=
  lids.foldl (fun counts lid => counts.modify lid (· + 1)) rawCounts

def leaderCounts (numLeaders : Nat) (assignment : List (List Nat)) : List Nat :=
  assignment.foldl countLids (List.replicate numLeaders 0)

/-- The records of the leaders: their indices cast to `u16`. -/
def encodeLeaders (assignment : List (List Nat)) : List (List UInt16) :=
  assignment.map fun lids => lids.map UInt16.ofNat

/-- `ExternalPartitionAttempt`, with the leaders and the assignment it spooled. -/
structure ExternalPartitionAttempt where
  leaders : List UInt32
  assignment : List (List Nat)
  assignSpool : Bytes
  fanout : Nat
  mergeGroups : List MergedRawGroup

namespace PartitionContext

variable {args : LeaderArgs} (ctx : PartitionContext args)

/-- The production metric is L2, so it is the size that chooses between the kernels. -/
def computeClusters (depth : Nat) (cur leaders : List UInt32) (fanout : Nat) :
    AnnResult (List (List Nat)) :=
  if 256 ≤ cur.length then ctx.computeClustersGemm depth cur leaders fanout
  else ctx.computeClustersScalar cur leaders fanout

def partitionExternalOnce (depth adaptiveCMax : Nat) (cur leaders : List UInt32)
    (localFanout : Nat) : AnnResult ExternalPartitionAttempt := do
  let fanout := assignRecordFanout (min (max localFanout 1) (max leaders.length 1))
  let assignment ← ctx.computeClusters depth cur leaders fanout
  let assignSpool ← writeRecords writeAssignRecord fanout (encodeLeaders assignment)
  let rawCounts := leaderCounts (max leaders.length 1) assignment
  let mergeGroups := mergeClusterPlan rawCounts args.leafSizeMin adaptiveCMax
  .ok { leaders, assignment, assignSpool, fanout, mergeGroups }

/-- The root's first leaders were selected beforehand. -/
def sampleLeaders (depth : Nat) (cur : List UInt32) (attempt numLeaders : Nat) : List UInt32 :=
  if depth = 0 ∧ attempt = 0 then sampleSetBottomk cur (args.rootLeaderCount cur.length) ctx.rootSeed
  else sampleSetBottomk cur numLeaders (ctx.sampleSeed attempt)

def PARTITION_ATTEMPTS : Nat := 6

/-- The attempts the loop makes, up to one that fails, with `tries` of them left. -/
def tryPartition (depth adaptiveCMax : Nat) (cur : List UInt32) : Nat → Nat →
    List ExternalPartitionAttempt
  | 0, _ => []
  | tries + 1, numLeaders =>
      let leaders := ctx.sampleLeaders depth cur (PARTITION_ATTEMPTS - (tries + 1)) numLeaders
      let localFanout := args.attemptFanout depth leaders.length
      let maxLeaders := min args.maxLeaders cur.length
      match ctx.partitionExternalOnce depth adaptiveCMax cur leaders localFanout with
      | .error _ => []
      | .ok attempt =>
          attempt ::
            if attempt.mergeGroups.length ≤ 1 ∧ leaders.length < maxLeaders then
              tryPartition depth adaptiveCMax cur tries (min (leaders.length * 2) maxLeaders)
            else []

end PartitionContext

def EXTERNAL_ASSIGN_DEPTH_LIMIT : Nat := 1
def MIN_EXTERNAL_ASSIGN_POINTS_NON_ROOT : Nat := 32 * 1024

/-- Production parameters switch on the external assignment of clusters this large, this near the
    root; a cluster of at most `adaptive_c_max` points is a leaf already. -/
def shouldUseExternalAssign (adaptiveCMax depth clusterLen : Nat) : Prop :=
  adaptiveCMax < clusterLen ∧ depth ≤ EXTERNAL_ASSIGN_DEPTH_LIMIT ∧
    (depth = 0 ∨ MIN_EXTERNAL_ASSIGN_POINTS_NON_ROOT ≤ clusterLen)

instance (adaptiveCMax depth clusterLen : Nat) :
    Decidable (shouldUseExternalAssign adaptiveCMax depth clusterLen) :=
  inferInstanceAs (Decidable (_ ∧ _ ∧ _))

/-- The external attempts at splitting a cluster. -/
def partitionAttempts {args : LeaderArgs} (ctx : PartitionContext args) (depth adaptiveCMax : Nat)
    (cur : List UInt32) : List ExternalPartitionAttempt :=
  if shouldUseExternalAssign adaptiveCMax depth cur.length then
    ctx.tryPartition depth adaptiveCMax cur PartitionContext.PARTITION_ATTEMPTS
      (args.leaderCount cur.length depth)
  else []

end ForgeANN
