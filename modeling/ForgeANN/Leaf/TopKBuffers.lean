-- SUMMARY: Up to which number of neighbours the fixed buffers keep what the accepted arguments ask for.
import ForgeANN.Leaf.ExactRows
import ForgeANN.Rbc.LeaderLimit

/-!
# Fixed buffers

The arguments are checked for the number of neighbours to be positive, and for no
bound on it. The buffers of the leaders clamp what they are asked for to their 32
entries; those of the leaves do not.
-/
namespace ForgeANN

open Lib

/-! ## Arguments -/

/-- The command line arguments that leaves and leaders depend on. -/
structure BuildArgs extends LeaderArgs where
  dataType : String
  distFn : String
  mHashBits : Nat
  leafKnn : Nat
  leafAdsTilingEnable : Bool
  leafAdsWavefrontPairmaskEnable : Bool
  leafAdsWavefrontPairmaskDisable : Bool
  leafAdsWorkGraphEnable : Bool

def eqIgnoreAsciiCase (s t : String) : Bool :=
  s.toList.map Char.toLower == t.toList.map Char.toLower

namespace BuildArgs

variable (args : BuildArgs)

/-- `usize::from` of the executors that are asked for, added up. -/
def leafAdsExecutorFlags : Nat :=
  args.leafAdsTilingEnable.toNat + args.leafAdsWavefrontPairmaskEnable.toNat +
    args.leafAdsWorkGraphEnable.toNat

/-- The checks on these arguments; the others are about other arguments. -/
def validateArgs : Except IndexConfigError Unit :=
  if ¬ eqIgnoreAsciiCase args.dataType "float" then
    .error ⟨"data_type", "production ForgeANN build currently supports only --data-type float"⟩
  else if ¬ eqIgnoreAsciiCase args.distFn "l2" then
    .error ⟨"dist_fn", "production ForgeANN ADSampling path currently requires --dist-fn l2"⟩
  else if args.mHashBits = 0 ∨ 16 < args.mHashBits then
    .error ⟨"m_hash_bits", "m_hash_bits must be in [1, 16]"⟩
  else if args.leafSizeMin = 0 ∨ args.leafSizeMax < args.leafSizeMin then
    .error ⟨"leaf_size_min", "leaf_size_min must be > 0 and <= leaf_size_max"⟩
  else if args.leafKnn = 0 then .error ⟨"leaf_knn", "leaf_knn must be > 0"⟩
  else if args.fanoutTop = 0 ∨ args.fanoutSecond = 0 then
    .error ⟨"fanout", "fanout_top and fanout_second must be > 0"⟩
  else if args.maxLeaders = 0 then .error ⟨"max_leaders", "max_leaders must be > 0"⟩
  else if ¬ args.psampFraction.isFinite ∨ args.psampFraction ≤ 0.0 then
    .error ⟨"psamp_fraction", "psamp_fraction must be finite and > 0"⟩
  else if args.leafAdsWavefrontPairmaskEnable ∧ args.leafAdsWavefrontPairmaskDisable then
    .error ⟨"leaf_ads_wavefront_pairmask", "leaf-ads-wavefront-pairmask-enable and " ++
      "leaf-ads-wavefront-pairmask-disable are mutually exclusive"⟩
  else if 1 < args.leafAdsExecutorFlags then
    .error ⟨"leaf_ads_executor", "leaf ADS experimental executors are mutually exclusive"⟩
  else .ok ()

def leafAdsWavefrontPairmaskEnabled : Bool :=
  if args.leafAdsTilingEnable || args.leafAdsWorkGraphEnable then false
  else !args.leafAdsWavefrontPairmaskDisable

/-- What is not an argument has the value of `production_sota_oom`. -/
def buildProductionParams : LeafParams where
  leafKnn := args.leafKnn
  maxFullMatrixLeafSize := 3500
  adsamplingGroupDims := 64
  leafAdsTilingEnable := args.leafAdsTilingEnable
  leafAdsWavefrontPairmaskEnable := args.leafAdsWavefrontPairmaskEnabled
  leafAdsWorkGraphEnable := args.leafAdsWorkGraphEnable

variable {args}

theorem acceptedArgs_of_validateArgs (h : args.validateArgs = .ok ()) :
    AcceptedArgs args.toLeaderArgs := by
  simp only [validateArgs] at h
  split_ifs at h with _ _ _ _ _ hfanout hleaders
  simp only [not_or] at hfanout
  exact ⟨Nat.pos_of_ne_zero hfanout.1, Nat.pos_of_ne_zero hfanout.2, Nat.pos_of_ne_zero hleaders⟩

end BuildArgs

/-! ## Leaders -/

/-- Every point of every cluster gets the leaders that its fanout asks for, up to 32 and up to all
of them: as they are spooled, and by the buffers that assign in memory. -/
structure LeadersExact (args : LeaderArgs) : Prop where
  spooled : ∀ (ctx : PartitionContext args) (ads : AdsAssignment) (depth : Nat)
    (cur leaders : List UInt32) (assignment : List (List Nat)), leaders ≠ [] →
    (ctx.withAdsampling ads).computeClusters depth cur leaders
      (args.attemptFanout depth leaders.length) = .ok assignment →
    FullyAssigns cur.length leaders.length (min (args.fanoutForDepth depth) 32) assignment
  product : ∀ (dist : Nat → F32) (leaders fanout : Nat), 0 < leaders → 0 < fanout →
    FullFanout leaders (min fanout 32) (ForcedSplitContext.gramLeaders dist leaders fanout)
  scalar : ∀ (ctx : PartitionContext args) (leaders : List UInt32) (fanout : Nat) (idx : UInt32)
    (lids : List Nat), 0 < fanout → ctx.scalarTopK leaders fanout idx = .ok lids →
    FullFanout leaders.length (min fanout 32) lids

theorem gramLeaders_clamped (dist : Nat → F32) {n : Nat} (hn : 0 < n) (fanout : Nat) :
    FullFanout n (min fanout 32) (ForcedSplitContext.gramLeaders dist n fanout) := by
  by_cases hone : fanout = 1
  · subst hone
    exact gramLeaders_fullFanout hn (by decide) dist
  · rw [ForcedSplitContext.gramLeaders, if_neg hone]
    exact fullFanout_of_pushes fanout n dist

theorem computeClusters_fullyAssigns {args : LeaderArgs} (hargs : AcceptedArgs args)
    (ctx : PartitionContext args) (depth : Nat) {cur leaders : List UInt32}
    {assignment : List (List Nat)} (hleaders : leaders ≠ [])
    (h : ctx.computeClusters depth cur leaders (args.attemptFanout depth leaders.length) =
      .ok assignment) :
    FullyAssigns cur.length leaders.length (min (args.fanoutForDepth depth) 32) assignment := by
  have hn := List.length_pos_iff.mpr hleaders
  have hfanout := LeaderArgs.fanoutForDepth_pos hargs depth
  have hfull : FullyAssigns cur.length leaders.length (assignRecordFanout
      (min (args.attemptFanout depth leaders.length) (max leaders.length 1))) assignment := by
    unfold PartitionContext.computeClusters at h
    split_ifs at h
    · exact computeClustersGemm_fullyAssigns hleaders h
    · exact computeClustersScalar_fullyAssigns hleaders h
  refine ⟨hfull.toAssigns, hfull.distinct, fun lids hlids => (hfull.full lids hlids).trans ?_⟩
  rw [assignRecordFanout, LeaderArgs.attemptFanout]
  split_ifs <;> omega

theorem leadersExact {args : LeaderArgs} (hargs : AcceptedArgs args) : LeadersExact args where
  spooled ctx ads depth _ _ _ hleaders h :=
    computeClusters_fullyAssigns hargs (ctx.withAdsampling ads) depth hleaders h
  product dist _ fanout hleaders _ := gramLeaders_clamped dist hleaders fanout
  scalar _ leaders fanout _ _ _ h := by
    obtain ⟨dist, rfl⟩ := scalarTopK_pushes h
    exact fullFanout_of_pushes fanout leaders.length dist

/-! ## The buffers of a run -/

/-- No buffer is written to behind its slots, and every buffer ends with all that was asked for: on
the serial path, block by block, on blocks in parallel, and for the leaders. -/
structure TopKBuffersHold (args : BuildArgs) (params : LeafParams) (src : LeafSource)
    (metric : Metric) (leaf : List UInt32) : Prop where
  serial : ∀ scratch,
    src.KeepsDegree leaf args.leafKnn (src.processLeaf params metric leaf scratch)
  fullMatrix : 1 < leaf.length → min args.leafKnn (leaf.length - 1) ≠ 0 → ∀ scratch,
    src.KeepsDegree leaf args.leafKnn (src.processLeafFullMatrix params metric leaf
      (min args.leafKnn (leaf.length - 1)) scratch)
  blockwise : ∀ scratch,
    src.KeepsDegree leaf args.leafKnn (src.processLeafBlockwise params metric leaf scratch)
  parallel : ∀ blockRows wantsLuneWitnesses,
    src.KeepsDegree leaf args.leafKnn
      (src.processLeafParallelLarge params metric leaf blockRows wantsLuneWitnesses)
  leaders : LeadersExact args.toLeaderArgs

variable {args : BuildArgs} {params : LeafParams} {src : LeafSource} {leaf : List UInt32}

theorem room_of_topKBuffersHold {metric : Metric} (hparams : params.leafKnn = args.leafKnn)
    (hanswers : src.Answers leaf) (h : TopKBuffersHold args params src metric leaf) :
    min args.leafKnn (leaf.length - 1) ≤ 32 := by
  have hserial := h.serial []
  rw [← hparams] at hserial ⊢
  exact (LeafSource.processLeaf_tight []).room hanswers hserial

/-- The buffers hold what accepted arguments ask for where a row keeps 32 neighbours or fewer, and,
on a leaf whose points and sketches can be read, only there. -/
theorem topKBuffersHold_iff (hargs : args.validateArgs = .ok ())
    (hparams : params.leafKnn = args.leafKnn) (src : LeafSource) (metric : Metric)
    (leaf : List UInt32) :
    (min args.leafKnn (leaf.length - 1) ≤ 32 → TopKBuffersHold args params src metric leaf) ∧
      (src.Answers leaf → (TopKBuffersHold args params src metric leaf ↔
        min args.leafKnn (leaf.length - 1) ≤ 32)) := by
  have hkeeps : min args.leafKnn (leaf.length - 1) ≤ 32 →
      TopKBuffersHold args params src metric leaf := by
    rw [← hparams]
    intro hroom
    refine ⟨?_, ?_, ?_, ?_, leadersExact (BuildArgs.acceptedArgs_of_validateArgs hargs)⟩
    all_goals rw [← hparams]
    · exact fun scratch => (LeafSource.processLeaf_tight scratch).keeps hroom
    · exact fun hleaf hk scratch =>
        (LeafSource.processLeafFullMatrix_tight scratch hleaf hk).keeps hroom
    · exact fun scratch => (LeafSource.processLeafBlockwise_tight scratch).keeps hroom
    · exact fun blockRows wants =>
        (LeafSource.processLeafParallelLarge_tight blockRows wants).keeps hroom
  exact ⟨hkeeps, fun hanswers => ⟨room_of_topKBuffersHold hparams hanswers, hkeeps⟩⟩

/-- The defaults of the command line, with a number of neighbours. -/
def neighbourArgs (leafKnn : Nat) : BuildArgs where
  leafSizeMin := 256
  leafSizeMax := 1280
  fanoutTop := 8
  fanoutSecond := 3
  maxLeaders := 5000
  psampFraction := 0.0057
  dataType := "float"
  distFn := "l2"
  mHashBits := 12
  leafKnn
  leafAdsTilingEnable := false
  leafAdsWavefrontPairmaskEnable := false
  leafAdsWavefrontPairmaskDisable := false
  leafAdsWorkGraphEnable := false

/-- A dataset whose points are all the same. -/
def samePoint : LeafSource where
  readPoint _ := .ok [.zero]
  getDistance _ _ := .ok .zero
  prefetchSketches _ := .ok ()
  norm _ := .zero
  matMul _ _ _ _ := .zero
  ads := ⟨fun _ _ => .zero, fun _ _ _ => none⟩
  ratios := .ok ()

theorem samePoint_answers (leaf : List UInt32) : samePoint.Answers leaf := by
  intro e h
  cases h with
  | point _ h => cases h
  | distance _ _ h => cases h
  | sketches h => cases h
  | ratios h => cases h

theorem topKBuffersHold_iff_two :
    (min (neighbourArgs 2).leafKnn ([4, 5, 6].length - 1) ≤ 32 →
      TopKBuffersHold (neighbourArgs 2) (neighbourArgs 2).buildProductionParams samePoint .l2
        [4, 5, 6]) ∧
      (samePoint.Answers [4, 5, 6] → (TopKBuffersHold (neighbourArgs 2)
        (neighbourArgs 2).buildProductionParams samePoint .l2 [4, 5, 6] ↔
          min (neighbourArgs 2).leafKnn ([4, 5, 6].length - 1) ≤ 32)) :=
  topKBuffersHold_iff (by decide +kernel) rfl samePoint .l2 [4, 5, 6]

/-- With 33 neighbours accepted, the first row of a leaf of 34 points panics. -/
theorem row_overflows :
    (neighbourArgs 33).validateArgs = .ok () ∧
      samePoint.processLeaf (neighbourArgs 33).buildProductionParams .l2 (rootIds 34) [] =
        .error (.panic "index out of bounds") ∧
      ¬ TopKBuffersHold (neighbourArgs 33) (neighbourArgs 33).buildProductionParams samePoint .l2
        (rootIds 34) := by
  refine ⟨by decide +kernel, by decide +kernel, fun h => ?_⟩
  have hroom : min 33 ((rootIds 34).length - 1) ≤ 32 :=
    room_of_topKBuffersHold rfl (samePoint_answers _) h
  exact absurd hroom (by decide)

end ForgeANN
