-- SUMMARY: How many leaders the attempts come to, and that the command line does not keep them within a `u16`.
import ForgeANN.Rbc.LeaderIndex

/-!
# The number of leaders

An attempt with two leaders a point always splits the cluster, so only a fanout
of one retries with more leaders. What the arguments allow is compared with what
a `u16` can tell apart.
-/
namespace ForgeANN

open Lib

/-- The attempts double the leaders up to five times where the fanout is one. -/
def retryGrowth (args : LeaderArgs) (depth : Nat) : Nat :=
  if args.fanoutForDepth depth = 1 then 32 else 1

/-- The leaders of every attempt can be told apart by a `u16`. -/
def LeadersFit (args : LeaderArgs) (depth n : Nat) : Prop :=
  min (retryGrowth args depth * args.firstLeaderCount n depth) (min args.maxLeaders n) ≤ 65536

instance (args : LeaderArgs) (depth n : Nat) : Decidable (LeadersFit args depth n) :=
  inferInstanceAs (Decidable (_ ≤ _))

/-! ## Accepted arguments -/

structure AcceptedArgs (args : LeaderArgs) : Prop where
  fanoutTop : 0 < args.fanoutTop
  fanoutSecond : 0 < args.fanoutSecond
  maxLeaders : 0 < args.maxLeaders

theorem acceptedArgs_of_validateArgs {args : LeaderArgs} (h : validateArgs args = .ok ()) :
    AcceptedArgs args := by
  simp only [validateArgs] at h
  split_ifs at h with hleaf hfanout hleaders hpsamp
  simp only [not_or] at hfanout
  exact ⟨Nat.pos_of_ne_zero hfanout.1, Nat.pos_of_ne_zero hfanout.2, Nat.pos_of_ne_zero hleaders⟩

namespace LeaderArgs

variable {args : LeaderArgs} {n depth : Nat}

theorem firstLeaderCount_le (hargs : AcceptedArgs args) (n depth : Nat) :
    args.firstLeaderCount n depth ≤ min args.maxLeaders n := by
  have := hargs.maxLeaders
  simp only [firstLeaderCount, rootLeaderCount, leaderCount]
  split_ifs <;> omega

theorem firstLeaderCount_pos (hargs : AcceptedArgs args) (hn : 0 < n) (depth : Nat) :
    0 < args.firstLeaderCount n depth := by
  have := hargs.maxLeaders
  simp only [firstLeaderCount, rootLeaderCount, leaderCount]
  split_ifs <;> omega

theorem fanoutForDepth_pos (hargs : AcceptedArgs args) (depth : Nat) :
    0 < args.fanoutForDepth depth := by
  match depth with
  | 0 => exact hargs.fanoutTop
  | 1 => exact hargs.fanoutSecond
  | _ + 2 => exact Nat.one_pos

end LeaderArgs

/-! ## A point with two leaders splits its cluster -/

section

variable {args : LeaderArgs} {ctx : PartitionContext args} {depth adaptiveCMax localFanout : Nat}
  {cur leaders : List UInt32} {attempt : ExternalPartitionAttempt}

/-- The leaders in use. -/
theorem nonemptyRaw_leaderCounts_length {n : Nat} {assignment : List (List Nat)} :
    (nonemptyRaw (leaderCounts n assignment)).length =
      ((List.range n).filter fun lid => 0 < assignment.flatten.count lid).length := by
  have hmap : ((nonemptyRaw (leaderCounts n assignment)).map Prod.snd).length =
      (nonemptyRaw (leaderCounts n assignment)).length := List.length_map ..
  rw [← hmap, nonemptyRaw_map_snd, leaderCounts_eq, List.filter_map, List.length_map]
  rfl

theorem AttemptOf.splits (h : AttemptOf args adaptiveCMax cur leaders localFanout attempt)
    (hfanout : 2 ≤ localFanout) (hleaders : 2 ≤ leaders.length)
    (hlarge : adaptiveCMax < cur.length) : 1 < attempt.mergeGroups.length := by
  obtain ⟨-, hfan, hassigns, -, hgroups⟩ := h
  have htwo : 2 ≤ min attempt.fanout leaders.length := by
    rw [hfan, assignRecordFanout]
    omega
  rw [hgroups]
  apply one_lt_mergeClusterPlan_length
  · -- the leaders of the first point
    have hne : attempt.assignment ≠ [] := by
      rw [← List.length_pos_iff, hassigns.length]
      exact Nat.zero_lt_of_lt hlarge
    obtain ⟨lids, hlids⟩ := List.exists_mem_of_ne_nil _ hne
    have hsub : lids ⊆ (List.range leaders.length).filter
        fun lid => 0 < attempt.assignment.flatten.count lid := by
      intro lid hlid
      rw [List.mem_filter, List.mem_range, decide_eq_true_eq, List.count_pos_iff]
      exact ⟨hassigns.inRange lids hlids lid hlid, List.mem_flatten.mpr ⟨lids, hlids, hlid⟩⟩
    have hle := (List.subperm_of_subset (hassigns.distinct lids hlids) hsub).length_le
    rw [hassigns.full lids hlids] at hle
    rw [nonemptyRaw_leaderCounts_length]
    omega
  · -- every point is counted once at least
    have hsum : ((nonemptyRaw (leaderCounts leaders.length attempt.assignment)).map Prod.snd).sum =
        attempt.assignment.flatten.length := by
      have hfilter : ∀ counts : List Nat, (counts.filter (0 < ·)).sum = counts.sum := by
        intro counts
        induction counts with
        | nil => rfl
        | cons c counts ih =>
            rw [List.filter_cons]
            split_ifs with hc
            · rw [List.sum_cons, List.sum_cons, ih]
            · rw [List.sum_cons, ih]
              simp only [decide_eq_true_eq] at hc
              omega
      rw [nonemptyRaw_map_snd, hfilter, leaderCounts_eq, sum_count_eq_countP List.nodup_range,
        List.countP_eq_length]
      intro lid hlid
      obtain ⟨lids, hlids, hlid⟩ := List.mem_flatten.mp hlid
      simpa using hassigns.inRange lids hlids lid hlid
    have hpoints : ∀ assignment : List (List Nat), (∀ lids ∈ assignment, lids ≠ []) →
        assignment.length ≤ assignment.flatten.length := by
      intro assignment
      induction assignment with
      | nil => exact fun _ => Nat.le_refl _
      | cons lids assignment ih =>
          intro hne
          have hpos := List.length_pos_iff.mpr (hne lids List.mem_cons_self)
          have hrest := ih fun l hl => hne l (List.mem_cons_of_mem _ hl)
          rw [List.flatten_cons, List.length_append, List.length_cons]
          omega
    have hle := hpoints attempt.assignment hassigns.nonempty
    rw [hassigns.length] at hle
    omega

/-! ## The attempts -/

variable (hargs : AcceptedArgs args) (hcur : cur.Nodup)

include hcur in
theorem sampleLeaders_spec (ctx : PartitionContext args) (depth attemptIdx numLeaders : Nat) :
    (ctx.sampleLeaders depth cur attemptIdx numLeaders).Nodup ∧
      (ctx.sampleLeaders depth cur attemptIdx numLeaders).length =
        min (if depth = 0 ∧ attemptIdx = 0 then args.rootLeaderCount cur.length else numLeaders)
          cur.length := by
  rw [PartitionContext.sampleLeaders]
  split_ifs
  · exact sampleSetBottomk_spec hcur
  · exact sampleSetBottomk_spec hcur

/-- The leaders of an attempt when `tries` attempts are left and `numLeaders` are asked for. -/
def attemptLeaders (ctx : PartitionContext args) (depth : Nat) (cur : List UInt32)
    (tries numLeaders : Nat) : List UInt32 :=
  ctx.sampleLeaders depth cur (PartitionContext.PARTITION_ATTEMPTS - tries) numLeaders

/-- After the first, an attempt has as many leaders as it asks for. -/
theorem attemptLeaders_length {tries numLeaders : Nat} (hcur : cur.Nodup)
    (htries : tries < PartitionContext.PARTITION_ATTEMPTS) (hle : numLeaders ≤ cur.length) :
    (attemptLeaders ctx depth cur tries numLeaders).length = numLeaders := by
  rw [attemptLeaders, (sampleLeaders_spec hcur ctx depth _ numLeaders).2, if_neg,
    Nat.min_eq_left hle]
  rintro ⟨-, hzero⟩
  omega

include hargs in
theorem firstAttempt_length (hcur : cur.Nodup) (ctx : PartitionContext args) (depth : Nat) :
    (attemptLeaders ctx depth cur PartitionContext.PARTITION_ATTEMPTS
      (args.leaderCount cur.length depth)).length = args.firstLeaderCount cur.length depth := by
  have hle := LeaderArgs.firstLeaderCount_le hargs cur.length depth
  rw [attemptLeaders, (sampleLeaders_spec hcur ctx depth _ _).2, Nat.sub_self]
  simp only [and_true]
  rw [LeaderArgs.firstLeaderCount] at hle ⊢
  split_ifs at hle ⊢ <;> exact Nat.min_eq_left (hle.trans (Nat.min_le_right ..))

/-- An attempt is the one made now, or one of those made after it has not split the cluster. -/
theorem mem_tryPartition {tries numLeaders : Nat} {a : ExternalPartitionAttempt}
    (hne : attemptLeaders ctx depth cur (tries + 1) numLeaders ≠ [])
    (ha : a ∈ ctx.tryPartition depth adaptiveCMax cur (tries + 1) numLeaders) :
    AttemptOf args adaptiveCMax cur (attemptLeaders ctx depth cur (tries + 1) numLeaders)
        (args.attemptFanout depth (attemptLeaders ctx depth cur (tries + 1) numLeaders).length) a ∨
      ∃ now, AttemptOf args adaptiveCMax cur (attemptLeaders ctx depth cur (tries + 1) numLeaders)
          (args.attemptFanout depth (attemptLeaders ctx depth cur (tries + 1) numLeaders).length)
          now ∧
        now.mergeGroups.length ≤ 1 ∧
        (attemptLeaders ctx depth cur (tries + 1) numLeaders).length < min args.maxLeaders cur.length ∧
        a ∈ ctx.tryPartition depth adaptiveCMax cur tries
          (min ((attemptLeaders ctx depth cur (tries + 1) numLeaders).length * 2)
            (min args.maxLeaders cur.length)) := by
  rw [PartitionContext.tryPartition, ← attemptLeaders] at ha
  cases hnow : ctx.partitionExternalOnce depth adaptiveCMax cur
      (attemptLeaders ctx depth cur (tries + 1) numLeaders)
      (args.attemptFanout depth (attemptLeaders ctx depth cur (tries + 1) numLeaders).length) with
  | error e =>
      rw [hnow] at ha
      cases ha
  | ok now =>
      rw [hnow] at ha
      have hspec := partitionExternalOnce_spec hne hnow
      rcases List.mem_cons.mp ha with rfl | hrest
      · exact .inl hspec
      · split_ifs at hrest with hretry
        · exact .inr ⟨now, hspec, hretry.1, hretry.2, hrest⟩
        · cases hrest

include hargs hcur in
/-- Up to `tries` more attempts double the leaders that many times at most. -/
theorem tryPartition_leaders_le (tries : Nat) {numLeaders : Nat}
    (htries : tries < PartitionContext.PARTITION_ATTEMPTS)
    (hpos : 0 < (attemptLeaders ctx depth cur (tries + 1) numLeaders).length)
    (hle : (attemptLeaders ctx depth cur (tries + 1) numLeaders).length ≤
      min args.maxLeaders cur.length) {a : ExternalPartitionAttempt}
    (ha : a ∈ ctx.tryPartition depth adaptiveCMax cur (tries + 1) numLeaders) :
    ∃ leaders localFanout, AttemptOf args adaptiveCMax cur leaders localFanout a ∧
      leaders.length ≤
        min (2 ^ tries * (attemptLeaders ctx depth cur (tries + 1) numLeaders).length)
          (min args.maxLeaders cur.length) := by
  have hmax := hargs.maxLeaders
  induction tries generalizing numLeaders with
  | zero =>
      rcases mem_tryPartition (List.length_pos_iff.mp hpos) ha with hspec | ⟨now, -, -, -, hrest⟩
      · exact ⟨_, _, hspec, by omega⟩
      · cases hrest
  | succ tries ih =>
      set n := (attemptLeaders ctx depth cur (tries + 1 + 1) numLeaders).length
      rcases mem_tryPartition (List.length_pos_iff.mp hpos) ha with hspec | ⟨now, -, -, hlt, hrest⟩
      · refine ⟨_, _, hspec, Nat.le_min.mpr ⟨?_, hle⟩⟩
        exact Nat.le_mul_of_pos_left _ (Nat.two_pow_pos _)
      · have hnext : (attemptLeaders ctx depth cur (tries + 1)
            (min (n * 2) (min args.maxLeaders cur.length))).length =
              min (n * 2) (min args.maxLeaders cur.length) :=
          attemptLeaders_length hcur (by omega) (by omega)
        obtain ⟨leaders, localFanout, hspec, hbound⟩ :=
          ih (by omega) (by rw [hnext]; omega) (by rw [hnext]; omega) hrest
        refine ⟨leaders, localFanout, hspec, hbound.trans ?_⟩
        rw [hnext, Nat.pow_succ, Nat.mul_assoc, Nat.mul_comm 2 n]
        refine Nat.le_min.mpr ⟨?_, Nat.min_le_right ..⟩
        exact (Nat.min_le_left ..).trans (Nat.mul_le_mul_left _ (Nat.min_le_left ..))

/-- With two leaders a point the first attempt is the only one. -/
theorem tryPartition_leaders_eq (tries : Nat) {numLeaders : Nat} (hfanout : 2 ≤ args.fanoutForDepth depth)
    (hlarge : adaptiveCMax < cur.length)
    (htwo : 2 ≤ (attemptLeaders ctx depth cur (tries + 1) numLeaders).length)
    {a : ExternalPartitionAttempt}
    (ha : a ∈ ctx.tryPartition depth adaptiveCMax cur (tries + 1) numLeaders) :
    ∃ localFanout, AttemptOf args adaptiveCMax cur
      (attemptLeaders ctx depth cur (tries + 1) numLeaders) localFanout a := by
  have hpos := Nat.lt_of_lt_of_le Nat.two_pos htwo
  rcases mem_tryPartition (List.length_pos_iff.mp hpos) ha with hspec | ⟨now, hnow, hgroups, -, -⟩
  · exact ⟨_, hspec⟩
  · have hsplits := hnow.splits (by rw [LeaderArgs.attemptFanout, if_pos (Nat.lt_of_succ_le htwo)]; omega) htwo hlarge
    omega

include hargs hcur in
/-- Arguments whose leaders fit keep every index exact. -/
theorem indicesExact_of_leadersFit
    (hfit : shouldUseExternalAssign adaptiveCMax depth cur.length → LeadersFit args depth cur.length)
    {a : ExternalPartitionAttempt} (ha : a ∈ partitionAttempts ctx depth adaptiveCMax cur) :
    IndicesExact cur a := by
  rw [partitionAttempts] at ha
  split_ifs at ha with hext
  swap
  · cases ha
  have hfit := hfit hext
  have hn := Nat.zero_lt_of_lt hext.1
  have hfirst := firstAttempt_length hargs hcur ctx depth
  have hle := LeaderArgs.firstLeaderCount_le hargs cur.length depth
  have hpos := LeaderArgs.firstLeaderCount_pos hargs hn depth
  rw [LeadersFit, retryGrowth] at hfit
  rw [← hfirst] at hfit hle hpos
  have hall := tryPartition_leaders_le hargs hcur 5 (by decide) hpos hle ha
  by_cases hone : args.fanoutForDepth depth = 1
  · obtain ⟨leaders, localFanout, hspec, hbound⟩ := hall
    rw [if_pos hone] at hfit
    exact hspec.indicesExact (hbound.trans hfit)
  · rw [if_neg hone, Nat.one_mul, Nat.min_eq_left hle] at hfit
    have hfanout := LeaderArgs.fanoutForDepth_pos hargs depth
    rcases Nat.lt_or_ge 1 (attemptLeaders ctx depth cur 6
      (args.leaderCount cur.length depth)).length with htwo | hfew
    · obtain ⟨localFanout, hspec⟩ :=
        tryPartition_leaders_eq 5 (by omega) hext.1 htwo ha
      exact hspec.indicesExact hfit
    · obtain ⟨leaders, localFanout, hspec, hbound⟩ := hall
      refine hspec.indicesExact (hbound.trans ((Nat.min_le_left ..).trans ?_))
      calc 2 ^ 5 * (attemptLeaders ctx depth cur 6 (args.leaderCount cur.length depth)).length
          ≤ 2 ^ 5 * 1 := Nat.mul_le_mul_left _ hfew
        _ ≤ 65536 := by decide

/-! ## Attempts whose leaders do not fit -/

def zeroF32 : F32 := ⟨0⟩
def oneF32 : F32 := ⟨0x3f800000⟩

/-- Everything is nearest to leader `q`, and equally far from the others. -/
def distTo (q lid : Nat) : F32 := if lid = q then zeroF32 else oneF32

/-- A dataset whose points are all nearest to one of them. -/
def allNear (args : LeaderArgs) (x : UInt32) : PartitionContext args where
  getDistance _ leader := .ok (if leader = x then zeroF32 else oneF32)
  gramDistances _ leaders := .ok fun _ => distTo (leaders.idxOf x)
  adsampling _ _ _ _ := none
  rootSeed := 0
  sampleSeed _ := 0

theorem gramBest_distTo (q n : Nat) :
    ForcedSplitContext.gramBest (distTo q) n = if q < n then q else 0 := by
  have hfold : (List.range n).foldl
      (fun best lid => if (distTo q lid).lt best.1 then (distTo q lid, lid) else best)
      ((⟨0x7f800000⟩ : F32), 0) =
        if q < n then (zeroF32, q) else if n = 0 then (⟨0x7f800000⟩, 0) else (oneF32, 0) := by
    induction n with
    | zero => rfl
    | succ n ih =>
        rw [List.range_succ, List.foldl_concat, ih]
        rcases Nat.lt_trichotomy q n with hlt | rfl | hgt
        · have hne : n ≠ q := Nat.ne_of_gt hlt
          have hfar : oneF32.lt zeroF32 = false := by decide
          simp [hlt, Nat.lt_succ_of_lt hlt, distTo, hne, hfar]
        · have hnear : zeroF32.lt ⟨0x7f800000⟩ = true ∧ zeroF32.lt oneF32 = true := by decide
          by_cases hzero : q = 0
          · simp [distTo, hzero, hnear.1]
          · simp [distTo, hzero, hnear.2]
        · have hne : n ≠ q := Nat.ne_of_lt hgt
          have hfar : oneF32.lt ⟨0x7f800000⟩ = true ∧ oneF32.lt oneF32 = false := by decide
          by_cases hzero : n = 0
          · subst hzero
            simp [distTo, hne, hfar.1, Nat.not_lt_of_le (Nat.succ_le_of_lt hgt)]
          · simp [distTo, hne, hfar.2, hzero, Nat.not_lt_of_lt hgt,
              Nat.not_lt_of_le (Nat.succ_le_of_lt hgt)]
  rw [ForcedSplitContext.gramBest, hfold]
  split_ifs <;> rfl

namespace StackTopK

variable {topK : StackTopK} {q m : Nat}

/-- Of the leaders before `m`, the nearest is held. -/
structure HoldsNearest (q m : Nat) (topK : StackTopK) : Prop where
  room : 0 < topK.k
  known : ∀ e ∈ topK.buf, e.1 = distTo q e.2 ∧ e.2 < m
  held : q < m → (zeroF32, q) ∈ topK.buf

/-- A leader sifted in among some that were held, the nearest with them. -/
theorem HoldsNearest.sift (h : topK.HoldsNearest q m) {rest : List (F32 × Nat)}
    (hrest : ∀ e ∈ rest, e ∈ topK.buf) (hkeep : q < m → (zeroF32, q) ∈ rest) :
    HoldsNearest q (m + 1) ⟨StackTopK.sift (distTo q m, m) rest, topK.k⟩ where
  room := h.room
  known e he := by
    rcases mem_sift.mp he with rfl | he
    · exact ⟨rfl, Nat.lt_succ_self m⟩
    · have hknown := h.known e (hrest e he)
      exact ⟨hknown.1, Nat.lt_succ_of_lt hknown.2⟩
  held hlt := by
    apply mem_sift.mpr
    rcases Nat.lt_succ_iff_lt_or_eq.mp hlt with hlt | rfl
    · exact .inr (hkeep hlt)
    · exact .inl (by rw [distTo, if_pos rfl])

theorem HoldsNearest.push (h : topK.HoldsNearest q m) :
    (topK.push (distTo q m) m).HoldsNearest q (m + 1) := by
  obtain ⟨buf, k⟩ := topK
  simp only [StackTopK.push]
  split_ifs with hroom
  · exact h.sift (fun _ he => he) h.held
  · cases buf with
    | nil => exact absurd h.room hroom
    | cons last rest =>
        have hlast := h.known last List.mem_cons_self
        simp only
        split_ifs with hnear
        · refine h.sift (fun e he => List.mem_cons_of_mem last he) fun hlt => ?_
          -- only the nearest leader replaces one, and it comes once
          exfalso
          rw [hlast.1, distTo, if_neg (Nat.ne_of_gt hlt), distTo] at hnear
          split_ifs at hnear
          · exact absurd hnear (by decide)
          · exact absurd hnear (by decide)
        · refine ⟨h.room, fun e he => ?_, fun hlt => ?_⟩
          · have hknown := h.known e he
            exact ⟨hknown.1, Nat.lt_succ_of_lt hknown.2⟩
          · rcases Nat.lt_succ_iff_lt_or_eq.mp hlt with hlt | rfl
            · exact h.held hlt
            · exfalso
              apply hnear
              rw [hlast.1, distTo, distTo, if_pos rfl, if_neg (Nat.ne_of_lt hlast.2)]
              decide

theorem holdsNearest_of_pushes {fanout : Nat} (hpos : 0 < fanout) (q n : Nat) :
    ((List.range n).foldl (fun topK lid => StackTopK.push topK (distTo q lid) lid)
      (StackTopK.new fanout)).HoldsNearest q n := by
  induction n with
  | zero =>
      refine ⟨?_, fun e he => absurd he List.not_mem_nil, fun hlt => absurd hlt (Nat.not_lt_zero q)⟩
      exact Nat.lt_min.mpr ⟨hpos, by decide⟩
  | succ n ih =>
      rw [List.range_succ, List.foldl_concat]
      exact ih.push

end StackTopK

/-- The nearest leader is among the nearest few. -/
theorem mem_gramLeaders_distTo {q n fanout : Nat} (hq : q < n) (hpos : 0 < fanout) :
    q ∈ ForcedSplitContext.gramLeaders (distTo q) n fanout := by
  rw [ForcedSplitContext.gramLeaders]
  split_ifs with hone
  · rw [gramBest_distTo, if_pos hq]
    exact List.mem_singleton_self q
  · have hheld := (StackTopK.holdsNearest_of_pushes hpos q n).held hq
    rw [StackTopK.ids]
    exact List.mem_map.mpr ⟨_, List.mem_reverse.mpr hheld, rfl⟩

variable {x : UInt32}

/-- A large cluster's attempt there: the same leaders for every point. -/
theorem partitionExternalOnce_allNear (hlarge : 256 ≤ cur.length) (hne : leaders ≠ [])
    (x : UInt32) (depth adaptiveCMax localFanout : Nat) :
    ∃ attempt, (allNear args x).partitionExternalOnce depth adaptiveCMax cur leaders localFanout =
        .ok attempt ∧
      attempt.assignment = List.replicate cur.length
        (ForcedSplitContext.gramLeaders (distTo (leaders.idxOf x)) leaders.length attempt.fanout) ∧
      AttemptOf args adaptiveCMax cur leaders localFanout attempt := by
  set fanout := assignRecordFanout (min (max localFanout 1) leaders.length) with hfanout
  have hcompute : (allNear args x).computeClusters depth cur leaders fanout =
      .ok (List.replicate cur.length
        (ForcedSplitContext.gramLeaders (distTo (leaders.idxOf x)) leaders.length fanout)) := by
    rw [PartitionContext.computeClusters, if_pos hlarge, PartitionContext.computeClustersGemm]
    simp only [allNear, ok_bind]
    rw [hfanout, assignRecordFanout_clamped localFanout hne, List.map_const', List.length_range]
  obtain ⟨attempt, hok, hassign, hspec⟩ := partitionExternalOnce_ok hne hcompute adaptiveCMax
  refine ⟨attempt, hok, ?_, hspec⟩
  rw [hassign, hspec.fanout_eq]

/-- With a fanout of one the cluster is not split. -/
theorem mergeGroups_allNear {q : Nat} (hspec : AttemptOf args adaptiveCMax cur leaders 1 attempt)
    (hassign : attempt.assignment = List.replicate cur.length
      (ForcedSplitContext.gramLeaders (distTo q) leaders.length attempt.fanout)) :
    attempt.mergeGroups.length ≤ 1 := by
  have hone : attempt.fanout = 1 := by
    rw [hspec.fanout_eq, assignRecordFanout]
    omega
  rw [hone, ForcedSplitContext.gramLeaders, if_pos rfl] at hassign
  set best := ForcedSplitContext.gramBest (distTo q) leaders.length
  rw [hspec.groups_eq]
  refine (mergeClusterPlan_length_le_nonempty ..).trans ?_
  rw [nonemptyRaw_leaderCounts_length]
  -- only the one leader is in use
  have hsub : ((List.range leaders.length).filter
      fun lid => 0 < attempt.assignment.flatten.count lid) ⊆ [best] := by
    intro lid hlid
    have hcount := (List.mem_filter.mp hlid).2
    rw [decide_eq_true_eq, List.count_pos_iff, hassign, List.mem_flatten] at hcount
    obtain ⟨lids, hlids, hlid⟩ := hcount
    rwa [List.eq_of_mem_replicate hlids] at hlid
  exact (List.subperm_of_subset (List.nodup_range.filter _) hsub).length_le

/-- Nearest to the leader at index 65536, an attempt's records are wrong. -/
theorem not_indicesExact_allNear (hspec : AttemptOf args adaptiveCMax cur leaders localFanout attempt)
    (hn : 0 < cur.length) (hmany : 65536 < leaders.length)
    (hassign : attempt.assignment = List.replicate cur.length
      (ForcedSplitContext.gramLeaders (distTo 65536) leaders.length attempt.fanout)) :
    ¬ IndicesExact cur attempt := by
  intro hexact
  have hpos : 0 < attempt.fanout := by
    rw [hspec.fanout_eq]
    exact (assignRecordFanout_bounds _).1
  have hrecord := hexact.records _ (by
    rw [hassign]
    exact List.mem_replicate.mpr ⟨Nat.ne_of_gt hn, rfl⟩) 65536 (mem_gramLeaders_distTo hmany hpos)
  exact absurd hrecord (by decide)

/-- The leaders do not depend on the distances. -/
theorem attemptLeaders_allNear (y : UInt32) (tries numLeaders : Nat) :
    attemptLeaders (allNear args x) depth cur tries numLeaders =
      attemptLeaders (allNear args y) depth cur tries numLeaders := rfl

/-- An attempt with too many leaders: with all points nearest to the right one, it goes wrong. -/
theorem exists_truncated_now (hcur : cur.Nodup) (tries : Nat) {numLeaders : Nat}
    (hmany : 65536 < (attemptLeaders (allNear args 0) depth cur (tries + 1) numLeaders).length) :
    ∃ x, ∃ a ∈ (allNear args x).tryPartition depth adaptiveCMax cur (tries + 1) numLeaders,
      ¬ IndicesExact cur a := by
  have hsample := sampleLeaders_spec hcur (allNear args 0) depth
    (PartitionContext.PARTITION_ATTEMPTS - (tries + 1)) numLeaders
  rw [← attemptLeaders] at hsample
  set leaders := attemptLeaders (allNear args 0) depth cur (tries + 1) numLeaders with hleaders
  have hlen : leaders.length ≤ cur.length := hsample.2.trans_le (Nat.min_le_right ..)
  have hne : leaders ≠ [] := List.length_pos_iff.mp (Nat.zero_lt_of_lt hmany)
  have hidx : leaders.idxOf leaders[65536] = 65536 := hsample.1.idxOf_getElem 65536 hmany
  have hlarge : 256 ≤ cur.length := by omega
  obtain ⟨attempt, hok, hassign, hspec⟩ := partitionExternalOnce_allNear hlarge hne leaders[65536]
    depth adaptiveCMax (args.attemptFanout depth leaders.length)
  rw [hidx] at hassign
  refine ⟨leaders[65536], attempt, ?_, not_indicesExact_allNear hspec (by omega) hmany hassign⟩
  rw [PartitionContext.tryPartition, ← attemptLeaders, attemptLeaders_allNear 0, ← hleaders, hok]
  exact List.mem_cons_self

/-- Retried for want of a split, some attempt has too many leaders. -/
theorem exists_truncated_later (hcur : cur.Nodup)
    (hone : args.fanoutForDepth depth = 1) (hlarge : 256 ≤ cur.length) (tries : Nat)
    {numLeaders : Nat} (htries : tries < PartitionContext.PARTITION_ATTEMPTS)
    (hpos : 0 < (attemptLeaders (allNear args 0) depth cur (tries + 1) numLeaders).length)
    (hmany : 65536 < min
      (2 ^ tries * (attemptLeaders (allNear args 0) depth cur (tries + 1) numLeaders).length)
      (min args.maxLeaders cur.length)) :
    ∃ x, ∃ a ∈ (allNear args x).tryPartition depth adaptiveCMax cur (tries + 1) numLeaders,
      ¬ IndicesExact cur a := by
  induction tries generalizing numLeaders with
  | zero =>
      apply exists_truncated_now hcur 0
      omega
  | succ tries ih =>
      set leaders := attemptLeaders (allNear args 0) depth cur (tries + 1 + 1) numLeaders
        with hleaders
      rcases Nat.lt_or_ge 65536 leaders.length with hnow | hfew
      · exact exists_truncated_now hcur _ hnow
      have hretry : leaders.length < min args.maxLeaders cur.length := by omega
      have hnext : (attemptLeaders (allNear args 0) depth cur (tries + 1)
          (min (leaders.length * 2) (min args.maxLeaders cur.length))).length =
            min (leaders.length * 2) (min args.maxLeaders cur.length) :=
        attemptLeaders_length hcur (by omega) (by omega)
      rw [Nat.pow_succ, Nat.mul_assoc, Nat.mul_comm 2] at hmany
      have hdouble : min (2 ^ tries * (leaders.length * 2)) (min args.maxLeaders cur.length) ≤
          2 ^ tries * min (leaders.length * 2) (min args.maxLeaders cur.length) := by
        rcases Nat.le_total (leaders.length * 2) (min args.maxLeaders cur.length) with hle | hle
        · rw [Nat.min_eq_left hle]
          exact Nat.min_le_left ..
        · rw [Nat.min_eq_right hle]
          exact (Nat.min_le_right ..).trans (Nat.le_mul_of_pos_left _ (Nat.two_pow_pos _))
      rw [← hnext] at hdouble
      obtain ⟨x, a, ha, hnot⟩ := ih (by omega) (by rw [hnext]; omega) (by omega)
      refine ⟨x, a, ?_, hnot⟩
      obtain ⟨attempt, hok, hassign, hspec⟩ := partitionExternalOnce_allNear hlarge
        (List.length_pos_iff.mp hpos) x depth adaptiveCMax (args.attemptFanout depth leaders.length)
      have hfanout : args.attemptFanout depth leaders.length = 1 := by
        rw [LeaderArgs.attemptFanout, hone]
        split_ifs <;> omega
      rw [PartitionContext.tryPartition, ← attemptLeaders, attemptLeaders_allNear 0, ← hleaders, hok]
      rw [hfanout] at hspec
      simp only
      rw [if_pos ⟨mergeGroups_allNear hspec hassign, hretry⟩]
      exact List.mem_cons_of_mem _ ha

/-- Arguments whose leaders do not fit let an index be truncated. -/
theorem exists_truncated (hargs : AcceptedArgs args) (hcur : cur.Nodup)
    (hext : shouldUseExternalAssign adaptiveCMax depth cur.length)
    (hfit : ¬ LeadersFit args depth cur.length) :
    ∃ ctx : PartitionContext args, ∃ a ∈ partitionAttempts ctx depth adaptiveCMax cur,
      ¬ IndicesExact cur a := by
  have hfirst := firstAttempt_length hargs hcur (allNear args 0) depth
  have hle := LeaderArgs.firstLeaderCount_le hargs cur.length depth
  have hpos := LeaderArgs.firstLeaderCount_pos hargs (Nat.zero_lt_of_lt hext.1) depth
  rw [LeadersFit, retryGrowth, Nat.not_le] at hfit
  rw [← hfirst] at hfit hle hpos
  have htrunc : ∃ x, ∃ a ∈ (allNear args x).tryPartition depth adaptiveCMax cur
      PartitionContext.PARTITION_ATTEMPTS (args.leaderCount cur.length depth),
        ¬ IndicesExact cur a := by
    split_ifs at hfit with hone
    · exact exists_truncated_later hcur hone (by omega) 5 (by decide) hpos hfit
    · apply exists_truncated_now hcur 5
      rwa [Nat.one_mul, Nat.min_eq_left hle] at hfit
  obtain ⟨x, a, ha, hnot⟩ := htrunc
  refine ⟨allNear args x, a, ?_, hnot⟩
  rwa [partitionAttempts, if_pos hext]

end

/-! ## Accepted arguments and the range of a `u16` -/

/-- Every leader index is exact, whatever the dataset and the draws, just when the arguments leave
no more leaders than a `u16` tells apart. A cluster's points are all different: the root has every
id once, and below it clusters are deduplicated. -/
theorem leaderIndices_exact_iff {args : LeaderArgs} (hargs : validateArgs args = .ok ())
    (depth adaptiveCMax : Nat) {cur : List UInt32} (hcur : cur.Nodup) :
    (∀ ctx : PartitionContext args, ∀ attempt ∈ partitionAttempts ctx depth adaptiveCMax cur,
        IndicesExact cur attempt) ↔
      (shouldUseExternalAssign adaptiveCMax depth cur.length →
        LeadersFit args depth cur.length) := by
  have haccepted := acceptedArgs_of_validateArgs hargs
  constructor
  · intro hexact hext
    by_contra hfit
    obtain ⟨ctx, attempt, hmem, hnot⟩ :=
      exists_truncated haccepted hcur hext hfit
    exact hnot (hexact ctx attempt hmem)
  · intro hfit ctx attempt hmem
    exact indicesExact_of_leadersFit haccepted hcur hfit hmem

/-- Every point a leader, and no limit in the way. -/
def everyPointLeads : LeaderArgs where
  leafSizeMin := 256
  leafSizeMax := 1280
  fanoutTop := 8
  fanoutSecond := 3
  maxLeaders := 100000
  psampFraction := 1.0

theorem validateArgs_everyPointLeads : validateArgs everyPointLeads = .ok () := by
  have hpsamp : ¬ (¬ everyPointLeads.psampFraction.isFinite ∨
      everyPointLeads.psampFraction ≤ 0.0) := by decide +kernel
  rw [validateArgs, if_neg (by decide), if_neg (by decide), if_neg (by decide), if_neg hpsamp]

theorem leaderIndices_exact_iff_three :
    (∀ ctx : PartitionContext everyPointLeads, ∀ attempt ∈ partitionAttempts ctx 0 2 [4, 5, 6],
        IndicesExact [4, 5, 6] attempt) ↔
      (shouldUseExternalAssign 2 0 3 → LeadersFit everyPointLeads 0 3) :=
  leaderIndices_exact_iff validateArgs_everyPointLeads 0 2 (by decide)

/-- The ids of a dataset of `n` points. -/
def rootIds (n : Nat) : List UInt32 := (List.range n).map UInt32.ofNat

theorem rootIds_nodup {n : Nat} (hn : n ≤ 2 ^ 32) : (rootIds n).Nodup := by
  apply List.Nodup.map_on _ List.nodup_range
  intro i hi j hj hij
  rw [List.mem_range] at hi hj
  have hi' : (UInt32.ofNat i).toNat = i := UInt32.toNat_ofNat_of_lt (by rw [UInt32.size]; omega)
  have hj' : (UInt32.ofNat j).toNat = j := UInt32.toNat_ofNat_of_lt (by rw [UInt32.size]; omega)
  rw [← hi', ← hj', hij]

/-- Accepted arguments and a dataset of 100000 points for which an index is truncated. -/
theorem truncated_leaderIndex :
    validateArgs everyPointLeads = .ok () ∧
      ∃ ctx : PartitionContext everyPointLeads,
        ∃ attempt ∈ partitionAttempts ctx 0 1280 (rootIds 100000),
          ¬ IndicesExact (rootIds 100000) attempt := by
  have hlen : (rootIds 100000).length = 100000 := by rw [rootIds, List.length_map, List.length_range]
  refine ⟨validateArgs_everyPointLeads, exists_truncated
    (acceptedArgs_of_validateArgs validateArgs_everyPointLeads) (rootIds_nodup (by decide)) ?_ ?_⟩
  · rw [hlen]
    decide
  · rw [hlen]
    decide +kernel

end ForgeANN
