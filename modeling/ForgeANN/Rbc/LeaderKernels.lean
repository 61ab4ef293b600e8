-- SUMMARY: What the sampled leaders and the assignment kernels guarantee: distinct leaders, as many as asked for.
import ForgeANN.Rbc.LeaderAttempts

/-!
# Samples and kernels

A sample of a cluster without repetitions has as many leaders as asked for, all
different; every kernel gives each point the full fanout of different leaders.
-/
namespace ForgeANN

open Lib

/-! ## Sampled leaders -/

section

variable {ids : List UInt32} {k : Nat} {seed : UInt64}

theorem uniquePositions_fst_nodup : ((uniquePositions ids).map Prod.fst).Nodup := by
  have hsorted : (ids.zipIdx.mergeSort fun a b =>
      decide (a.1 < b.1 ∨ a.1 = b.1 ∧ a.2 ≤ b.2)).Pairwise fun a b => a.1 ≤ b.1 := by
    have hle : (ids.zipIdx.mergeSort fun a b =>
        decide (a.1 < b.1 ∨ a.1 = b.1 ∧ a.2 ≤ b.2)).Pairwise fun a b =>
          decide (a.1 < b.1 ∨ a.1 = b.1 ∧ a.2 ≤ b.2) = true := List.pairwise_mergeSort
      (fun a b c hab hbc => by
        simp only [decide_eq_true_eq, UInt32.lt_iff_toNat_lt, ← UInt32.toNat_inj] at *
        omega)
      (fun a b => by
        simp only [Bool.or_eq_true, decide_eq_true_eq, UInt32.lt_iff_toNat_lt, ← UInt32.toNat_inj]
        omega) ids.zipIdx
    refine hle.imp fun {a b} hab => ?_
    rw [decide_eq_true_eq] at hab
    rcases hab with hlt | ⟨heq, -⟩
    · exact le_of_lt hlt
    · exact le_of_eq heq
  exact List.pairwise_map.mpr ((pairwise_dedupByKey hsorted).imp ne_of_lt)

theorem mem_uniquePositions {p : UInt32 × Nat} (h : p ∈ uniquePositions ids) :
    ids[p.2]? = some p.1 := by
  have hmem := (dedupByKey_sublist _ _).mem h
  rw [List.mem_mergeSort] at hmem
  exact List.mem_zipIdx_iff_getElem?.mp hmem

/-- A cluster without repetitions keeps all its points. -/
theorem uniquePositions_length (h : ids.Nodup) : (uniquePositions ids).length = ids.length := by
  have hmap : ((uniquePositions ids).map Prod.fst).length = (uniquePositions ids).length :=
    List.length_map ..
  rw [← hmap]
  apply List.Perm.length_eq
  rw [List.perm_ext_iff_of_nodup uniquePositions_fst_nodup h]
  intro id
  constructor
  · intro hid
    obtain ⟨p, hp, rfl⟩ := List.mem_map.mp hid
    exact List.mem_of_getElem? (mem_uniquePositions hp)
  · intro hid
    obtain ⟨i, hi⟩ := List.getElem?_of_mem hid
    have hmem : (id, i) ∈ ids.zipIdx.mergeSort fun a b =>
        decide (a.1 < b.1 ∨ a.1 = b.1 ∧ a.2 ≤ b.2) := by
      rw [List.mem_mergeSort, List.mk_mem_zipIdx_iff_getElem?]
      exact hi
    have hkept : ∃ p ∈ uniquePositions ids, p.1 = id := exists_key_dedupByKey hmem
    obtain ⟨p, hp, rfl⟩ := hkept
    exact List.mem_map_of_mem hp

/-- The positions sampled are some of the unique ones. -/
theorem samplePositionsBottomk_chosen (hids : ids ≠ []) (k : Nat) (seed : UInt64) :
    ∃ chosen : List (UInt32 × Nat), chosen.Subperm (uniquePositions ids) ∧
      chosen.length = min k (uniquePositions ids).length ∧
      samplePositionsBottomk ids k seed = chosen.map Prod.snd := by
  simp only [samplePositionsBottomk, hids, or_false]
  split_ifs with hk hle
  · exact ⟨[], List.nil_subperm, by simp [hk], rfl⟩
  · exact ⟨_, .refl _, (Nat.min_eq_right hle).symm, rfl⟩
  · generalize hsorted : List.mergeSort (List.map _ (uniquePositions ids)) _ = sorted
    have hperm : (sorted.map Prod.snd).Perm (uniquePositions ids) := by
      rw [← hsorted]
      apply ((List.mergeSort_perm _ _).map Prod.snd).trans
      rw [List.map_map]
      exact .of_eq (List.map_id _)
    refine ⟨(sorted.take k).map Prod.snd, ?_, ?_, ?_⟩
    · exact (((List.take_sublist k sorted).map Prod.snd).subperm).trans hperm.subperm
    · rw [List.length_map, List.length_take, ← hsorted, List.length_mergeSort, List.length_map]
    · rw [List.map_map]
      rfl

/-- What is sampled of a cluster without repetitions: as many leaders as asked for, if there are
that many points, and none of them twice. -/
theorem sampleSetBottomk_spec (h : ids.Nodup) :
    (sampleSetBottomk ids k seed).Nodup ∧
      (sampleSetBottomk ids k seed).length = min k ids.length := by
  by_cases hids : ids = []
  · rw [hids]
    simp [sampleSetBottomk, samplePositionsBottomk]
  obtain ⟨chosen, hsub, hlen, hpos⟩ :=
    samplePositionsBottomk_chosen hids k seed
  have hmap : sampleSetBottomk ids k seed = chosen.map Prod.fst := by
    rw [sampleSetBottomk, hpos, List.map_map]
    apply List.map_congr_left
    intro p hp
    have hget := mem_uniquePositions (hsub.subset hp)
    rw [Function.comp_apply, List.getD_eq_getElem?_getD, hget, Option.getD_some]
  rw [hmap, List.length_map, hlen, uniquePositions_length h]
  refine ⟨?_, rfl⟩
  obtain ⟨part, hperm, hpart⟩ := hsub
  rw [← (hperm.map Prod.fst).nodup_iff]
  exact (hpart.map Prod.fst).nodup uniquePositions_fst_nodup

end

/-! ## Kernels -/

namespace StackTopK

variable {topK : StackTopK}

theorem sift_perm (entry : F32 × Nat) (buf : List (F32 × Nat)) :
    (sift entry buf).Perm (entry :: buf) := by
  induction buf with
  | nil => exact .refl _
  | cons last buf ih =>
      rw [sift]
      split_ifs
      · exact (ih.cons last).trans (.swap ..)
      · exact .refl _

/-- After `ids` were pushed: as many of them as there is room for, each once. -/
structure Tops (topK : StackTopK) (ids : List Nat) : Prop where
  distinct : (topK.buf.map Prod.snd).Nodup
  known : ∀ id ∈ topK.buf.map Prod.snd, id ∈ ids
  full : topK.buf.length = min topK.k ids.length

theorem push_k (dist : F32) (id : Nat) : (topK.push dist id).k = topK.k := by
  obtain ⟨buf, k⟩ := topK
  simp only [push]
  split_ifs
  · rfl
  · cases buf with
    | nil => rfl
    | cons last buf =>
        simp only
        split_ifs <;> rfl

theorem Tops.push {ids : List Nat} (h : topK.Tops ids) (dist : F32) {id : Nat} (hid : id ∉ ids) :
    (topK.push dist id).Tops (id :: ids) := by
  obtain ⟨buf, k⟩ := topK
  obtain ⟨hdistinct, hknown, hfull⟩ := h
  simp only at hdistinct hknown hfull
  -- an entry that comes in, next to some of those there were
  have hsift : ∀ rest : List (F32 × Nat), rest.Sublist buf →
      ((sift (dist, id) rest).map Prod.snd).Nodup ∧
        ∀ i ∈ (sift (dist, id) rest).map Prod.snd, i ∈ id :: ids := by
    intro rest hrest
    have hperm := (sift_perm (dist, id) rest).map Prod.snd
    have hsub := hrest.map Prod.snd
    constructor
    · rw [hperm.nodup_iff, List.map_cons, List.nodup_cons]
      exact ⟨fun hin => hid (hknown id (hsub.mem hin)), hsub.nodup hdistinct⟩
    · intro i hi
      rcases List.mem_cons.mp (hperm.mem_iff.mp hi) with rfl | hi
      · exact List.mem_cons_self
      · exact List.mem_cons_of_mem id (hknown i (hsub.mem hi))
  simp only [StackTopK.push]
  split_ifs with hroom
  · obtain ⟨hnodup, hmem⟩ := hsift buf (.refl _)
    refine ⟨hnodup, hmem, ?_⟩
    simp only
    rw [(sift_perm (dist, id) buf).length_eq, List.length_cons, List.length_cons]
    omega
  · cases buf with
    | nil =>
        simp only [List.length_nil] at hroom hfull
        refine ⟨hdistinct, fun i hi => absurd hi List.not_mem_nil, ?_⟩
        simp only [List.length_nil, List.length_cons]
        omega
    | cons last buf =>
        simp only [List.length_cons] at hroom hfull
        simp only
        split_ifs
        · obtain ⟨hnodup, hmem⟩ := hsift buf (List.sublist_cons_self last buf)
          refine ⟨hnodup, hmem, ?_⟩
          simp only
          rw [(sift_perm (dist, id) buf).length_eq, List.length_cons, List.length_cons]
          omega
        · refine ⟨hdistinct, fun i hi => List.mem_cons_of_mem id (hknown i hi), ?_⟩
          simp only [List.length_cons]
          omega

/-- A full run over the leaders. -/
theorem tops_of_pushes (dist : Nat → F32) (k n : Nat) :
    ((List.range n).foldl (fun topK lid => StackTopK.push topK (dist lid) lid)
      (StackTopK.new k)).Tops (List.range n).reverse ∧
    ((List.range n).foldl (fun topK lid => StackTopK.push topK (dist lid) lid)
      (StackTopK.new k)).k = min k 32 := by
  induction n with
  | zero => exact ⟨⟨List.nodup_nil, fun i hi => (nomatch hi), (Nat.min_zero _).symm⟩, rfl⟩
  | succ n ih =>
      rw [List.range_succ, List.foldl_concat, List.reverse_concat, push_k]
      exact ⟨ih.1.push (dist n) (by simp), ih.2⟩

end StackTopK

section

variable {fanout n : Nat}

/-- A point's leaders: different ones, as many as the fanout asks for. -/
structure FullFanout (leaders fanout : Nat) (lids : List Nat) : Prop where
  distinct : lids.Nodup
  inRange : ∀ lid ∈ lids, lid < leaders
  full : lids.length = min fanout leaders

/-- A run over the leaders keeps as many as the fanout asks for, and 32 at most. -/
theorem fullFanout_of_pushes (fanout n : Nat) (dist : Nat → F32) :
    FullFanout n (min fanout 32) ((List.range n).foldl
      (fun topK lid => StackTopK.push topK (dist lid) lid) (StackTopK.new fanout)).ids := by
  obtain ⟨⟨hdistinct, hknown, hfull⟩, hk⟩ := StackTopK.tops_of_pushes dist fanout n
  have hperm := (List.reverse_perm ((List.range n).foldl
    (fun topK lid => StackTopK.push topK (dist lid) lid) (StackTopK.new fanout)).buf).map Prod.snd
  refine ⟨?_, fun lid hlid => ?_, ?_⟩
  · exact hperm.nodup_iff.mpr hdistinct
  · have hin := hknown lid (hperm.mem_iff.mp hlid)
    rwa [List.mem_reverse, List.mem_range] at hin
  · rw [StackTopK.ids, hperm.length_eq, List.length_map, hfull, hk, List.length_reverse,
      List.length_range]

theorem gramLeaders_fullFanout (hn : 0 < n) (hfanout : fanout ≤ 32)
    (dist : Nat → F32) : FullFanout n fanout (ForcedSplitContext.gramLeaders dist n fanout) := by
  rw [ForcedSplitContext.gramLeaders]
  split_ifs with hone
  · refine ⟨List.nodup_singleton _, fun lid hlid => ?_, ?_⟩
    · rw [List.mem_singleton.mp hlid]
      exact ForcedSplitContext.gramBest_lt hn dist
    · rw [hone, List.length_singleton]
      omega
  · have hfull := fullFanout_of_pushes fanout n dist
    rwa [Nat.min_eq_left hfanout] at hfull

theorem fullyAssigns_of_forall {points : Nat} {assignment : List (List Nat)} (hn : 0 < n)
    (hfanout : 0 < fanout) (hlen : assignment.length = points)
    (h : ∀ lids ∈ assignment, FullFanout n fanout lids) : FullyAssigns points n fanout assignment where
  length := hlen
  nonempty lids hlids := by
    rw [← List.length_pos_iff, (h lids hlids).full]
    exact Nat.lt_min.mpr ⟨hfanout, hn⟩
  inRange lids hlids := (h lids hlids).inRange
  distinct lids hlids := (h lids hlids).distinct
  full lids hlids := (h lids hlids).full

/-- A run over the leaders that computes their distances one by one is a run over distances. -/
theorem exists_dist_of_foldlM {σ : Type} {leaders : List UInt32} (read : UInt32 → AnnResult F32)
    (use : σ → F32 → Nat → σ) {k : Nat} {s t : σ}
    (h : (leaders.zipIdx k).foldlM (fun s (leader, lid) => do
      let d ← read leader
      .ok (use s d lid)) s = Except.ok t) :
    ∃ dist : Nat → F32,
      t = (List.range' k leaders.length).foldl (fun s lid => use s (dist lid) lid) s := by
  induction leaders generalizing k s with
  | nil =>
      cases h
      exact ⟨fun _ => ⟨0⟩, rfl⟩
  | cons leader leaders ih =>
      rw [List.zipIdx_cons, List.foldlM_cons] at h
      simp only at h
      cases hd : read leader with
      | error e =>
          rw [hd] at h
          cases h
      | ok d =>
          rw [hd, ok_bind, ok_bind] at h
          obtain ⟨dist, ht⟩ := ih h
          refine ⟨fun lid => if lid = k then d else dist lid, ?_⟩
          rw [List.length_cons, List.range'_succ, List.foldl_cons, ht]
          simp only [↓reduceIte]
          apply List.foldl_ext
          intro s lid hlid
          have hne : lid ≠ k := by
            have := List.left_le_of_mem_range' hlid
            omega
          rw [if_neg hne]

end

section

variable {args : LeaderArgs} {ctx : PartitionContext args} {leaders : List UInt32} {fanout : Nat}

theorem scalarBest_eq {idx : UInt32} {best : Nat} (h : ctx.scalarBest leaders idx = .ok best) :
    ∃ dist, best = ForcedSplitContext.gramBest dist leaders.length := by
  unfold PartitionContext.scalarBest at h
  cases hfold : leaders.zipIdx.foldlM (fun best (leader, lid) => do
      let d ← ctx.getDistance idx leader
      .ok (if d.lt best.1 then (d, lid) else best)) ((⟨0x7f800000⟩ : F32), 0) with
  | error e =>
      rw [hfold] at h
      cases h
  | ok t =>
      rw [hfold] at h
      cases h
      obtain ⟨dist, ht⟩ := exists_dist_of_foldlM (σ := F32 × Nat) (k := 0) (ctx.getDistance idx)
        (fun best d lid => if d.lt best.1 then (d, lid) else best) hfold
      refine ⟨dist, ?_⟩
      rw [ht, ForcedSplitContext.gramBest, List.range_eq_range']

theorem scalarTopK_pushes {idx : UInt32} {lids : List Nat}
    (h : ctx.scalarTopK leaders fanout idx = .ok lids) :
    ∃ dist : Nat → F32, lids = ((List.range leaders.length).foldl
      (fun topK lid => StackTopK.push topK (dist lid) lid) (StackTopK.new fanout)).ids := by
  unfold PartitionContext.scalarTopK at h
  cases hfold : leaders.zipIdx.foldlM (fun topK (leader, lid) => do
      let d ← ctx.getDistance idx leader
      .ok (StackTopK.push topK d lid)) (StackTopK.new fanout) with
  | error e =>
      rw [hfold] at h
      cases h
  | ok t =>
      rw [hfold] at h
      cases h
      obtain ⟨dist, ht⟩ := exists_dist_of_foldlM (ctx.getDistance idx) StackTopK.push hfold
      refine ⟨dist, ?_⟩
      rw [ht, List.range_eq_range']

theorem scalarTopK_eq {idx : UInt32} {lids : List Nat} (hone : fanout ≠ 1)
    (h : ctx.scalarTopK leaders fanout idx = .ok lids) :
    ∃ dist, lids = ForcedSplitContext.gramLeaders dist leaders.length fanout := by
  obtain ⟨dist, hlids⟩ := scalarTopK_pushes h
  refine ⟨dist, ?_⟩
  rw [hlids, ForcedSplitContext.gramLeaders, if_neg hone]

variable {cur : List UInt32} {assignment : List (List Nat)}

/-- The scalar kernel gives every point its full fanout. -/
theorem computeClustersScalar_fullyAssigns (hleaders : leaders ≠ [])
    (h : ctx.computeClustersScalar cur leaders fanout = .ok assignment) :
    FullyAssigns cur.length leaders.length
      (assignRecordFanout (min fanout (max leaders.length 1))) assignment := by
  have hn := List.length_pos_iff.mpr hleaders
  set recorded := assignRecordFanout (min fanout (max leaders.length 1)) with hrecorded
  obtain ⟨hpos, hle⟩ : 1 ≤ recorded ∧ recorded ≤ 32 := assignRecordFanout_bounds _
  simp only [PartitionContext.computeClustersScalar, ← hrecorded] at h
  split_ifs at h with hone
  all_goals
    have hpoints := forall₂_of_mapM h
    refine fullyAssigns_of_forall hn hpos hpoints.length_eq.symm fun lids hlids => ?_
    obtain ⟨idx, -, hidx⟩ := exists_of_mem_forall₂ hpoints hlids
  · cases hbest : ctx.scalarBest leaders idx with
    | error e =>
        rw [hbest] at hidx
        cases hidx
    | ok best =>
        rw [hbest] at hidx
        cases hidx
        obtain ⟨dist, rfl⟩ := scalarBest_eq hbest
        have hfull := gramLeaders_fullFanout hn hle dist
        rwa [ForcedSplitContext.gramLeaders, if_pos hone] at hfull
  · obtain ⟨dist, rfl⟩ := scalarTopK_eq hone hidx
    exact gramLeaders_fullFanout hn hle dist

/-- So does the other one, by ADSampling or by the matrix product. -/
theorem computeClustersGemm_fullyAssigns {depth : Nat} (hleaders : leaders ≠ [])
    (h : ctx.computeClustersGemm depth cur leaders fanout = .ok assignment) :
    FullyAssigns cur.length leaders.length
      (assignRecordFanout (min fanout (max leaders.length 1))) assignment := by
  have hn := List.length_pos_iff.mpr hleaders
  set recorded := assignRecordFanout (min fanout (max leaders.length 1)) with hrecorded
  obtain ⟨hpos, hle⟩ : 1 ≤ recorded ∧ recorded ≤ 32 := assignRecordFanout_bounds _
  simp only [PartitionContext.computeClustersGemm, ← hrecorded] at h
  cases hads : ctx.adsampling depth cur leaders recorded with
  | some result =>
      rw [hads] at h
      cases result with
      | error e => cases h
      | ok lids =>
          cases h
          exact lids.property
  | none =>
      rw [hads] at h
      simp only at h
      cases hdist : ctx.gramDistances cur leaders with
      | error e =>
          rw [hdist] at h
          cases h
      | ok dist =>
          rw [hdist] at h
          cases h
          refine fullyAssigns_of_forall hn hpos (by simp) fun lids hlids => ?_
          obtain ⟨i, -, rfl⟩ := List.mem_map.mp hlids
          exact gramLeaders_fullFanout hn hle (dist i)

end

end ForgeANN
