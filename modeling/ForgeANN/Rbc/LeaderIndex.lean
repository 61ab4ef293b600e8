-- SUMMARY: Leader indices survive their cast to `u16` exactly when the attempts have at most 65536 leaders.
import ForgeANN.Rbc.LeaderKernels

/-!
# Leader indices

An attempt whose leaders can all be told apart by a `u16` plans the groups of
the leaders in use and materialises every point where its leaders are. The
number of leaders is not limited to that many.
-/
namespace ForgeANN

open Lib

/-! ## Counts -/

section

variable {n : Nat} {assignment : List (List Nat)}

theorem countLids_eq (counts : List Nat) (lids : List Nat) (i : Nat) :
    (countLids counts lids)[i]? = counts[i]?.map (· + lids.count i) := by
  induction lids generalizing counts with
  | nil => simp [countLids]
  | cons lid lids ih =>
      rw [countLids, List.foldl_cons, ← countLids, ih, List.getElem?_modify]
      cases counts[i]? with
      | none => simp
      | some c =>
          by_cases hlid : lid = i
          · simp [hlid, Nat.add_assoc, Nat.add_comm 1]
          · simp [hlid]

/-- A leader is counted once for every point that has it. -/
theorem leaderCounts_eq :
    leaderCounts n assignment = (List.range n).map fun i => assignment.flatten.count i := by
  have hfold : ∀ (assignment : List (List Nat)) (counts : List Nat) (i : Nat),
      (assignment.foldl countLids counts)[i]? = counts[i]?.map (· + assignment.flatten.count i) := by
    intro assignment
    induction assignment with
    | nil => simp
    | cons lids assignment ih =>
        intro counts i
        rw [List.foldl_cons, ih, countLids_eq, List.flatten_cons, List.count_append]
        cases counts[i]? with
        | none => rfl
        | some c => simp [Nat.add_assoc]
  apply List.ext_getElem?
  intro i
  rw [leaderCounts, hfold, List.getElem?_replicate, List.getElem?_map]
  by_cases hi : i < n
  · simp [hi]
  · rw [if_neg hi, List.getElem?_eq_none (by rw [List.length_range]; exact Nat.le_of_not_lt hi)]
    rfl

theorem encode_toNat {lid : Nat} (h : lid < n) (hn : n ≤ 65536) : (UInt16.ofNat lid).toNat = lid :=
  UInt16.toNat_ofNat_of_lt (by rw [UInt16.size]; omega)

variable (hn : n ≤ 65536) (hrange : ∀ lids ∈ assignment, ∀ lid ∈ lids, lid < n)

include hn hrange in
/-- Counted from the records, the leaders have the same counts. -/
theorem rawCounts_encodeLeaders : rawCounts n (encodeLeaders assignment) = leaderCounts n assignment := by
  have hpoint : ∀ (lids counts : List Nat), (∀ lid ∈ lids, lid < n) →
      countLeaders counts (lids.map UInt16.ofNat) = countLids counts lids := by
    intro lids
    induction lids with
    | nil => exact fun _ _ => rfl
    | cons lid lids ih =>
        intro counts hlt
        rw [List.map_cons, countLeaders, List.foldl_cons, ← countLeaders, countLids, List.foldl_cons,
          ← countLids, encode_toNat (hlt lid List.mem_cons_self) hn,
          ih _ fun l hl => hlt l (List.mem_cons_of_mem _ hl)]
  have hfold : ∀ (assignment : List (List Nat)) (counts : List Nat),
      (∀ lids ∈ assignment, ∀ lid ∈ lids, lid < n) →
      (encodeLeaders assignment).foldl countLeaders counts = assignment.foldl countLids counts := by
    intro assignment
    induction assignment with
    | nil => exact fun _ _ => rfl
    | cons lids assignment ih =>
        intro counts hlt
        rw [encodeLeaders, List.map_cons, List.foldl_cons, List.foldl_cons,
          hpoint lids counts (hlt lids List.mem_cons_self)]
        exact ih _ fun l hl => hlt l (List.mem_cons_of_mem _ hl)
  exact hfold assignment _ hrange

include hn hrange in
theorem encodeLeaders_bound : ∀ leaders ∈ encodeLeaders assignment, ∀ c ∈ leaders, c.toNat < n := by
  intro leaders hleaders c hc
  obtain ⟨lids, hlids, rfl⟩ := List.mem_map.mp hleaders
  obtain ⟨lid, hlid, rfl⟩ := List.mem_map.mp hc
  rw [encode_toNat (hrange lids hlids lid hlid) hn]
  exact hrange lids hlids lid hlid

end

/-! ## One attempt -/

/-- The children of the attempt's groups, each with the points that have a leader in its group. -/
def MaterializesGroups (cur : List UInt32) (attempt : ExternalPartitionAttempt) : Prop :=
  ∀ depth store inlineLimit, ∃ children store' points,
    materializeMergedChildrenFromAssignmentRecords cur depth attempt.fanout attempt.mergeGroups
      (⟨⟨attempt.assignSpool, 0⟩⟩ : ContiguousAssignmentRecordSource) store inlineLimit =
        .ok (children, store') ∧
    children.mapM (readMaterialized store' depth) = .ok points ∧
    List.Forall₂ (fun group pts => ∀ x, x ∈ pts ↔ ∃ lids, (x, lids) ∈ cur.zip attempt.assignment ∧
      ∃ lid ∈ lids, lid ∈ group.rawChildren.map UInt16.toNat) attempt.mergeGroups points

/-- Every leader index of the attempt is the number its `u16` stands for, so its points go where
their leaders are. -/
structure IndicesExact (cur : List UInt32) (attempt : ExternalPartitionAttempt) : Prop where
  records : ∀ lids ∈ attempt.assignment, ∀ lid ∈ lids, (UInt16.ofNat lid).toNat = lid
  planned : ((attempt.mergeGroups.flatMap MergedRawGroup.rawChildren).map UInt16.toNat).Perm
    ((List.range attempt.leaders.length).filter fun lid => lid ∈ attempt.assignment.flatten)
  merged : ∀ j < attempt.mergeGroups.length, (UInt16.ofNat j).toNat = j
  counted : ∀ group ∈ attempt.mergeGroups, group.rawLen =
    attempt.assignment.flatten.countP fun lid => lid ∈ group.rawChildren.map UInt16.toNat
  materialized : MaterializesGroups cur attempt

/-- What one attempt comes to. -/
structure AttemptOf (args : LeaderArgs) (adaptiveCMax : Nat) (cur leaders : List UInt32)
    (localFanout : Nat) (attempt : ExternalPartitionAttempt) : Prop where
  leaders_eq : attempt.leaders = leaders
  fanout_eq : attempt.fanout = assignRecordFanout (min (max localFanout 1) leaders.length)
  assigns : FullyAssigns cur.length leaders.length attempt.fanout attempt.assignment
  spool_eq : attempt.assignSpool =
    (encodeLeaders attempt.assignment).flatMap (recordBytes attempt.fanout)
  groups_eq : attempt.mergeGroups = mergeClusterPlan (leaderCounts leaders.length attempt.assignment)
    args.leafSizeMin adaptiveCMax

section

variable {args : LeaderArgs} {ctx : PartitionContext args} {depth adaptiveCMax localFanout : Nat}
  {cur leaders : List UInt32} {attempt : ExternalPartitionAttempt}

theorem encodeLeaders_length_le {n fanout : Nat} {assignment : List (List Nat)}
    (h : FullyAssigns cur.length n fanout assignment) :
    ∀ record ∈ encodeLeaders assignment, record.length ≤ fanout := by
  intro record hrecord
  obtain ⟨lids, hlids, rfl⟩ := List.mem_map.mp hrecord
  rw [List.length_map, h.full lids hlids]
  exact Nat.min_le_left ..

theorem assignRecordFanout_clamped (localFanout : Nat) (hleaders : leaders ≠ []) :
    assignRecordFanout (min (assignRecordFanout (min (max localFanout 1) leaders.length))
      (max leaders.length 1)) = assignRecordFanout (min (max localFanout 1) leaders.length) := by
  have := List.length_pos_iff.mpr hleaders
  unfold assignRecordFanout
  omega

/-- Clusters that were computed are spooled and planned. -/
theorem partitionExternalOnce_ok (hleaders : leaders ≠ []) {assignment : List (List Nat)}
    (h : ctx.computeClusters depth cur leaders
      (assignRecordFanout (min (max localFanout 1) leaders.length)) = .ok assignment)
    (adaptiveCMax : Nat) :
    ∃ attempt, ctx.partitionExternalOnce depth adaptiveCMax cur leaders localFanout = .ok attempt ∧
      attempt.assignment = assignment ∧
      AttemptOf args adaptiveCMax cur leaders localFanout attempt := by
  have hpos : max leaders.length 1 = leaders.length :=
    Nat.max_eq_left (List.length_pos_iff.mpr hleaders)
  have hsame := assignRecordFanout_clamped localFanout hleaders
  set fanout := assignRecordFanout (min (max localFanout 1) leaders.length) with hfanout
  have hfull : FullyAssigns cur.length leaders.length fanout assignment := by
    rw [← hsame]
    unfold PartitionContext.computeClusters at h
    split_ifs at h
    · exact computeClustersGemm_fullyAssigns hleaders h
    · exact computeClustersScalar_fullyAssigns hleaders h
  have hidem : assignRecordFanout fanout = fanout := by rw [hfanout, assignRecordFanout_idem]
  have hwrite : writeRecords writeAssignRecord fanout (encodeLeaders assignment) =
      .ok ((encodeLeaders assignment).flatMap (recordBytes fanout)) := by
    have hfits : ∀ record ∈ encodeLeaders assignment, record.length ≤ assignRecordFanout fanout := by
      rw [hidem]
      exact encodeLeaders_length_le hfull
    have hrecords : writeRecords writeAssignRecord fanout (encodeLeaders assignment) = _ :=
      writeRecords_ok hfits
    rwa [hidem] at hrecords
  refine ⟨⟨leaders, assignment, (encodeLeaders assignment).flatMap (recordBytes fanout), fanout,
    mergeClusterPlan (leaderCounts leaders.length assignment) args.leafSizeMin adaptiveCMax⟩, ?_,
    rfl, ⟨rfl, rfl, hfull, rfl, rfl⟩⟩
  simp only [PartitionContext.partitionExternalOnce, hpos]
  rw [← hfanout, h, ok_bind, hwrite, ok_bind]

theorem partitionExternalOnce_spec (hleaders : leaders ≠ [])
    (h : ctx.partitionExternalOnce depth adaptiveCMax cur leaders localFanout = .ok attempt) :
    AttemptOf args adaptiveCMax cur leaders localFanout attempt := by
  cases hassign : ctx.computeClusters depth cur leaders
      (assignRecordFanout (min (max localFanout 1) leaders.length)) with
  | error e =>
      have hpos : max leaders.length 1 = leaders.length :=
        Nat.max_eq_left (List.length_pos_iff.mpr hleaders)
      simp only [PartitionContext.partitionExternalOnce, hpos, hassign] at h
      cases h
  | ok assignment =>
      obtain ⟨now, hnow, -, hspec⟩ := partitionExternalOnce_ok hleaders hassign adaptiveCMax
      rw [hnow] at h
      cases h
      exact hspec

/-! ## Attempts whose leaders fit -/

theorem nodup_toNat {l : List UInt16} (h : l.Nodup) : (l.map UInt16.toNat).Nodup :=
  h.map fun _ _ hab => UInt16.toNat_inj.mp hab

/-- The raw children planned are the leaders in use. -/
theorem plan_leaders {n : Nat} (hn : n ≤ 65536) (assignment : List (List Nat)) (cMin cMax : Nat) :
    (((mergeClusterPlan (leaderCounts n assignment) cMin cMax).flatMap
        MergedRawGroup.rawChildren).map UInt16.toNat).Perm
      ((List.range n).filter fun lid => lid ∈ assignment.flatten) := by
  have hlen : (leaderCounts n assignment).length = n := by simp [leaderCounts_eq]
  apply ((mergeClusterPlan_children _ cMin cMax).map UInt16.toNat).trans
  rw [List.perm_ext_iff_of_nodup (nodup_toNat (nonemptyRaw_nodup (hlen.trans_le hn)))
    (List.nodup_range.filter _)]
  intro lid
  rw [List.mem_filter, List.mem_range, decide_eq_true_eq,
    ← List.count_pos_iff (a := lid) (l := assignment.flatten), List.map_map, List.mem_map]
  constructor
  · rintro ⟨raw, hraw, rfl⟩
    obtain ⟨i, hi, hpos, hchild⟩ := mem_nonemptyRaw.mp hraw
    rw [leaderCounts_eq, List.getElem?_map, Option.map_eq_some_iff] at hi
    obtain ⟨j, hj, hcount⟩ := hi
    obtain ⟨hlt, hget⟩ := List.getElem?_eq_some_iff.mp hj
    rw [List.length_range] at hlt
    rw [List.getElem_range] at hget
    subst hget
    rw [Function.comp_apply, hchild, encode_toNat hlt hn]
    exact ⟨hlt, hcount ▸ hpos⟩
  · rintro ⟨hlt, hpos⟩
    refine ⟨(UInt16.ofNat lid, assignment.flatten.count lid), ?_, encode_toNat hlt hn⟩
    apply mem_nonemptyRaw.mpr
    refine ⟨lid, ?_, hpos, rfl⟩
    rw [leaderCounts_eq, List.getElem?_map, List.getElem?_range hlt, Option.map_some]

/-- Points counted by leader, over leaders that differ, are the points counted at once. -/
theorem sum_count_eq_countP {lids : List Nat} (hnodup : lids.Nodup) (l : List Nat) :
    (lids.map fun lid => l.count lid).sum = l.countP fun lid => lid ∈ lids := by
  induction l with
  | nil => simp
  | cons a l ih =>
      have hsplit : (lids.map fun lid => (a :: l).count lid).sum =
          (lids.map fun lid => l.count lid).sum + lids.count a := by
        clear hnodup ih
        induction lids with
        | nil => rfl
        | cons lid lids ih =>
            rw [List.map_cons, List.sum_cons, ih, List.map_cons, List.sum_cons, List.count_cons,
              List.count_cons]
            simp only [beq_iff_eq, eq_comm (a := a)]
            omega
      rw [hsplit, ih, List.countP_cons]
      congr 1
      rw [hnodup.count]
      simp only [decide_eq_true_eq]

theorem groupPoints_length (clusters : List (List UInt32)) (group : MergedRawGroup) :
    (groupPoints clusters group).length =
      ((group.rawChildren.map UInt16.toNat).map fun lid =>
        ((clusters.map List.length).getD lid 0)).sum := by
  rw [groupPoints, List.length_flatMap, List.map_map]
  congr 1
  apply List.map_congr_left
  intro c _
  rw [rawPoints, Function.comp_apply, List.getD_eq_getElem?_getD, List.getD_eq_getElem?_getD,
    List.getElem?_map]
  cases clusters[c.toNat]? <;> rfl

variable (hn : leaders.length ≤ 65536)
  (h : AttemptOf args adaptiveCMax cur leaders localFanout attempt)

include hn h

theorem AttemptOf.groups_planOf : attempt.mergeGroups =
    planOf leaders.length args.leafSizeMin adaptiveCMax (encodeLeaders attempt.assignment) := by
  rw [planOf, rawCounts_encodeLeaders hn h.assigns.inRange]
  exact h.groups_eq

/-- A planned group counts the points its leaders were given. -/
theorem AttemptOf.counted {group : MergedRawGroup} (hgroup : group ∈ attempt.mergeGroups) :
    group.rawLen =
      attempt.assignment.flatten.countP fun lid => lid ∈ group.rawChildren.map UInt16.toNat := by
  have hlen : (encodeLeaders attempt.assignment).length = cur.length := by
    rw [encodeLeaders, List.length_map, h.assigns.length]
  have hclusters : (buildClusters leaders.length cur
      (encodeLeaders attempt.assignment)).length ≤ 65536 := by rwa [buildClusters_length]
  have hsame := mergeClusters_eq_plan hclusters args.leafSizeMin adaptiveCMax
  have hchildren : (group.rawChildren.map UInt16.toNat).Nodup ∧
      ∀ lid ∈ group.rawChildren.map UInt16.toNat, lid < leaders.length := by
    have hperm := plan_leaders hn attempt.assignment args.leafSizeMin adaptiveCMax
    rw [← h.groups_eq] at hperm
    have hsub : (group.rawChildren.map UInt16.toNat).Sublist
        ((attempt.mergeGroups.flatMap MergedRawGroup.rawChildren).map UInt16.toNat) :=
      (List.sublist_flatten_of_mem (List.mem_map_of_mem hgroup)).map _
    refine ⟨hsub.nodup (hperm.nodup_iff.mpr (List.nodup_range.filter _)), fun lid hlid => ?_⟩
    exact List.mem_range.mp (List.mem_filter.mp (hperm.mem_iff.mp (hsub.mem hlid))).1
  have hcounted := hsame.counted group (by
    rw [buildClusters_map_length hlen, ← planOf, ← h.groups_planOf hn]
    exact hgroup)
  rw [hcounted, groupPoints_length, buildClusters_map_length hlen,
    rawCounts_encodeLeaders hn h.assigns.inRange, ← sum_count_eq_countP hchildren.1]
  congr 1
  apply List.map_congr_left
  intro lid hlid
  rw [leaderCounts_eq, List.getD_eq_getElem?_getD, List.getElem?_map,
    List.getElem?_range (hchildren.2 lid hlid), Option.map_some, Option.getD_some]

/-- The points of a group's child are those with a leader in the group. -/
theorem AttemptOf.materialized : MaterializesGroups cur attempt := by
  intro depth store inlineLimit
  have hlen : (encodeLeaders attempt.assignment).length = cur.length := by
    rw [encodeLeaders, List.length_map, h.assigns.length]
  have hbound := encodeLeaders_bound hn h.assigns.inRange
  have hrecord := encodeLeaders_length_le h.assigns
  have hidem : assignRecordFanout attempt.fanout = attempt.fanout := by
    rw [h.fanout_eq, assignRecordFanout_idem]
  have hsource : Delivers (assignRecordFanout attempt.fanout)
      (⟨⟨attempt.assignSpool, 0⟩⟩ : ContiguousAssignmentRecordSource)
      (encodeLeaders attempt.assignment) := by
    rw [hidem]
    have hcap : attempt.fanout ≤ 32 := by
      rw [h.fanout_eq]
      exact (assignRecordFanout_bounds _).2
    have hrest : (⟨attempt.assignSpool, 0⟩ : BufReader).rest =
        (encodeLeaders attempt.assignment).flatMap (recordBytes attempt.fanout) ++ [] := by
      rw [h.spool_eq, List.append_nil]
      rfl
    exact ContiguousAssignmentRecordSource.delivers hcap hrecord hrest
  have hgroups := h.groups_planOf hn
  have hmapped : Mapped (rawToMerged attempt.mergeGroups) attempt.mergeGroups.length
      (encodeLeaders attempt.assignment) := by
    rw [hgroups]
    exact plan_mapped hn hlen hbound
  obtain ⟨children, store', hmat, hread⟩ :=
    materialize_ok hlen hsource hmapped depth store inlineLimit
  refine ⟨children, store', _, hmat, hread, ?_⟩
  rw [List.forall₂_iff_get]
  refine ⟨by simp, fun j hj hj' x => ?_⟩
  simp only [List.get_eq_getElem, List.getElem_map, List.getElem_range]
  have hget : (planOf leaders.length args.leafSizeMin adaptiveCMax
      (encodeLeaders attempt.assignment))[j]? = some attempt.mergeGroups[j] := by
    rw [← hgroups]
    exact List.getElem?_eq_getElem hj
  have hmem := mem_pushed_iff hn hlen hbound hget (x := x)
  rw [← hgroups] at hmem
  rw [hmem, groupPoints, List.mem_flatMap]
  -- a leader of the group, as an index and as what the record holds
  have hgroup : attempt.mergeGroups[j] ∈ planOf leaders.length args.leafSizeMin adaptiveCMax
      (encodeLeaders attempt.assignment) := List.mem_of_getElem? hget
  constructor
  · rintro ⟨c, hc, hx⟩
    obtain ⟨record, hpair, hin⟩ := (mem_buildClusters (planned_child_lt hn hgroup hc)).mp hx
    rw [encodeLeaders, List.zip_map_right, List.mem_map] at hpair
    obtain ⟨⟨y, lids⟩, hpair, heq⟩ := hpair
    cases heq
    obtain ⟨lid, hlid, rfl⟩ := List.mem_map.mp hin
    refine ⟨lids, hpair, lid, hlid, ?_⟩
    have hlt := h.assigns.inRange lids (List.of_mem_zip hpair).2 lid hlid
    rw [← encode_toNat hlt hn]
    exact List.mem_map_of_mem hc
  · rintro ⟨lids, hpair, lid, hlid, hin⟩
    obtain ⟨c, hc, rfl⟩ := List.mem_map.mp hin
    refine ⟨c, hc, (mem_buildClusters (planned_child_lt hn hgroup hc)).mpr
      ⟨lids.map UInt16.ofNat, ?_, ?_⟩⟩
    · rw [encodeLeaders, List.zip_map_right, List.mem_map]
      exact ⟨(x, lids), hpair, rfl⟩
    · exact List.mem_map.mpr ⟨c.toNat, hlid, UInt16.ofNat_toNat⟩

/-- With at most 65536 leaders, the attempt's indices are exact. -/
theorem AttemptOf.indicesExact : IndicesExact cur attempt where
  records lids hlids lid hlid := encode_toNat (h.assigns.inRange lids hlids lid hlid) hn
  planned := by
    rw [h.groups_eq, h.leaders_eq]
    exact plan_leaders hn ..
  merged j hj := by
    rw [h.groups_planOf hn] at hj
    exact toNat_planIndex hn hj
  counted _ hgroup := h.counted hn hgroup
  materialized := h.materialized hn

omit hn h

end

end ForgeANN
