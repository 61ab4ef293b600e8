-- SUMMARY: The parallel reducer against the serial one: exactly when their callbacks and outcomes are the same.
import ForgeANN.Spill.Agreement

/-!
# Refinement of the serial reducer
-/
namespace ForgeANN

open Lib

/-! ## Planned groups -/

theorem groupOfShard_bounds {numPoints pointsPerShard shardId : Nat} {sort : SegmentSort}
    {segments : List SpillSegmentDesc} {group : SegmentGroup}
    (h : groupOfShard numPoints pointsPerShard sort segments shardId = .ok group) :
    group.pointStart = shardId * max pointsPerShard 1 ∧
      group.pointEnd = min (shardId * max pointsPerShard 1 + max pointsPerShard 1) numPoints := by
  unfold groupOfShard at h
  dsimp only at h
  split_ifs at h with hstart
  split at h <;> cases h
  exact ⟨rfl, rfl⟩

section

variable {numPoints pointStart pointsPerShard : Nat} {sort : SegmentSort}
  {artifacts : SpillArtifacts} {groups : List SegmentGroup}

theorem groups_ordered
    (h : groupSegmentsByShard numPoints pointsPerShard sort artifacts = .ok groups) :
    groups.Pairwise fun a b => a.pointEnd ≤ b.pointStart := by
  apply pairwise_of_forall₂ (forall₂_of_mapM h) (sortDedup_pairwise _)
  intro a b x y hab hx hy
  rw [(groupOfShard_bounds hx).2, (groupOfShard_bounds hy).1]
  apply (Nat.min_le_left ..).trans
  rw [← Nat.succ_mul]
  exact Nat.mul_le_mul_right _ hab

theorem groups_fit
    (h : groupSegmentsByShard numPoints pointsPerShard sort artifacts = .ok groups)
    {group : SegmentGroup} (hmem : group ∈ groups) :
    group.pointEnd ≤ group.pointStart + max pointsPerShard 1 := by
  obtain ⟨shardId, -, hgroup⟩ := exists_of_mem_forall₂ (forall₂_of_mapM h) hmem
  rw [(groupOfShard_bounds hgroup).1, (groupOfShard_bounds hgroup).2]
  exact Nat.min_le_left ..

/-- The groups that are reduced. -/
def activeGroups (pointStart : Nat) (groups : List SegmentGroup) : List SegmentGroup :=
  groups.filter fun group => pointStart < group.pointEnd

theorem active_of_mem
    (h : groupSegmentsByShard numPoints pointsPerShard sort artifacts = .ok groups)
    {group : SegmentGroup} (hmem : group ∈ activeGroups pointStart groups) :
    group.Active pointStart pointsPerShard := by
  obtain ⟨hmem, hahead⟩ := List.mem_filter.mp hmem
  exact ⟨of_decide_eq_true hahead, groups_fit h hmem⟩

theorem chained_of_ordered {next : Nat} (hord : groups.Pairwise fun a b => a.pointEnd ≤ b.pointStart)
    (hactive : ∀ group ∈ groups, pointStart < group.pointEnd)
    (hnext : ∀ group ∈ groups, next ≤ group.start pointStart) :
    Chained (SegmentGroup.start pointStart) next groups := by
  induction groups generalizing next with
  | nil => trivial
  | cons group groups ih =>
      obtain ⟨hbefore, hord⟩ := List.pairwise_cons.mp hord
      refine ⟨hnext group List.mem_cons_self, ?_, ?_⟩
      · exact Nat.max_lt.mpr ⟨group.pointStart_lt, hactive group List.mem_cons_self⟩
      · apply ih hord fun g hg => hactive g (List.mem_cons_of_mem _ hg)
        exact fun g hg => (hbefore g hg).trans (Nat.le_max_left ..)

theorem chained_active
    (h : groupSegmentsByShard numPoints pointsPerShard sort artifacts = .ok groups) :
    Chained (SegmentGroup.start pointStart) pointStart (activeGroups pointStart groups) := by
  apply chained_of_ordered ((groups_ordered h).filter _)
  · exact fun group hgroup => of_decide_eq_true (List.mem_filter.mp hgroup).2
  · exact fun group _ => Nat.le_max_right ..

/-! ## Both reducers as walks -/

/-- The serial loop passes over the groups before the first point. -/
theorem foldlM_reduceGroupFrom_eq_walk (lMax next : Nat) :
    (do
      let nextPoint ← groups.foldlM (reduceGroupFrom pointStart lMax pointsPerShard artifacts) next
      Emission.emit (emptyCallbacks nextPoint numPoints)) =
      walk numPoints (SegmentGroup.start pointStart)
        (SegmentGroup.reduceSerial pointStart lMax pointsPerShard artifacts) next
        (activeGroups pointStart groups) := by
  induction groups generalizing next with
  | nil => rfl
  | cons group groups ih =>
      rw [List.foldlM_cons, bind_assoc, reduceGroupFrom]
      by_cases hskip : group.pointEnd ≤ pointStart
      · have hfilter : activeGroups pointStart (group :: groups) = activeGroups pointStart groups :=
          List.filter_cons_of_neg (by simpa using hskip)
        rw [if_pos hskip, pure_bind, hfilter]
        exact ih next
      · have hfilter : activeGroups pointStart (group :: groups) =
            group :: activeGroups pointStart groups :=
          List.filter_cons_of_pos (by simpa using hskip)
        rw [if_neg hskip, hfilter, walk, ← ih]
        simp only [bind_assoc, pure_bind]
        rfl

theorem reduceSerial_eq_walk (lMax : Nat) (hstart : pointStart < numPoints)
    (h : groupSegmentsByShard numPoints pointsPerShard sort artifacts = .ok groups) :
    reduceSegmentsShardedInOrderFromWithLimit numPoints pointStart lMax pointsPerShard sort
        artifacts =
      (do
        walk numPoints (SegmentGroup.start pointStart)
          (SegmentGroup.reduceSerial pointStart lMax pointsPerShard artifacts) pointStart
          (activeGroups pointStart groups)
        pure (reduceStats groups artifacts)) := by
  rw [reduceSegmentsShardedInOrderFromWithLimit, if_neg (by omega), h, Emission.lift_ok, pure_bind,
    ← foldlM_reduceGroupFrom_eq_walk, bind_assoc]

/-- A group's part, replayed. -/
def SegmentGroup.replay (pointStart lMax pointsPerShard : Nat) (artifacts : SpillArtifacts)
    (group : SegmentGroup) : Reduction Unit :=
  match group.toPart pointStart lMax pointsPerShard artifacts with
  | .ok part => replayNeighborPart part
  | .error err => .fail err

theorem toPart_bounds {lMax : Nat} {group : SegmentGroup} {part : NeighborPart}
    (h : group.toPart pointStart lMax pointsPerShard artifacts = .ok part) :
    part.pointStart = group.start pointStart ∧ part.pointEnd = group.pointEnd := by
  unfold SegmentGroup.toPart reduceSegmentGroupToNeighborPart at h
  split_ifs at h
  dsimp only at h
  generalize (GroupRange.writePart _ _ _).result = result at h
  cases result with
  | error err => cases h
  | ok _ =>
      cases h
      exact ⟨rfl, rfl⟩

theorem foldlM_replayPartFrom_eq_walk {lMax : Nat} {parts : List NeighborPart}
    (h : List.Forall₂ (fun group part =>
      SegmentGroup.toPart pointStart lMax pointsPerShard artifacts group = .ok part) groups parts)
    (next : Nat) :
    (do
      let nextPoint ← parts.foldlM replayPartFrom next
      Emission.emit (emptyCallbacks nextPoint numPoints)) =
      walk numPoints (SegmentGroup.start pointStart)
        (SegmentGroup.replay pointStart lMax pointsPerShard artifacts) next groups := by
  induction h generalizing next with
  | nil => rfl
  | @cons group part groups parts hpart _ ih =>
      obtain ⟨hstart, hend⟩ := toPart_bounds hpart
      have hreplay : group.replay pointStart lMax pointsPerShard artifacts =
          replayNeighborPart part := by rw [SegmentGroup.replay, hpart]
      rw [List.foldlM_cons, bind_assoc, replayPartFrom, walk, hreplay, ← hstart, ← hend]
      simp only [bind_assoc, pure_bind, ih]

/-- The parts are in order before they are sorted. -/
theorem sort_parts {lMax : Nat} {parts : List NeighborPart} (partSort : PartSort)
    (hgroups : groupSegmentsByShard numPoints pointsPerShard sort artifacts = .ok groups)
    (h : (activeGroups pointStart groups).mapM
      (SegmentGroup.toPart pointStart lMax pointsPerShard artifacts) = .ok parts) :
    partSort.sort parts = parts := by
  have hord : parts.Pairwise fun a b => a.pointStart < b.pointStart := by
    have hactive : (activeGroups pointStart groups).Pairwise fun a b =>
        pointStart < a.pointEnd ∧ a.pointEnd ≤ b.pointStart := by
      refine ((groups_ordered hgroups).filter _).imp_of_mem fun {a b} ha _ hab => ?_
      exact ⟨of_decide_eq_true (List.mem_filter.mp ha).2, hab⟩
    apply pairwise_of_forall₂ (forall₂_of_mapM h) hactive
    intro a b x y hab hx hy
    have hlt := a.pointStart_lt
    rw [(toPart_bounds hx).1, (toPart_bounds hy).1, SegmentGroup.start, SegmentGroup.start]
    omega
  exact partSort.eq_self hord

theorem reduceParallel_eq (lMax maxParallelGroups : Nat) (partSort : PartSort)
    (hstart : pointStart < numPoints)
    (h : groupSegmentsByShard numPoints pointsPerShard sort artifacts = .ok groups)
    (hmany : ¬ ((activeGroups pointStart groups).length ≤ 1 ∨ maxParallelGroups ≤ 1)) :
    reduceSegmentsShardedInOrderFromParallel numPoints pointStart lMax pointsPerShard sort partSort
        artifacts maxParallelGroups =
      match (activeGroups pointStart groups).mapM
        (SegmentGroup.toPart pointStart lMax pointsPerShard artifacts) with
      | .error err => .fail err
      | .ok _ =>
          walk numPoints (SegmentGroup.start pointStart)
            (SegmentGroup.replay pointStart lMax pointsPerShard artifacts) pointStart
            (activeGroups pointStart groups) >>= fun _ => pure (reduceStats groups artifacts) := by
  rw [reduceSegmentsShardedInOrderFromParallel, if_neg (by omega), h, Emission.lift_ok, pure_bind]
  dsimp only
  rw [activeGroups] at hmany
  rw [if_neg hmany]
  change (do
    let parts ← Emission.lift ((activeGroups pointStart groups).mapM
      (SegmentGroup.toPart pointStart lMax pointsPerShard artifacts))
    let nextPoint ← (partSort.sort parts).foldlM replayPartFrom pointStart
    Emission.emit (emptyCallbacks nextPoint numPoints)
    pure (reduceStats groups artifacts)) = _
  cases hparts : (activeGroups pointStart groups).mapM
      (SegmentGroup.toPart pointStart lMax pointsPerShard artifacts) with
  | error err => rfl
  | ok parts =>
      rw [Emission.lift_ok, pure_bind, sort_parts partSort h hparts, ← bind_assoc,
        foldlM_replayPartFrom_eq_walk (forall₂_of_mapM hparts)]

/-- With one active group, or no parallelism, the serial reducer is called. -/
theorem reduceParallel_of_few (lMax maxParallelGroups : Nat) (partSort : PartSort)
    (hstart : pointStart < numPoints)
    (h : groupSegmentsByShard numPoints pointsPerShard sort artifacts = .ok groups)
    (hfew : (activeGroups pointStart groups).length ≤ 1 ∨ maxParallelGroups ≤ 1) :
    reduceSegmentsShardedInOrderFromParallel numPoints pointStart lMax pointsPerShard sort partSort
        artifacts maxParallelGroups =
      reduceSegmentsShardedInOrderFromWithLimit numPoints pointStart lMax pointsPerShard sort
        artifacts := by
  rw [reduceSegmentsShardedInOrderFromParallel, if_neg (by omega), h, Emission.lift_ok, pure_bind]
  exact if_pos hfew

/-! ## Outcomes of the groups -/

end

section

variable {numPoints pointStart lMax pointsPerShard : Nat} {artifacts : SpillArtifacts}
  {group : SegmentGroup}

theorem SegmentGroup.Active.reduceSerial_ok_iff (h : group.Active pointStart pointsPerShard)
    (hl : 0 < lMax) :
    (group.reduceSerial pointStart lMax pointsPerShard artifacts).result = .ok () ↔
      group.Clean artifacts := by
  constructor
  · intro hok
    by_cases hall : ∀ edge ∈ (readSegments artifacts group.segments).1, edge.p < group.pointEnd
    · refine ⟨?_, hall⟩
      by_contra herr
      obtain ⟨err, hfail⟩ := h.reduceSerial_of_unreadable hl ⟨herr, hall⟩
      rw [hfail] at hok
      cases hok
    · obtain ⟨-, err, hfail⟩ := h.reduceSerial_of_stray hl hall
      rw [hfail] at hok
      cases hok
  · intro hclean
    rw [h.reduceSerial_of_clean hl hclean]
    rfl

theorem SegmentGroup.Active.reduceSerial_length (h : group.Active pointStart pointsPerShard)
    (hl : 0 < lMax) (hread : ¬ group.Unreadable artifacts) :
    (group.reduceSerial pointStart lMax pointsPerShard artifacts).emitted.length =
      group.pointEnd - group.start pointStart := by
  by_cases hall : ∀ edge ∈ (readSegments artifacts group.segments).1, edge.p < group.pointEnd
  · have hclean : group.Clean artifacts := by
      refine ⟨?_, hall⟩
      by_contra herr
      exact hread ⟨herr, hall⟩
    rw [h.reduceSerial_of_clean hl hclean]
    exact h.callbacks_length hl _
  · exact (h.reduceSerial_of_stray hl hall).1

theorem SegmentGroup.Active.replay_eq (h : group.Active pointStart pointsPerShard) (hl : 0 < lMax)
    {part : NeighborPart}
    (hpart : group.toPart pointStart lMax pointsPerShard artifacts = .ok part) :
    ∃ edges, group.replay pointStart lMax pointsPerShard artifacts =
      replayPoints ⟨(group.rows pointStart hl edges).flatMap neighborBytes, 0⟩
        (group.start pointStart) (group.rows pointStart hl edges).length := by
  obtain ⟨edges, rfl⟩ := h.toPart_ok hl hpart
  refine ⟨edges, ?_⟩
  rw [SegmentGroup.replay, hpart, SegmentGroup.rows_length]
  rfl

private theorem rest_start (bytes : Bytes) :
    BufReader.rest ⟨bytes, 0⟩ = bytes ++ [] := by
  rw [BufReader.rest, List.drop_zero, List.append_nil]

theorem SegmentGroup.Active.replay_length (h : group.Active pointStart pointsPerShard)
    (hl : 0 < lMax) {part : NeighborPart}
    (hpart : group.toPart pointStart lMax pointsPerShard artifacts = .ok part) :
    ((group.replay pointStart lMax pointsPerShard artifacts).result = .ok () →
        (group.replay pointStart lMax pointsPerShard artifacts).emitted.length =
          group.pointEnd - group.start pointStart) ∧
      ∀ err, (group.replay pointStart lMax pointsPerShard artifacts).result = .error err →
        0 < (group.replay pointStart lMax pointsPerShard artifacts).emitted.length ∧
          (group.replay pointStart lMax pointsPerShard artifacts).emitted.length <
            group.pointEnd - group.start pointStart := by
  obtain ⟨edges, hreplay⟩ := h.replay_eq hl hpart
  have hlt := h.start_lt
  have hne : group.rows pointStart hl edges ≠ [] :=
    List.ne_nil_of_length_pos (by rw [SegmentGroup.rows_length]; omega)
  have hlen := SegmentGroup.rows_length group pointStart hl edges
  obtain ⟨hok, herr⟩ := replayPoints_length
    ⟨(group.rows pointStart hl edges).flatMap neighborBytes, 0⟩ (group.start pointStart)
    (group.rows pointStart hl edges).length
  rw [hreplay]
  refine ⟨fun h => (hok h).trans hlen, fun err h => ⟨?_, ?_⟩⟩
  · exact replayPoints_pos (rest_start _) hne _
  · rw [← hlen]
    exact herr err h

/-- The degrees of the group's points fit what is written of them. -/
def SegmentGroup.DegreesFit (group : SegmentGroup) (pointStart lMax : Nat)
    (artifacts : SpillArtifacts) : Prop :=
  ∀ point, group.start pointStart ≤ point → point < group.pointEnd →
    DegreeFits lMax (readSegments artifacts group.segments).1 point

theorem SegmentGroup.degreesFit_iff (hl : 0 < lMax) :
    (∀ row ∈ group.rows pointStart hl (readSegments artifacts group.segments).1,
        row.length < 2 ^ 32) ↔
      group.DegreesFit pointStart lMax artifacts := by
  constructor
  · intro h point hlow hhigh
    apply (degreeFits_iff hl _ _).mp
    apply h
    refine List.mem_map.mpr ⟨point - group.start pointStart, List.mem_range.mpr (by omega), ?_⟩
    rw [Nat.add_sub_cancel' hlow]
  · intro h row hrow
    obtain ⟨i, hi, rfl⟩ := List.mem_map.mp hrow
    have hlt := List.mem_range.mp hi
    exact (degreeFits_iff hl _ _).mpr (h _ (by omega) (by omega))

/-- A clean group's replay is its serial reduction exactly if the degrees fit. -/
theorem SegmentGroup.Active.replay_of_clean (h : group.Active pointStart pointsPerShard)
    (hl : 0 < lMax) (hclean : group.Clean artifacts) :
    (group.DegreesFit pointStart lMax artifacts →
        group.replay pointStart lMax pointsPerShard artifacts =
          group.reduceSerial pointStart lMax pointsPerShard artifacts) ∧
      ((group.replay pointStart lMax pointsPerShard artifacts).emitted =
          (group.reduceSerial pointStart lMax pointsPerShard artifacts).emitted →
        group.DegreesFit pointStart lMax artifacts) := by
  have hreplay : group.replay pointStart lMax pointsPerShard artifacts =
      replayPoints ⟨(group.rows pointStart hl
        (readSegments artifacts group.segments).1).flatMap neighborBytes, 0⟩
        (group.start pointStart)
        (group.rows pointStart hl (readSegments artifacts group.segments).1).length := by
    rw [SegmentGroup.replay, h.toPart_of_clean hl hclean, SegmentGroup.rows_length]
    rfl
  rw [hreplay, h.reduceSerial_of_clean hl hclean, h.callbacks_eq_numbered hl]
  constructor
  · intro hfit
    exact replayPoints_rows (rest_start _) ((SegmentGroup.degreesFit_iff hl).mpr hfit) _
  · intro heq
    exact (SegmentGroup.degreesFit_iff hl).mp (small_of_replayPoints (rest_start _) heq)

end

/-! ## Agreement -/

/-- The same callbacks in the same order, and the same outcome. -/
def SameReduction (a b : Reduction SpillReduceStats) : Prop :=
  a.emitted = b.emitted ∧ ∀ stats, a.result = .ok stats ↔ b.result = .ok stats

theorem SameReduction.refl (a : Reduction SpillReduceStats) : SameReduction a a :=
  ⟨rfl, fun _ => Iff.rfl⟩

/-- Every active group is clean and its degrees fit. -/
def AllFaithful (pointStart lMax : Nat) (artifacts : SpillArtifacts)
    (active : List SegmentGroup) : Prop :=
  0 < lMax ∧ ∀ group ∈ active,
    group.Clean artifacts ∧ group.DegreesFit pointStart lMax artifacts

/-- Nothing is called back before the first active group fails. -/
def FailsAtOnce (pointStart lMax : Nat) (artifacts : SpillArtifacts)
    (active : List SegmentGroup) : Prop :=
  ∃ first rest, active = first :: rest ∧ first.pointStart ≤ pointStart ∧
    (lMax = 0 ∨ first.Unreadable artifacts)

section

variable {numPoints pointStart lMax pointsPerShard : Nat} {artifacts : SpillArtifacts}
  {active : List SegmentGroup} {stats : SpillReduceStats} {x y : Reduction Unit}

theorem bind_pure_emitted : (x >>= fun _ => pure stats).emitted = x.emitted := by
  rcases result_cases x.result with hok | ⟨err, herr⟩
  · rw [Emission.bind_of_ok hok]
    exact List.append_nil _
  · rw [Emission.bind_of_error herr]

theorem bind_pure_result {other : SpillReduceStats} :
    (x >>= fun _ => pure stats).result = .ok other ↔ x.result = .ok () ∧ stats = other := by
  rcases result_cases x.result with hok | ⟨err, herr⟩
  · rw [Emission.bind_of_ok hok, hok]
    exact ⟨fun h => ⟨rfl, Except.ok.inj h⟩, fun h => congrArg Except.ok h.2⟩
  · rw [Emission.bind_of_error herr, herr]
    exact ⟨fun h => (by cases h), fun h => (by cases h.1)⟩

theorem sameReduction_bind_pure :
    SameReduction (x >>= fun _ => pure stats) (y >>= fun _ => pure stats) ↔
      x.emitted = y.emitted ∧ (x.result = .ok () ↔ y.result = .ok ()) := by
  rw [SameReduction, bind_pure_emitted, bind_pure_emitted]
  simp only [bind_pure_result]
  constructor
  · rintro ⟨hemit, hresult⟩
    exact ⟨hemit, by simpa using hresult stats⟩
  · rintro ⟨hemit, hresult⟩
    exact ⟨hemit, fun other => by rw [hresult]⟩

theorem sameReduction_fail_iff {err : AnnError} :
    SameReduction (.fail err) (y >>= fun _ => pure stats) ↔
      y.emitted = [] ∧ y.result ≠ .ok () := by
  rw [SameReduction, bind_pure_emitted]
  simp only [bind_pure_result]
  constructor
  · rintro ⟨hemit, hresult⟩
    refine ⟨hemit.symm, fun hok => ?_⟩
    cases (hresult stats).mpr ⟨hok, rfl⟩
  · rintro ⟨hemit, hresult⟩
    refine ⟨hemit.symm, fun other => ⟨fun h => (by cases h), fun h => absurd h.1 hresult⟩⟩

/-- When the serial walk fails with nothing called back. -/
theorem walk_silent_iff (hactive : ∀ group ∈ active, group.Active pointStart pointsPerShard)
    (hne : active ≠ []) :
    ((walk numPoints (SegmentGroup.start pointStart)
        (SegmentGroup.reduceSerial pointStart lMax pointsPerShard artifacts) pointStart
        active).emitted = [] ∧
      (walk numPoints (SegmentGroup.start pointStart)
        (SegmentGroup.reduceSerial pointStart lMax pointsPerShard artifacts) pointStart
        active).result ≠ .ok ()) ↔
      FailsAtOnce pointStart lMax artifacts active := by
  cases active with
  | nil => exact absurd rfl hne
  | cons first rest =>
      have hfirst := hactive first List.mem_cons_self
      have hgap : emptyCallbacks pointStart (first.start pointStart) = [] ↔
          first.pointStart ≤ pointStart := by
        rw [← List.length_eq_zero_iff, emptyCallbacks_length, SegmentGroup.start]
        omega
      have hfails : FailsAtOnce pointStart lMax artifacts (first :: rest) ↔
          first.pointStart ≤ pointStart ∧ (lMax = 0 ∨ first.Unreadable artifacts) := by
        constructor
        · rintro ⟨_, _, heq, hcond⟩
          cases heq
          exact hcond
        · exact fun hcond => ⟨first, rest, rfl, hcond⟩
      rw [hfails, ← hgap]
      rcases Nat.eq_zero_or_pos lMax with rfl | hl
      · have hpanic : first.reduceSerial pointStart 0 pointsPerShard artifacts =
            .fail (.panic "l_max must be > 0") := by
          rw [SegmentGroup.reduceSerial, reduceSegmentGroupInRange,
            if_neg (Nat.not_le.mpr hfirst.start_lt)]
          rfl
        rw [walk_cons_of_error (congrArg Emission.result hpanic), hpanic]
        simp [Emission.fail]
      · by_cases hread : first.Unreadable artifacts
        · obtain ⟨err, hfail⟩ := hfirst.reduceSerial_of_unreadable hl hread
          rw [walk_cons_of_error (congrArg Emission.result hfail), hfail]
          simp [Emission.fail, hread]
        · have hlen := hfirst.reduceSerial_length hl hread
          have hlt := hfirst.start_lt
          have hsome : (walk numPoints (SegmentGroup.start pointStart)
              (SegmentGroup.reduceSerial pointStart lMax pointsPerShard artifacts) pointStart
              (first :: rest)).emitted ≠ [] := by
            apply List.ne_nil_of_length_pos
            rcases result_cases
              (first.reduceSerial pointStart lMax pointsPerShard artifacts).result with
              hok | ⟨err, herr⟩
            · rw [walk_cons_of_ok hok]
              simp only [List.length_append]
              omega
            · rw [walk_cons_of_error herr]
              simp only [List.length_append]
              omega
          have hpos : lMax ≠ 0 := Nat.ne_of_gt hl
          simp [hsome, hread, hpos]

theorem walk_congr {start : SegmentGroup → Nat} {f g : SegmentGroup → Reduction Unit}
    {groups : List SegmentGroup} (h : ∀ group ∈ groups, f group = g group) (next : Nat) :
    walk numPoints start f next groups = walk numPoints start g next groups := by
  induction groups generalizing next with
  | nil => rfl
  | cons group groups ih =>
      rw [walk, walk, h group List.mem_cons_self,
        ih fun g hg => h g (List.mem_cons_of_mem _ hg)]

/-- With all parts written, the walks agree exactly if every group is clean and its degrees fit. -/
theorem walks_agree_iff (hl : 0 < lMax)
    (hactive : ∀ group ∈ active, group.Active pointStart pointsPerShard)
    (hchain : Chained (SegmentGroup.start pointStart) pointStart active)
    (hparts : ∀ group ∈ active,
      ∃ part, group.toPart pointStart lMax pointsPerShard artifacts = .ok part) :
    ((walk numPoints (SegmentGroup.start pointStart)
        (SegmentGroup.replay pointStart lMax pointsPerShard artifacts) pointStart active).emitted =
        (walk numPoints (SegmentGroup.start pointStart)
          (SegmentGroup.reduceSerial pointStart lMax pointsPerShard artifacts) pointStart
          active).emitted ∧
      ((walk numPoints (SegmentGroup.start pointStart)
        (SegmentGroup.replay pointStart lMax pointsPerShard artifacts) pointStart
          active).result = .ok () ↔
        (walk numPoints (SegmentGroup.start pointStart)
          (SegmentGroup.reduceSerial pointStart lMax pointsPerShard artifacts) pointStart
          active).result = .ok ())) ↔
      AllFaithful pointStart lMax artifacts active := by
  have hlen : ∀ group ∈ active,
      ((group.replay pointStart lMax pointsPerShard artifacts).result = .ok () →
        (group.replay pointStart lMax pointsPerShard artifacts).emitted.length =
          group.pointEnd - group.start pointStart) ∧
      ∀ err, (group.replay pointStart lMax pointsPerShard artifacts).result = .error err →
        0 < (group.replay pointStart lMax pointsPerShard artifacts).emitted.length ∧
          (group.replay pointStart lMax pointsPerShard artifacts).emitted.length <
            group.pointEnd - group.start pointStart := by
    intro group hgroup
    obtain ⟨part, hpart⟩ := hparts group hgroup
    exact (hactive group hgroup).replay_length hl hpart
  have hread : ∀ group ∈ active, ¬ group.Unreadable artifacts := by
    intro group hgroup hbad
    obtain ⟨part, hpart⟩ := hparts group hgroup
    obtain ⟨err, herr⟩ := (hactive group hgroup).toPart_of_unreadable hl hbad
    rw [hpart] at herr
    cases herr
  have hserialLen : ∀ group ∈ active,
      (group.reduceSerial pointStart lMax pointsPerShard artifacts).emitted.length =
        group.pointEnd - group.start pointStart :=
    fun group hgroup => (hactive group hgroup).reduceSerial_length hl (hread group hgroup)
  constructor
  · rintro ⟨hemit, hresult⟩
    -- a serial failure comes behind all callbacks of a group, a failing replay in their midst
    have hserial : (walk numPoints (SegmentGroup.start pointStart)
        (SegmentGroup.reduceSerial pointStart lMax pointsPerShard artifacts) pointStart
        active).result = .ok () := by
      by_contra hbad
      obtain ⟨err, herr⟩ := (result_cases _).resolve_left hbad
      obtain ⟨err', herr'⟩ := (result_cases _).resolve_left (mt hresult.mp hbad)
      obtain ⟨last, hlast, hend⟩ := hchain.fails_at_end hserialLen herr
      obtain ⟨other, hother, hinside⟩ := hchain.fails_inside (fun g hg => (hlen g hg).1)
        (fun g hg => (hlen g hg).2) herr'
      rw [hemit, hend] at hinside
      exact hchain.not_inside hlast hother hinside
    have hok := walk_ok_iff.mp hserial
    have hreplay := walk_ok_iff.mp (hresult.mpr hserial)
    have hgroups := (walk_emitted_eq_iff hreplay hok fun group hgroup =>
      ((hlen group hgroup).1 (hreplay group hgroup)).trans (hserialLen group hgroup).symm).mp hemit
    refine ⟨hl, fun group hgroup => ?_⟩
    have hclean := ((hactive group hgroup).reduceSerial_ok_iff hl).mp (hok group hgroup)
    exact ⟨hclean, ((hactive group hgroup).replay_of_clean hl hclean).2 (hgroups group hgroup)⟩
  · rintro ⟨-, hall⟩
    have hsame : ∀ group ∈ active, group.replay pointStart lMax pointsPerShard artifacts =
        group.reduceSerial pointStart lMax pointsPerShard artifacts := by
      intro group hgroup
      obtain ⟨hclean, hfit⟩ := hall group hgroup
      exact ((hactive group hgroup).replay_of_clean hl hclean).1 hfit
    rw [walk_congr hsame]
    exact ⟨rfl, Iff.rfl⟩

end

/-- Planning fails, or one group at most is reduced, or all groups are faithful, or the first one
fails at once. -/
def ReducersAgree (numPoints pointStart lMax pointsPerShard : Nat) (sort : SegmentSort)
    (artifacts : SpillArtifacts) (maxParallelGroups : Nat) : Prop :=
  numPoints ≤ pointStart ∨
    ∀ groups, groupSegmentsByShard numPoints pointsPerShard sort artifacts = .ok groups →
      ((activeGroups pointStart groups).length ≤ 1 ∨ maxParallelGroups ≤ 1) ∨
        AllFaithful pointStart lMax artifacts (activeGroups pointStart groups) ∨
        FailsAtOnce pointStart lMax artifacts (activeGroups pointStart groups)

theorem parallel_refines_serial_iff (numPoints pointStart lMax pointsPerShard : Nat)
    (sort : SegmentSort) (partSort : PartSort) (artifacts : SpillArtifacts)
    (maxParallelGroups : Nat) :
    SameReduction
        (reduceSegmentsShardedInOrderFromParallel numPoints pointStart lMax pointsPerShard sort
          partSort artifacts maxParallelGroups)
        (reduceSegmentsShardedInOrderFromWithLimit numPoints pointStart lMax pointsPerShard sort
          artifacts) ↔
      ReducersAgree numPoints pointStart lMax pointsPerShard sort artifacts maxParallelGroups := by
  by_cases hstart : numPoints ≤ pointStart
  · rw [reduceSegmentsShardedInOrderFromParallel, reduceSegmentsShardedInOrderFromWithLimit,
      if_pos (.inr hstart), if_pos (.inr hstart)]
    exact iff_of_true (.refl _) (.inl hstart)
  have hlt : pointStart < numPoints := Nat.not_le.mp hstart
  rw [ReducersAgree, or_iff_right hstart]
  cases hgroups : groupSegmentsByShard numPoints pointsPerShard sort artifacts with
  | error err =>
      rw [reduceSegmentsShardedInOrderFromParallel, reduceSegmentsShardedInOrderFromWithLimit,
        if_neg (by omega), if_neg (by omega), hgroups]
      exact iff_of_true (.refl _) fun _ h => by cases h
  | ok groups =>
      have hcond : ∀ P : List SegmentGroup → Prop,
          (∀ gs, (Except.ok groups : AnnResult (List SegmentGroup)) = .ok gs → P gs) ↔ P groups :=
        fun P => ⟨fun h => h groups rfl, fun h gs hgs => Except.ok.inj hgs ▸ h⟩
      rw [hcond fun groups => ((activeGroups pointStart groups).length ≤ 1 ∨ maxParallelGroups ≤ 1) ∨
        AllFaithful pointStart lMax artifacts (activeGroups pointStart groups) ∨
        FailsAtOnce pointStart lMax artifacts (activeGroups pointStart groups)]
      by_cases hfew : (activeGroups pointStart groups).length ≤ 1 ∨ maxParallelGroups ≤ 1
      · rw [reduceParallel_of_few lMax maxParallelGroups partSort hlt hgroups hfew]
        exact iff_of_true (.refl _) (.inl hfew)
      have hne : activeGroups pointStart groups ≠ [] := by
        intro hnil
        rw [hnil] at hfew
        exact hfew (.inl (Nat.zero_le 1))
      have hactive : ∀ group ∈ activeGroups pointStart groups,
          group.Active pointStart pointsPerShard := fun _ hmem => active_of_mem hgroups hmem
      rw [or_iff_right hfew, reduceParallel_eq lMax maxParallelGroups partSort hlt hgroups hfew,
        reduceSerial_eq_walk lMax hlt hgroups]
      cases hparts : (activeGroups pointStart groups).mapM
          (SegmentGroup.toPart pointStart lMax pointsPerShard artifacts) with
      | error err =>
          have hnot : ¬ AllFaithful pointStart lMax artifacts (activeGroups pointStart groups) := by
            rintro ⟨hl, hall⟩
            obtain ⟨group, hgroup, herr⟩ := exists_of_mapM_error hparts
            rw [(hactive group hgroup).toPart_of_clean hl (hall group hgroup).1] at herr
            cases herr
          rw [or_iff_right hnot]
          exact sameReduction_fail_iff.trans (walk_silent_iff hactive hne)
      | ok parts =>
          have hall : ∀ group ∈ activeGroups pointStart groups,
              ∃ part, group.toPart pointStart lMax pointsPerShard artifacts = .ok part := by
            intro group hgroup
            cases hpart : group.toPart pointStart lMax pointsPerShard artifacts with
            | ok part => exact ⟨part, rfl⟩
            | error err =>
                obtain ⟨err', herr'⟩ := mapM_error_of_mem hgroup hpart
                rw [hparts] at herr'
                cases herr'
          have hl : 0 < lMax := by
            by_contra hzero
            obtain ⟨group, hgroup⟩ := List.exists_mem_of_ne_nil _ hne
            obtain ⟨part, hpart⟩ := hall group hgroup
            rw [SegmentGroup.toPart, reduceSegmentGroupToNeighborPart,
              if_neg (Nat.not_le.mpr (hactive group hgroup).start_lt), dif_neg hzero] at hpart
            cases hpart
          have hnot : ¬ FailsAtOnce pointStart lMax artifacts (activeGroups pointStart groups) := by
            rintro ⟨first, rest, heq, -, hzero | hbad⟩
            · omega
            · have hfirst : first ∈ activeGroups pointStart groups := by
                rw [heq]
                exact List.mem_cons_self
              obtain ⟨part, hpart⟩ := hall first hfirst
              obtain ⟨err, herr⟩ := (hactive first hfirst).toPart_of_unreadable hl hbad
              rw [hpart] at herr
              cases herr
          rw [or_iff_left hnot]
          exact sameReduction_bind_pure.trans
            (walks_agree_iff hl hactive (chained_active hgroups) hall)

/-! ## A stray record -/

def strayEdge : PendingEdge := ⟨1, 5, 1, ⟨0⟩, false, 1, PENDING_EDGE_DIRECT⟩

def straySegments : List SpillSegmentDesc :=
  [⟨0, 0, 0, 16, 1, 0, 0, true⟩, ⟨1, 0, 0, 16, 1, 1, 1, true⟩]

/-- Two shards of one point each. The part of the first one holds an edge of the second. -/
def strayArtifacts : SpillArtifacts where
  partFiles := [⟨0, 0, ⟨0, 0⟩, 16⟩, ⟨1, 0, ⟨1, 0⟩, 16⟩]
  segmentManifest := straySegments
  files _ := some strayEdge.record.toBytes

def strayGroups : List SegmentGroup :=
  [⟨0, 1, Nat.one_pos, [⟨0, 0, 0, 16, 1, 0, 0, true⟩]⟩,
    ⟨1, 2, Nat.one_lt_two, [⟨1, 0, 0, 16, 1, 1, 1, true⟩]⟩]

theorem strayArtifacts_groups :
    groupSegmentsByShard 2 1 (.byKey SpillSegmentDesc.sortKey) strayArtifacts = .ok strayGroups := by
  have hids : sortDedup (straySegments.map fun segment => segment.shardId.toNat) = [0, 1] :=
    sortDedup_eq_self (by decide)
  rw [groupSegmentsByShard]
  simp only [strayArtifacts, hids]
  rfl

theorem strayReader_edges :
    (SegmentReader.new strayEdge.record.toBytes 0 RUN_RECORD_BYTES).edges = ([strayEdge], none) := by
  have hholds : Bytes.Holds strayEdge.record.toBytes 0
      ([strayEdge].flatMap fun edge => edge.record.toBytes) := by
    simpa using Bytes.Holds.of_append [] strayEdge.record.toBytes []
  exact SegmentReader.edges_of_holds (by decide) hholds

theorem strayGroups_read {group : SegmentGroup} (h : group ∈ strayGroups) :
    group.Active 0 1 ∧ ∃ segment, group.segments = [segment] ∧
      openSegment strayArtifacts segment =
        .ok (.new strayEdge.record.toBytes 0 RUN_RECORD_BYTES) := by
  rcases List.mem_cons.mp h with rfl | h
  · exact ⟨⟨by decide, by decide⟩, _, rfl, rfl⟩
  · rcases List.mem_singleton.mp h with rfl
    exact ⟨⟨by decide, by decide⟩, _, rfl, rfl⟩

/-- The serial reducer stops at the stray edge, which the parallel one passes over. -/
theorem strayArtifacts_differ :
    ¬ SameReduction
      (reduceSegmentsShardedInOrderFromParallel 2 0 1 1 (.byKey SpillSegmentDesc.sortKey)
        (.byKey NeighborPart.pointStart) strayArtifacts 2)
      (reduceSegmentsShardedInOrderFromWithLimit 2 0 1 1 (.byKey SpillSegmentDesc.sortKey)
        strayArtifacts) := by
  have hactive : activeGroups 0 strayGroups = strayGroups := rfl
  have hparts : ∀ group ∈ strayGroups, ∃ part, group.toPart 0 1 1 strayArtifacts = .ok part := by
    intro group hgroup
    obtain ⟨hactive, segment, hsegments, hopen⟩ := strayGroups_read hgroup
    rw [hactive.toPart_eq Nat.one_pos, hsegments]
    simp only [GroupRange.insideEdges, hopen, ok_bind, strayReader_edges]
    cases List.find? _ [strayEdge] with
    | none => exact ⟨_, rfl⟩
    | some edge => exact ⟨_, rfl⟩
  rw [reduceParallel_eq 1 2 _ (by decide) strayArtifacts_groups (by rw [hactive]; decide),
    reduceSerial_eq_walk 1 (by decide) strayArtifacts_groups, hactive]
  cases hmap : strayGroups.mapM (SegmentGroup.toPart 0 1 1 strayArtifacts) with
  | error err =>
      obtain ⟨group, hgroup, herr⟩ := exists_of_mapM_error hmap
      obtain ⟨part, hpart⟩ := hparts group hgroup
      rw [hpart] at herr
      cases herr
  | ok parts =>
      intro hsame
      have hwalks := (walks_agree_iff Nat.one_pos (fun group hgroup => (strayGroups_read hgroup).1)
        (hactive ▸ chained_active strayArtifacts_groups) hparts).mp (sameReduction_bind_pure.mp hsame)
      obtain ⟨⟨-, hclean⟩, -⟩ := hwalks.2 _ List.mem_cons_self
      have hread : (readSegments strayArtifacts [⟨0, 0, 0, 16, 1, 0, 0, true⟩]).1 = [strayEdge] := by
        have hopen : openSegment strayArtifacts ⟨0, 0, 0, 16, 1, 0, 0, true⟩ =
            .ok (.new strayEdge.record.toBytes 0 RUN_RECORD_BYTES) := rfl
        simp only [readSegments, hopen, strayReader_edges, List.append_nil]
      have hstray : strayEdge.p < 1 := hclean strayEdge (hread ▸ List.mem_cons_self)
      exact absurd hstray (by decide)

end ForgeANN
