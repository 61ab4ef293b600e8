-- SUMMARY: Partitioning through spooled records and run files builds the children of the in-memory partition.
import ForgeANN.Lib.SortDedup
import ForgeANN.Rbc.Materialize

/-!
# External and in-memory partition

Both paths start from one assignment of leaders to points. In memory the points
are gathered into a cluster per leader and the clusters merged; externally the
assignment goes through a spool of records, a merge plan and the run store.
-/
namespace ForgeANN

open Lib

/-! ## The in-memory path -/

def assignPoint (clusters : List (List UInt32)) (point : UInt32) (leaders : List UInt16) :
    List (List UInt32) :=
  leaders.foldl (fun clusters leader => clusters.modify leader.toNat (· ++ [point])) clusters

def buildClusters (numLeaders : Nat) (cur : List UInt32) (assignment : List (List UInt16)) :
    List (List UInt32) :=
  (cur.zip assignment).foldl (fun clusters p => assignPoint clusters p.1 p.2)
    (List.replicate numLeaders [])

def inMemoryChildren (cur : List UInt32) (numLeaders cMin cMax : Nat)
    (assignment : List (List UInt16)) : List (List UInt32) :=
  (mergeClusters (buildClusters numLeaders cur assignment) cMin cMax).map sortDedup

/-! ## The external path -/

def countLeaders (rawCounts : List Nat) (leaders : List UInt16) : List Nat :=
  leaders.foldl (fun counts leader => counts.modify leader.toNat (· + 1)) rawCounts

def rawCounts (numLeaders : Nat) (assignment : List (List UInt16)) : List Nat :=
  assignment.foldl countLeaders (List.replicate numLeaders 0)

/-- Record after record, written by `write`. -/
def writeRecords (write : Bytes → List UInt16 → Nat → AnnResult Bytes) (fanout : Nat)
    (assignment : List (List UInt16)) : AnnResult Bytes :=
  assignment.foldlM (fun buf leaders => write buf leaders fanout) []

/-- Plan from the raw counts, materialise from the records, and read the children back. -/
def externalChildren {σ : Type} [AssignmentRecordSource σ] (cur : List UInt32)
    (depth fanout numLeaders cMin cMax : Nat) (assignment : List (List UInt16)) (source : σ)
    (store : ExternalRunStore) (inlineLimit : Option Nat) : AnnResult (List (List UInt32)) := do
  let mergeGroups := mergeClusterPlan (rawCounts numLeaders assignment) cMin cMax
  let (children, store) ← materializeMergedChildrenFromAssignmentRecords cur depth fanout
    mergeGroups source store inlineLimit
  let children ← children.mapM (readMaterialized store depth)
  .ok (children.map sortDedup)

/-! ## Clusters and counts -/

section

variable {clusters : List (List UInt32)} {leaders : List UInt16} {assignment : List (List UInt16)}
  {cur : List UInt32} {numLeaders : Nat}

@[simp] theorem assignPoint_length (point : UInt32) :
    (assignPoint clusters point leaders).length = clusters.length := by
  induction leaders generalizing clusters with
  | nil => rfl
  | cons leader leaders ih =>
      rw [assignPoint, List.foldl_cons, ← assignPoint, ih, List.length_modify]

theorem assignPoint_map_length (point : UInt32) :
    (assignPoint clusters point leaders).map List.length =
      countLeaders (clusters.map List.length) leaders := by
  induction leaders generalizing clusters with
  | nil => rfl
  | cons leader leaders ih =>
      rw [assignPoint, List.foldl_cons, ← assignPoint, ih, countLeaders, countLeaders,
        List.foldl_cons]
      congr 1
      refine List.ext_getElem? fun i => ?_
      simp only [List.getElem?_map, List.getElem?_modify]
      cases clusters[i]? <;> by_cases h : leader.toNat = i <;> simp [h]

/-- The raw counts are the sizes of the clusters. -/
theorem buildClusters_map_length (hlen : assignment.length = cur.length) :
    (buildClusters numLeaders cur assignment).map List.length = rawCounts numLeaders assignment := by
  have hfold : ∀ (points : List (UInt32 × List UInt16)) (clusters : List (List UInt32)),
      (points.foldl (fun clusters p => assignPoint clusters p.1 p.2) clusters).map List.length =
        (points.map Prod.snd).foldl countLeaders (clusters.map List.length) := by
    intro points
    induction points with
    | nil => exact fun _ => rfl
    | cons p points ih =>
        intro clusters
        rw [List.foldl_cons, ih, assignPoint_map_length, List.map_cons, List.foldl_cons]
  rw [buildClusters, hfold, List.map_replicate, List.length_nil, rawCounts,
    List.map_snd_zip (by omega)]

theorem buildClusters_length : (buildClusters numLeaders cur assignment).length = numLeaders := by
  have hfold : ∀ (points : List (UInt32 × List UInt16)) (clusters : List (List UInt32)),
      (points.foldl (fun clusters p => assignPoint clusters p.1 p.2) clusters).length =
        clusters.length := by
    intro points
    induction points with
    | nil => exact fun _ => rfl
    | cons p points ih => exact fun clusters => (ih _).trans (assignPoint_length p.1)
  rw [buildClusters, hfold, List.length_replicate]

theorem mem_rawPoints_assignPoint {c : UInt16} (hc : c.toNat < clusters.length) {x point : UInt32} :
    x ∈ rawPoints (assignPoint clusters point leaders) c ↔
      x ∈ rawPoints clusters c ∨ c ∈ leaders ∧ x = point := by
  induction leaders generalizing clusters with
  | nil => simp [assignPoint]
  | cons leader leaders ih =>
      rw [assignPoint, List.foldl_cons, ← assignPoint, ih (by rwa [List.length_modify])]
      have hmodify : x ∈ rawPoints (clusters.modify leader.toNat (· ++ [point])) c ↔
          x ∈ rawPoints clusters c ∨ c = leader ∧ x = point := by
        simp only [rawPoints, List.getD_eq_getElem?_getD, List.getElem?_modify,
          List.getElem?_eq_getElem hc, Option.getD_some]
        by_cases h : leader = c
        · subst h; simp
        · have hne : leader.toNat ≠ c.toNat := fun h' => h (UInt16.toNat_inj.mp h')
          simp [hne, Ne.symm h]
      rw [hmodify, List.mem_cons]
      grind

/-- A leader's cluster holds the points assigned to it. -/
theorem mem_buildClusters {c : UInt16} (hc : c.toNat < numLeaders) {x : UInt32} :
    x ∈ rawPoints (buildClusters numLeaders cur assignment) c ↔
      ∃ leaders, (x, leaders) ∈ cur.zip assignment ∧ c ∈ leaders := by
  have hfold : ∀ (points : List (UInt32 × List UInt16)) (clusters : List (List UInt32)),
      c.toNat < clusters.length →
      (x ∈ rawPoints (points.foldl (fun clusters p => assignPoint clusters p.1 p.2) clusters) c ↔
        x ∈ rawPoints clusters c ∨ ∃ leaders, (x, leaders) ∈ points ∧ c ∈ leaders) := by
    intro points
    induction points with
    | nil => simp
    | cons p points ih =>
        intro clusters hlt
        rw [List.foldl_cons, ih _ (by rwa [assignPoint_length]), mem_rawPoints_assignPoint hlt]
        obtain ⟨point, leaders⟩ := p
        simp only [List.mem_cons, Prod.mk.injEq]
        grind
  rw [buildClusters, hfold _ _ (by rwa [List.length_replicate])]
  simp [rawPoints, List.getD_eq_getElem?_getD, hc]

theorem writeRecords_ok {fanout : Nat}
    (h : ∀ leaders ∈ assignment, leaders.length ≤ assignRecordFanout fanout) :
    writeRecords appendAssignRecordBytes fanout assignment =
      .ok (assignment.flatMap (recordBytes (assignRecordFanout fanout))) := by
  have hfold : ∀ (assignment : List (List UInt16)) (buf : Bytes),
      (∀ leaders ∈ assignment, leaders.length ≤ assignRecordFanout fanout) →
      assignment.foldlM (fun buf leaders => appendAssignRecordBytes buf leaders fanout) buf =
        .ok (buf ++ assignment.flatMap (recordBytes (assignRecordFanout fanout))) := by
    intro assignment
    induction assignment with
    | nil => exact fun buf _ => by simp [pure, Except.pure]
    | cons leaders assignment ih =>
        intro buf h
        have happend : appendAssignRecordBytes buf leaders fanout =
            .ok (buf ++ recordBytes (assignRecordFanout fanout) leaders) := by
          simp only [appendAssignRecordBytes]
          rw [if_neg (Nat.not_lt.mpr (h leaders List.mem_cons_self))]
        rw [List.foldlM_cons, happend]
        refine (ih _ fun l hl => h l (List.mem_cons_of_mem _ hl)).trans ?_
        rw [List.flatMap_cons, List.append_assoc]
  exact hfold assignment [] h

/-! ## The two paths agree -/

variable {cMin cMax : Nat}

/-- The merge plan made from the assignment's raw counts. -/
abbrev planOf (numLeaders cMin cMax : Nat) (assignment : List (List UInt16)) : List MergedRawGroup :=
  mergeClusterPlan (rawCounts numLeaders assignment) cMin cMax

theorem rawCounts_length : (rawCounts numLeaders assignment).length = numLeaders := by
  have hfold : ∀ (assignment : List (List UInt16)) (counts : List Nat),
      (assignment.foldl countLeaders counts).length = counts.length := by
    intro assignment
    induction assignment with
    | nil => exact fun _ => rfl
    | cons leaders assignment ih =>
        refine fun counts => (ih _).trans ?_
        induction leaders generalizing counts with
        | nil => rfl
        | cons leader leaders ih =>
            rw [countLeaders, List.foldl_cons, ← countLeaders, ih, List.length_modify]
  rw [rawCounts, hfold, List.length_replicate]

/-- Every leader a point has been assigned to is in one of the planned groups. -/
theorem exists_planned_group
    (hlen : assignment.length = cur.length) (hmem : leaders ∈ assignment) {c : UInt16}
    (hc : c ∈ leaders) (hlt : c.toNat < numLeaders) :
    ∃ group ∈ planOf numLeaders cMin cMax assignment, c ∈ group.rawChildren := by
  obtain ⟨i, hi, hget⟩ := List.mem_iff_getElem.mp hmem
  have hpoint : (cur[i], leaders) ∈ cur.zip assignment := by
    have hi' : i < (cur.zip assignment).length := by rw [List.length_zip]; omega
    rw [← hget, ← List.getElem_zip (h := hi')]
    exact List.getElem_mem _
  have hin := (mem_buildClusters hlt).mpr ⟨leaders, hpoint, hc⟩
  have hi' : c.toNat < (buildClusters numLeaders cur assignment).length := by
    rwa [buildClusters_length]
  rw [rawPoints, List.getD_eq_getElem?_getD, List.getElem?_eq_getElem hi', Option.getD_some] at hin
  have hraw : (c, (buildClusters numLeaders cur assignment)[c.toNat].length) ∈
      nonemptyRaw (rawCounts numLeaders assignment) := by
    rw [mem_nonemptyRaw, ← buildClusters_map_length hlen]
    exact ⟨c.toNat, by simp [hi'], List.length_pos_of_mem hin, (UInt16.ofNat_toNat).symm⟩
  have hchild := (mergeClusterPlan_children (rawCounts numLeaders assignment) cMin cMax).mem_iff.mpr
    (List.mem_map_of_mem hraw)
  exact List.mem_flatMap.mp hchild

variable (hleaders : numLeaders ≤ 65536) (hlen : assignment.length = cur.length)
  (hbound : ∀ leaders ∈ assignment, ∀ c ∈ leaders, c.toNat < numLeaders)

include hleaders in
theorem plan_children_nodup :
    ((planOf numLeaders cMin cMax assignment).flatMap MergedRawGroup.rawChildren).Nodup :=
  (mergeClusterPlan_children _ cMin cMax).nodup_iff.mpr
    (nonemptyRaw_nodup (by rw [rawCounts_length]; omega))

include hleaders in
theorem toNat_planIndex {j : Nat} (hj : j < (planOf numLeaders cMin cMax assignment).length) :
    (UInt16.ofNat j).toNat = j := by
  have hle : (planOf numLeaders cMin cMax assignment).length ≤ _ :=
    mergeClusterPlan_length_le (rawCounts numLeaders assignment) cMin cMax
  rw [rawCounts_length] at hle
  exact UInt16.toNat_ofNat_of_lt (by rw [UInt16.size]; omega)

include hleaders in
theorem planned_child_lt {group : MergedRawGroup}
    (hgroup : group ∈ planOf numLeaders cMin cMax assignment) {c : UInt16}
    (hc : c ∈ group.rawChildren) : c.toNat < numLeaders := by
  have hmem := (mergeClusterPlan_children (rawCounts numLeaders assignment) cMin cMax).mem_iff.mp
    (List.mem_flatMap.mpr ⟨group, hgroup, hc⟩)
  obtain ⟨raw, hraw, rfl⟩ := List.mem_map.mp hmem
  obtain ⟨i, hi, -, hraw⟩ := mem_nonemptyRaw.mp hraw
  have hlt := (List.getElem?_eq_some_iff.mp hi).1
  rw [rawCounts_length] at hlt
  have hi : (UInt16.ofNat i).toNat = i := UInt16.toNat_ofNat_of_lt (by rw [UInt16.size]; omega)
  rwa [hraw, hi]

include hleaders hlen hbound

/-- The groups of an assigned leader, by index. -/
theorem rawToMerged_planned (hmem : leaders ∈ assignment) {c : UInt16} (hc : c ∈ leaders) :
    ∃ j group, (planOf numLeaders cMin cMax assignment)[j]? = some group ∧ c ∈ group.rawChildren ∧
      (rawToMerged (planOf numLeaders cMin cMax assignment))[c.toNat]? = some (UInt16.ofNat j) := by
  obtain ⟨group, hgroup, hchild⟩ := exists_planned_group hlen hmem hc (hbound _ hmem c hc)
  obtain ⟨j, hj⟩ := List.mem_iff_getElem?.mp hgroup
  exact ⟨j, group, hj, hchild, rawToMerged_getElem? (plan_children_nodup hleaders) hj hchild⟩

theorem plan_mapped :
    Mapped (rawToMerged (planOf numLeaders cMin cMax assignment))
      (planOf numLeaders cMin cMax assignment).length assignment where
  covered leaders hmem c hc := by
    obtain ⟨j, -, -, -, hmap⟩ := rawToMerged_planned hleaders hlen hbound hmem hc
    exact ⟨_, hmap⟩
  bounded leaders hmem c hc m hm := by
    obtain ⟨j, group, hj, -, hmap⟩ := rawToMerged_planned hleaders hlen hbound hmem hc
    have hlt := (List.getElem?_eq_some_iff.mp hj).1
    rw [hm] at hmap
    cases hmap
    rwa [toNat_planIndex hleaders hlt]

/-- What child `j` was pushed, as a set: the points of the group. -/
theorem mem_pushed_iff {j : Nat} {group : MergedRawGroup}
    (hj : (planOf numLeaders cMin cMax assignment)[j]? = some group) {x : UInt32} :
    x ∈ (cur.zip (assignment.map
        (pointMerged (rawToMerged (planOf numLeaders cMin cMax assignment))))).flatMap (pushed j) ↔
      x ∈ groupPoints (buildClusters numLeaders cur assignment) group := by
  set map := rawToMerged (planOf numLeaders cMin cMax assignment) with hmapdef
  have hmapped : Mapped map _ assignment := plan_mapped hleaders hlen hbound
  have hgroup := List.mem_of_getElem? hj
  -- a point is pushed once its leaders reach the group
  have hpushed : ∀ p ∈ cur.zip assignment,
      (x ∈ pushed j (p.1, pointMerged map p.2) ↔
        x = p.1 ∧ ∃ c ∈ p.2, c ∈ group.rawChildren) := by
    rintro ⟨point, leaders⟩ hp
    have hleaders' := (List.of_mem_zip hp).2
    have hreach : j ∈ (pointMerged map leaders).map UInt16.toNat ↔
        ∃ c ∈ leaders, c ∈ group.rawChildren := by
      rw [List.mem_map]
      constructor
      · rintro ⟨m, hm, hmj⟩
        obtain ⟨c, hc, hcm⟩ := (mem_pointMerged (hmapped.covered leaders hleaders')).mp hm
        obtain ⟨k, group', hk, hchild, hmap⟩ := rawToMerged_planned hleaders hlen hbound hleaders' hc
        rw [← hmapdef, hcm, Option.some.injEq] at hmap
        have hkj : k = j := by
          rw [← hmj, hmap, toNat_planIndex hleaders (List.getElem?_eq_some_iff.mp hk).1]
        rw [hkj, hj, Option.some.injEq] at hk
        exact ⟨c, hc, hk ▸ hchild⟩
      · rintro ⟨c, hc, hchild⟩
        refine ⟨UInt16.ofNat j, (mem_pointMerged (hmapped.covered leaders hleaders')).mpr
          ⟨c, hc, rawToMerged_getElem? (plan_children_nodup hleaders) hj hchild⟩, ?_⟩
        exact toNat_planIndex hleaders (List.getElem?_eq_some_iff.mp hj).1
    rw [pushed, List.mem_replicate, ← hreach, ← List.count_pos_iff, Nat.pos_iff_ne_zero]
    exact and_comm
  rw [List.zip_map_right, List.flatMap_map, List.mem_flatMap, groupPoints, List.mem_flatMap]
  constructor
  · rintro ⟨⟨point, leaders⟩, hp, hx⟩
    obtain ⟨rfl, c, hc, hchild⟩ := (hpushed _ hp).mp hx
    exact ⟨c, hchild, (mem_buildClusters (planned_child_lt hleaders hgroup hchild)).mpr
      ⟨leaders, hp, hc⟩⟩
  · rintro ⟨c, hchild, hx⟩
    obtain ⟨leaders, hp, hc⟩ :=
      (mem_buildClusters (planned_child_lt hleaders hgroup hchild)).mp hx
    exact ⟨(x, leaders), hp, (hpushed _ hp).mpr ⟨rfl, c, hc, hchild⟩⟩

/-- From any source that delivers the assignment, the external path builds the children the
in-memory path builds. -/
theorem externalChildren_eq {σ : Type} [AssignmentRecordSource σ] {fanout : Nat} {source : σ}
    (hsource : Delivers (assignRecordFanout fanout) source assignment) (depth : Nat)
    (store : ExternalRunStore) (inlineLimit : Option Nat) :
    externalChildren cur depth fanout numLeaders cMin cMax assignment source store inlineLimit =
      .ok (inMemoryChildren cur numLeaders cMin cMax assignment) := by
  have hmapped : Mapped (rawToMerged (planOf numLeaders cMin cMax assignment)) _ assignment :=
    plan_mapped hleaders hlen hbound
  obtain ⟨children, store', hmat, hread⟩ :=
    materialize_ok hlen hsource hmapped depth store inlineLimit
  have hsame : SameClusters (buildClusters numLeaders cur assignment) _ _ :=
    mergeClusters_eq_plan (by rw [buildClusters_length]; omega) cMin cMax
  rw [buildClusters_map_length hlen] at hsame
  simp only [externalChildren, hmat, hread, bind, Except.bind, inMemoryChildren, hsame.points]
  congr 1
  refine List.ext_getElem (by simp) fun j hj hj' => ?_
  simp only [List.getElem_map, List.getElem_range]
  exact sortDedup_congr fun x => mem_pushed_iff hleaders hlen hbound
    (List.getElem?_eq_getElem (by simpa using hj))

end

/-- The external partition builds the children of the in-memory one: for every assignment of
leaders to points, from a spool of its records or segments of one, with any inline limit. -/
theorem externalPartition_eq_inMemory {cur : List UInt32} {assignment : List (List UInt16)}
    {numLeaders fanout : Nat} (hleaders : numLeaders ≤ 65535)
    (hlen : assignment.length = cur.length)
    (hfanout : ∀ leaders ∈ assignment, leaders.length ≤ min fanout 32)
    (hbound : ∀ leaders ∈ assignment, ∀ c ∈ leaders, c.toNat < numLeaders)
    (depth cMin cMax : Nat) (store : ExternalRunStore) (inlineLimit : Option Nat) :
    ∃ bytes, writeRecords writeAssignRecord fanout assignment = .ok bytes ∧
      writeRecords appendAssignRecordBytes fanout assignment = .ok bytes ∧
      (∀ tail, externalChildren cur depth fanout numLeaders cMin cMax assignment
        (⟨⟨bytes ++ tail, 0⟩⟩ : ContiguousAssignmentRecordSource) store inlineLimit =
          .ok (inMemoryChildren cur numLeaders cMin cMax assignment)) ∧
      ∀ spool segments, SplitsInto spool (assignRecordWidth fanout) segments bytes →
        externalChildren cur depth fanout numLeaders cMin cMax assignment
          (SegmentedAssignmentRecordSource.new spool segments (assignRecordFanout fanout))
          store inlineLimit = .ok (inMemoryChildren cur numLeaders cMin cMax assignment) := by
  have hcap := (assignRecordFanout_bounds fanout).2
  have hrecord : ∀ leaders ∈ assignment, leaders.length ≤ assignRecordFanout fanout := by
    intro leaders hmem
    have := hfanout leaders hmem
    unfold assignRecordFanout
    omega
  have hwrite := writeRecords_ok hrecord
  have hleaders : numLeaders ≤ 65536 := Nat.le_succ_of_le hleaders
  refine ⟨_, hwrite, hwrite, fun tail => ?_, fun spool segments hsplit => ?_⟩
  · exact externalChildren_eq hleaders hlen hbound
      (ContiguousAssignmentRecordSource.delivers hcap hrecord rfl) depth store inlineLimit
  · refine externalChildren_eq hleaders hlen hbound
      (SegmentedAssignmentRecordSource.delivers hcap hrecord ?_
        (SegmentedAssignmentRecordSource.new_pending ?_)) depth store inlineLimit
    · simp [SegmentedAssignmentRecordSource.new, assignRecordWidth]
    · simpa [assignRecordWidth] using hsplit

/-- Two points, the second of them in both of two clusters that merge into one. -/
theorem externalPartition_eq_inMemory_two :
    ∃ bytes, writeRecords writeAssignRecord 2 [[0], [1, 0]] = .ok bytes ∧
      writeRecords appendAssignRecordBytes 2 [[0], [1, 0]] = .ok bytes ∧
      (∀ tail, externalChildren [7, 9] 0 2 2 2 10 [[0], [1, 0]]
        (⟨⟨bytes ++ tail, 0⟩⟩ : ContiguousAssignmentRecordSource)
        (ExternalRunStore.new "" .disabled) none = .ok (inMemoryChildren [7, 9] 2 2 10 [[0], [1, 0]])) ∧
      ∀ spool segments, SplitsInto spool (assignRecordWidth 2) segments bytes →
        externalChildren [7, 9] 0 2 2 2 10 [[0], [1, 0]]
          (SegmentedAssignmentRecordSource.new spool segments (assignRecordFanout 2))
          (ExternalRunStore.new "" .disabled) none =
            .ok (inMemoryChildren [7, 9] 2 2 10 [[0], [1, 0]]) :=
  externalPartition_eq_inMemory (by decide) rfl (by simp) (by simp) 0 2 10 _ none

end ForgeANN
