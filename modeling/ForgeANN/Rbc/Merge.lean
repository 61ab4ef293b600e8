-- SUMMARY: The merge greedy over clusters of points, its copy over raw counts, and that the two agree.
import ForgeANN.Common.Basic
import Mathlib.Data.List.Perm.Basic
import Mathlib.Data.List.Nodup

/-!
# Merging small clusters

After an assignment, clusters below `c_min` are merged greedily as long as
`c_max` allows. The in-memory path merges lists of points; the external path
knows only the counts and plans which raw children make up each merged one.
-/
namespace ForgeANN

/-! ## Over lists of points -/

/-- The accumulator of the greedy: finished clusters, and a small one still growing. -/
structure MergeState (α : Type) where
  result : List α
  currentSmall : Option α

def mergeClustersStep (cMin cMax : Nat) (st : MergeState (List UInt32)) (cluster : List UInt32) :
    MergeState (List UInt32) :=
  let size := cluster.length
  if cMin ≤ size then
    match st.currentSmall with
    | some small =>
        if small.length + size ≤ cMax then ⟨st.result ++ [cluster ++ small], none⟩
        else ⟨st.result ++ [small, cluster], none⟩
    | none => ⟨st.result ++ [cluster], none⟩
  else
    match st.currentSmall with
    | some small =>
        if small.length + size ≤ cMax then ⟨st.result, some (small ++ cluster)⟩
        else ⟨st.result ++ [small], some cluster⟩
    | none => ⟨st.result, some cluster⟩

/-- The small cluster left over joins the last result if it fits. -/
def mergeClustersFinish (cMax : Nat) (st : MergeState (List UInt32)) : List (List UInt32) :=
  match st.currentSmall with
  | none => st.result
  | some small =>
      match st.result.getLast? with
      | some last =>
          if last.length + small.length ≤ cMax then st.result.dropLast ++ [last ++ small]
          else st.result ++ [small]
      | none => st.result ++ [small]

def mergeClusters (clusters : List (List UInt32)) (cMin cMax : Nat) : List (List UInt32) :=
  let clusters := clusters.filter fun cluster => cluster ≠ []
  let clusters := clusters.mergeSort fun a b => a.length ≤ b.length
  mergeClustersFinish cMax (clusters.foldl (mergeClustersStep cMin cMax) ⟨[], none⟩)

/-! ## Over raw counts -/

/-- Raw children planned to make up one merged child. -/
structure MergedRawGroup where
  rawChildren : List UInt16
  rawLen : Nat
deriving DecidableEq, Repr

def mergePlanStep (cMin cMax : Nat) (st : MergeState MergedRawGroup) (raw : UInt16 × Nat) :
    MergeState MergedRawGroup :=
  let (rawChild, size) := raw
  let cluster : MergedRawGroup := ⟨[rawChild], size⟩
  if cMin ≤ size then
    match st.currentSmall with
    | some small =>
        if small.rawLen + size ≤ cMax then
          ⟨st.result ++ [⟨rawChild :: small.rawChildren, size + small.rawLen⟩], none⟩
        else ⟨st.result ++ [small, cluster], none⟩
    | none => ⟨st.result ++ [cluster], none⟩
  else
    match st.currentSmall with
    | some small =>
        if small.rawLen + size ≤ cMax then
          ⟨st.result, some ⟨small.rawChildren ++ [rawChild], small.rawLen + size⟩⟩
        else ⟨st.result ++ [small], some cluster⟩
    | none => ⟨st.result, some cluster⟩

def mergePlanFinish (cMax : Nat) (st : MergeState MergedRawGroup) : List MergedRawGroup :=
  match st.currentSmall with
  | none => st.result
  | some small =>
      match st.result.getLast? with
      | some last =>
          if last.rawLen + small.rawLen ≤ cMax then
            st.result.dropLast ++
              [⟨last.rawChildren ++ small.rawChildren, last.rawLen + small.rawLen⟩]
          else st.result ++ [small]
      | none => st.result ++ [small]

/-- The nonempty raw children with their counts. -/
def nonemptyRaw (rawCounts : List Nat) : List (UInt16 × Nat) :=
  rawCounts.zipIdx.filterMap fun (len, rawChild) =>
    if 0 < len then some (UInt16.ofNat rawChild, len) else none

def mergeClusterPlan (rawCounts : List Nat) (cMin cMax : Nat) : List MergedRawGroup :=
  let clusters := (nonemptyRaw rawCounts).mergeSort fun a b => a.2 ≤ b.2
  mergePlanFinish cMax (clusters.foldl (mergePlanStep cMin cMax) ⟨[], none⟩)

/-! ## The plan merges the same clusters -/

section

variable (clusters : List (List UInt32))

/-- The points of one raw child. -/
def rawPoints (rawChild : UInt16) : List UInt32 := clusters.getD rawChild.toNat []

/-- The points a planned group stands for, in the order of its raw children. -/
def groupPoints (group : MergedRawGroup) : List UInt32 :=
  group.rawChildren.flatMap (rawPoints clusters)

/-- A group knows how many points it stands for. -/
def Counted (group : MergedRawGroup) : Prop :=
  group.rawLen = (groupPoints clusters group).length

/-- The clusters in memory are those of the planned groups. -/
structure SameClusters (plan : List MergedRawGroup) (mem : List (List UInt32)) : Prop where
  points : mem = plan.map (groupPoints clusters)
  counted : ∀ g ∈ plan, Counted clusters g

/-- Plan and clusters at the same point of the greedy. -/
structure SameMerge (plan : MergeState MergedRawGroup) (mem : MergeState (List UInt32)) : Prop where
  result : SameClusters clusters plan.result mem.result
  small : SameClusters clusters plan.currentSmall.toList mem.currentSmall.toList

variable {clusters}

theorem SameClusters.nil : SameClusters clusters [] [] := ⟨rfl, by simp⟩

theorem SameClusters.append {p₁ p₂ : List MergedRawGroup} {m₁ m₂ : List (List UInt32)}
    (h₁ : SameClusters clusters p₁ m₁) (h₂ : SameClusters clusters p₂ m₂) :
    SameClusters clusters (p₁ ++ p₂) (m₁ ++ m₂) where
  points := by rw [h₁.points, h₂.points, List.map_append]
  counted := List.forall_mem_append.mpr ⟨h₁.counted, h₂.counted⟩

/-- A group built from raw children together with its count. -/
theorem SameClusters.single {children : List UInt16} {points : List UInt32} {n : Nat}
    (hp : children.flatMap (rawPoints clusters) = points) (hn : n = points.length) :
    SameClusters clusters [⟨children, n⟩] [points] where
  points := by simp [groupPoints, hp]
  counted := by
    simp only [List.mem_singleton, forall_eq, Counted, groupPoints]
    rw [hp, hn]

theorem SameClusters.singleton_inv {g : MergedRawGroup} {points : List UInt32}
    (h : SameClusters clusters [g] [points]) :
    g.rawChildren.flatMap (rawPoints clusters) = points ∧ g.rawLen = points.length := by
  have hp : points = groupPoints clusters g := by simpa using h.points
  exact ⟨hp.symm, hp ▸ h.counted g (by simp)⟩

theorem SameMerge.step {plan : MergeState MergedRawGroup} {mem : MergeState (List UInt32)}
    (h : SameMerge clusters plan mem) (cMin cMax : Nat) {raw : UInt16 × Nat}
    (hraw : raw.2 = (rawPoints clusters raw.1).length) :
    SameMerge clusters (mergePlanStep cMin cMax plan raw)
      (mergeClustersStep cMin cMax mem (rawPoints clusters raw.1)) := by
  obtain ⟨c, n⟩ := raw
  obtain ⟨presult, psmall⟩ := plan
  obtain ⟨mresult, msmall⟩ := mem
  obtain ⟨hresult, hsmall⟩ := h
  simp only at hraw hresult hsmall
  subst hraw
  have hone : SameClusters clusters [⟨[c], (rawPoints clusters c).length⟩] [rawPoints clusters c] :=
    .single (by simp) rfl
  cases psmall with
  | none =>
      have hnone : msmall = none := by simpa using hsmall.points
      subst hnone
      simp only [mergePlanStep, mergeClustersStep]
      split_ifs
      · exact ⟨hresult.append hone, .nil⟩
      · exact ⟨hresult, hone⟩
  | some small =>
      obtain ⟨points, rfl⟩ : ∃ points, msmall = some points := by
        cases msmall with
        | none => simpa using hsmall.points
        | some points => exact ⟨points, rfl⟩
      obtain ⟨hpoints, hlen⟩ := hsmall.singleton_inv
      simp only [mergePlanStep, mergeClustersStep, hlen]
      split_ifs
      · exact ⟨hresult.append (.single (by simp [hpoints]) (by simp)), .nil⟩
      · exact ⟨hresult.append (hsmall.append hone), .nil⟩
      · exact ⟨hresult, .single (by simp [hpoints]) (by simp)⟩
      · exact ⟨hresult.append hsmall, hone⟩

theorem SameMerge.finish {plan : MergeState MergedRawGroup} {mem : MergeState (List UInt32)}
    (h : SameMerge clusters plan mem) (cMax : Nat) :
    SameClusters clusters (mergePlanFinish cMax plan) (mergeClustersFinish cMax mem) := by
  obtain ⟨presult, psmall⟩ := plan
  obtain ⟨mresult, msmall⟩ := mem
  obtain ⟨hresult, hsmall⟩ := h
  cases psmall with
  | none =>
      have hnone : msmall = none := by simpa using hsmall.points
      subst hnone
      exact hresult
  | some small =>
      obtain ⟨points, rfl⟩ : ∃ points, msmall = some points := by
        cases msmall with
        | none => simpa using hsmall.points
        | some points => exact ⟨points, rfl⟩
      obtain ⟨hpoints, hlen⟩ := hsmall.singleton_inv
      rcases List.eq_nil_or_concat' presult with rfl | ⟨init, last, rfl⟩
      · have hnil : mresult = [] := hresult.points
        subst hnil
        exact hsmall
      · have hm := hresult.points
        rw [List.map_append, List.map_singleton] at hm
        have hinit : SameClusters clusters init (init.map (groupPoints clusters)) :=
          ⟨rfl, fun g hg => hresult.counted g (List.mem_append_left _ hg)⟩
        have hlast : last.rawLen = (groupPoints clusters last).length :=
          hresult.counted last (by simp)
        simp only at hm
        subst hm
        simp only [mergePlanFinish, mergeClustersFinish, List.getLast?_concat, List.dropLast_concat,
          hlast, hlen]
        split_ifs
        · exact hinit.append (.single (by simp [groupPoints, hpoints]) (by simp))
        · exact hresult.append hsmall

theorem SameMerge.foldl {plan : MergeState MergedRawGroup} {mem : MergeState (List UInt32)}
    (h : SameMerge clusters plan mem) (cMin cMax : Nat) {raws : List (UInt16 × Nat)}
    (hraws : ∀ raw ∈ raws, raw.2 = (rawPoints clusters raw.1).length) :
    SameMerge clusters (raws.foldl (mergePlanStep cMin cMax) plan)
      ((raws.map fun raw => rawPoints clusters raw.1).foldl (mergeClustersStep cMin cMax) mem) := by
  induction raws generalizing plan mem with
  | nil => exact h
  | cons raw raws ih =>
      exact ih (h.step cMin cMax (hraws raw List.mem_cons_self))
        fun r hr => hraws r (List.mem_cons_of_mem _ hr)

theorem rawPoints_ofNat (hlen : clusters.length ≤ 65536) {i : Nat} (hi : i < clusters.length) :
    rawPoints clusters (UInt16.ofNat i) = clusters[i] := by
  have htoNat : (UInt16.ofNat i).toNat = i := UInt16.toNat_ofNat_of_lt (by
    rw [UInt16.size]; omega)
  rw [rawPoints, htoNat, List.getD_eq_getElem?_getD, List.getElem?_eq_getElem hi, Option.getD_some]

/-- The clusters that are not empty, found through their counts, from some index on. -/
private theorem nonemptyRaw_points_from (hlen : clusters.length ≤ 65536)
    (before : List (List UInt32)) {rest : List (List UInt32)} (h : before ++ rest = clusters) :
    ((((rest.map List.length).zipIdx before.length).filterMap fun (len, rawChild) =>
        if 0 < len then some (UInt16.ofNat rawChild, len) else none).map
        fun raw => rawPoints clusters raw.1) = rest.filter (fun cluster => cluster ≠ []) := by
  induction rest generalizing before with
  | nil => rfl
  | cons a rest ih =>
      have hi : before.length < clusters.length := by rw [← h]; simp
      have ha : rawPoints clusters (UInt16.ofNat before.length) = a := by
        rw [rawPoints_ofNat hlen hi]
        simp [← h]
      have hrest := ih (before ++ [a]) (by simpa using h)
      rw [List.length_append, List.length_singleton] at hrest
      rw [List.map_cons, List.zipIdx_cons]
      by_cases hempty : a = []
      · simpa [hempty] using hrest
      · have hpos : 0 < a.length := List.length_pos_iff.mpr hempty
        simp only [List.filterMap_cons, hpos, ↓reduceIte, List.map_cons, ha, hrest]
        simp [hempty]

/-- The nonempty clusters, found through their counts. -/
theorem nonemptyRaw_points (hlen : clusters.length ≤ 65536) :
    ((nonemptyRaw (clusters.map List.length)).map fun raw => rawPoints clusters raw.1) =
      clusters.filter (fun cluster => cluster ≠ []) :=
  nonemptyRaw_points_from hlen [] rfl

theorem mem_nonemptyRaw {rawCounts : List Nat} {raw : UInt16 × Nat} :
    raw ∈ nonemptyRaw rawCounts ↔
      ∃ i, rawCounts[i]? = some raw.2 ∧ 0 < raw.2 ∧ raw.1 = UInt16.ofNat i := by
  obtain ⟨c, n⟩ := raw
  simp only [nonemptyRaw, List.mem_filterMap, Prod.exists, List.mem_zipIdx_iff_getElem?]
  constructor
  · rintro ⟨m, i, hi, hif⟩
    split_ifs at hif with hm
    cases hif
    exact ⟨i, hi, hm, rfl⟩
  · rintro ⟨i, hi, hm, rfl⟩
    exact ⟨n, i, hi, if_pos hm⟩

theorem count_nonemptyRaw (hlen : clusters.length ≤ 65536) {raw : UInt16 × Nat}
    (h : raw ∈ nonemptyRaw (clusters.map List.length)) :
    raw.2 = (rawPoints clusters raw.1).length := by
  obtain ⟨i, hi, -, hraw⟩ := mem_nonemptyRaw.mp h
  rw [List.getElem?_map, Option.map_eq_some_iff] at hi
  obtain ⟨cluster, hi, hn⟩ := hi
  obtain ⟨hlt, hget⟩ := List.getElem?_eq_some_iff.mp hi
  rw [hraw, rawPoints_ofNat hlen hlt, hget, hn]

/-- The plan made from the counts merges the clusters exactly as the merge in memory does. -/
theorem mergeClusters_eq_plan (hlen : clusters.length ≤ 65536) (cMin cMax : Nat) :
    SameClusters clusters (mergeClusterPlan (clusters.map List.length) cMin cMax)
      (mergeClusters clusters cMin cMax) := by
  simp only [mergeClusters, mergeClusterPlan, ← nonemptyRaw_points hlen]
  rw [← List.map_mergeSort (r := fun a b : UInt16 × Nat => decide (a.2 ≤ b.2)) fun a ha b hb => by
    rw [count_nonemptyRaw hlen ha, count_nonemptyRaw hlen hb]]
  refine SameMerge.finish (SameMerge.foldl ⟨.nil, .nil⟩ cMin cMax fun raw hraw => ?_) cMax
  exact count_nonemptyRaw hlen (List.mem_mergeSort.mp hraw)

end

/-! ## No point is lost -/

/-- The points the greedy holds. -/
def MergeState.points (st : MergeState (List UInt32)) : List UInt32 :=
  (st.result ++ st.currentSmall.toList).flatten

theorem mergeClustersStep_points (cMin cMax : Nat) (st : MergeState (List UInt32))
    (cluster : List UInt32) :
    (mergeClustersStep cMin cMax st cluster).points.Perm (cluster ++ st.points) := by
  obtain ⟨result, small⟩ := st
  rw [List.perm_iff_count]
  intro c
  cases small <;> simp only [mergeClustersStep, MergeState.points] <;> split_ifs <;>
    simp [List.count_append] <;> omega

theorem mergeClustersFinish_points (cMax : Nat) (st : MergeState (List UInt32)) :
    (mergeClustersFinish cMax st).flatten.Perm st.points := by
  obtain ⟨result, small⟩ := st
  cases small with
  | none => simp [mergeClustersFinish, MergeState.points]
  | some small =>
      rcases List.eq_nil_or_concat' result with rfl | ⟨init, last, rfl⟩
      · simp [mergeClustersFinish, MergeState.points]
      · simp only [mergeClustersFinish, MergeState.points, List.getLast?_concat,
          List.dropLast_concat]
        split_ifs <;> simp

/-- Merging moves the points into other clusters, and nothing else. -/
theorem mergeClusters_points (clusters : List (List UInt32)) (cMin cMax : Nat) :
    (mergeClusters clusters cMin cMax).flatten.Perm clusters.flatten := by
  have hfold : ∀ (clusters : List (List UInt32)) (st : MergeState (List UInt32)),
      (clusters.foldl (mergeClustersStep cMin cMax) st).points.Perm
        (clusters.flatten ++ st.points) := by
    intro clusters
    induction clusters with
    | nil => exact fun st => .refl _
    | cons cluster clusters ih =>
        intro st
        refine (ih _).trans (((mergeClustersStep_points cMin cMax st cluster).append_left _).trans ?_)
        rw [List.flatten_cons, List.append_assoc]
        exact List.perm_append_comm_assoc ..
  have hnonempty : (clusters.filter fun cluster => cluster ≠ []).flatten = clusters.flatten :=
    List.flatten_filter_ne_nil
  refine (mergeClustersFinish_points cMax _).trans ((hfold _ _).trans ?_)
  rw [MergeState.points, ← hnonempty]
  simpa using (List.mergeSort_perm (clusters.filter fun cluster => cluster ≠ []) _).flatten

/-! ## Every raw child is planned once -/

/-- The raw children the greedy holds. -/
def MergeState.children (st : MergeState MergedRawGroup) : List UInt16 :=
  (st.result ++ st.currentSmall.toList).flatMap MergedRawGroup.rawChildren

theorem mergePlanStep_children (cMin cMax : Nat) (st : MergeState MergedRawGroup)
    (raw : UInt16 × Nat) :
    (mergePlanStep cMin cMax st raw).children.Perm (raw.1 :: st.children) := by
  obtain ⟨result, small⟩ := st
  rw [List.perm_iff_count]
  intro c
  cases small <;> simp only [mergePlanStep, MergeState.children] <;> split_ifs <;>
    simp [List.flatMap_append, List.count_cons, List.count_append] <;> omega

theorem mergePlanFinish_children (cMax : Nat) (st : MergeState MergedRawGroup) :
    ((mergePlanFinish cMax st).flatMap MergedRawGroup.rawChildren).Perm st.children := by
  obtain ⟨result, small⟩ := st
  cases small with
  | none => simp [mergePlanFinish, MergeState.children]
  | some small =>
      rcases List.eq_nil_or_concat' result with rfl | ⟨init, last, rfl⟩
      · simp [mergePlanFinish, MergeState.children]
      · simp only [mergePlanFinish, MergeState.children, List.getLast?_concat,
          List.dropLast_concat]
        split_ifs <;> simp [List.flatMap_append]

/-- The planned groups split the nonempty raw children among them. -/
theorem mergeClusterPlan_children (rawCounts : List Nat) (cMin cMax : Nat) :
    ((mergeClusterPlan rawCounts cMin cMax).flatMap MergedRawGroup.rawChildren).Perm
      ((nonemptyRaw rawCounts).map Prod.fst) := by
  have hfold : ∀ (raws : List (UInt16 × Nat)) (st : MergeState MergedRawGroup),
      (raws.foldl (mergePlanStep cMin cMax) st).children.Perm (raws.map Prod.fst ++ st.children) := by
    intro raws
    induction raws with
    | nil => exact fun st => .refl _
    | cons raw raws ih =>
        intro st
        refine (ih _).trans (((mergePlanStep_children cMin cMax st raw).append_left _).trans ?_)
        exact List.perm_middle
  refine (mergePlanFinish_children cMax _).trans ((hfold _ _).trans ?_)
  rw [MergeState.children]
  simpa using (List.mergeSort_perm _ _).map Prod.fst

theorem nonemptyRaw_sublist (rawCounts : List Nat) :
    ((nonemptyRaw rawCounts).map Prod.fst).Sublist
      ((List.range rawCounts.length).map UInt16.ofNat) := by
  have hmap : ∀ raws : List (Nat × Nat), ((raws.filterMap fun (len, rawChild) =>
      if 0 < len then some (UInt16.ofNat rawChild, len) else none).map Prod.fst).Sublist
        ((raws.map Prod.snd).map UInt16.ofNat) := by
    intro raws
    induction raws with
    | nil => exact .slnil
    | cons raw raws ih =>
        by_cases hpos : 0 < raw.1
        · simpa [hpos] using ih
        · simpa [hpos] using ih.cons _
  have h := hmap rawCounts.zipIdx
  rwa [List.zipIdx_map_snd, ← List.range_eq_range'] at h

theorem nonemptyRaw_nodup {rawCounts : List Nat} (hlen : rawCounts.length ≤ 65536) :
    ((nonemptyRaw rawCounts).map Prod.fst).Nodup := by
  refine (nonemptyRaw_sublist rawCounts).nodup
    (List.Nodup.map_on (fun i hi j hj hij => ?_) List.nodup_range)
  rw [List.mem_range] at hi hj
  have hi' : (UInt16.ofNat i).toNat = i := UInt16.toNat_ofNat_of_lt (by rw [UInt16.size]; omega)
  have hj' : (UInt16.ofNat j).toNat = j := UInt16.toNat_ofNat_of_lt (by rw [UInt16.size]; omega)
  rw [← hi', ← hj', hij]

/-! ## At most one group a raw child -/

def MergeState.groups (st : MergeState MergedRawGroup) : Nat :=
  st.result.length + st.currentSmall.toList.length

theorem mergePlanStep_groups (cMin cMax : Nat) (st : MergeState MergedRawGroup)
    (raw : UInt16 × Nat) : (mergePlanStep cMin cMax st raw).groups ≤ st.groups + 1 := by
  obtain ⟨result, small⟩ := st
  cases small <;> simp only [mergePlanStep, MergeState.groups] <;> split_ifs <;> simp

theorem mergePlanFinish_groups (cMax : Nat) (st : MergeState MergedRawGroup) :
    (mergePlanFinish cMax st).length ≤ st.groups := by
  obtain ⟨result, small⟩ := st
  cases small with
  | none => simp [mergePlanFinish, MergeState.groups]
  | some small =>
      rcases List.eq_nil_or_concat' result with rfl | ⟨init, last, rfl⟩
      · simp [mergePlanFinish, MergeState.groups]
      · simp only [mergePlanFinish, MergeState.groups, List.getLast?_concat, List.dropLast_concat]
        split_ifs <;> simp

theorem mergeClusterPlan_length_le_nonempty (rawCounts : List Nat) (cMin cMax : Nat) :
    (mergeClusterPlan rawCounts cMin cMax).length ≤ (nonemptyRaw rawCounts).length := by
  have hfold : ∀ (raws : List (UInt16 × Nat)) (st : MergeState MergedRawGroup),
      (raws.foldl (mergePlanStep cMin cMax) st).groups ≤ st.groups + raws.length := by
    intro raws
    induction raws with
    | nil => exact fun st => Nat.le_refl _
    | cons raw raws ih =>
        intro st
        have hstep := mergePlanStep_groups cMin cMax st raw
        have hrest := ih (mergePlanStep cMin cMax st raw)
        rw [List.foldl_cons, List.length_cons]
        omega
  have hrun := hfold ((nonemptyRaw rawCounts).mergeSort fun a b => a.2 ≤ b.2) ⟨[], none⟩
  rw [List.length_mergeSort] at hrun
  have hfinish := mergePlanFinish_groups cMax
    (((nonemptyRaw rawCounts).mergeSort fun a b => a.2 ≤ b.2).foldl (mergePlanStep cMin cMax)
      ⟨[], none⟩)
  rw [mergeClusterPlan]
  simp only [MergeState.groups, List.length_nil, Option.toList_none] at hrun hfinish ⊢
  omega

theorem mergeClusterPlan_length_le (rawCounts : List Nat) (cMin cMax : Nat) :
    (mergeClusterPlan rawCounts cMin cMax).length ≤ rawCounts.length := by
  have hraws : (nonemptyRaw rawCounts).length ≤ rawCounts.length := by
    have := List.length_filterMap_le (fun (len, rawChild) =>
      if 0 < len then some (UInt16.ofNat rawChild, len) else none) rawCounts.zipIdx
    rwa [List.length_zipIdx] at this
  exact Nat.le_trans (mergeClusterPlan_length_le_nonempty rawCounts cMin cMax) hraws

/-- The counts of the nonempty raw children. -/
theorem nonemptyRaw_map_snd (rawCounts : List Nat) :
    (nonemptyRaw rawCounts).map Prod.snd = rawCounts.filter (0 < ·) := by
  have hfrom : ∀ (rawCounts : List Nat) (k : Nat), ((rawCounts.zipIdx k).filterMap
      fun (len, rawChild) => if 0 < len then some (UInt16.ofNat rawChild, len) else none).map
        Prod.snd = rawCounts.filter (0 < ·) := by
    intro rawCounts
    induction rawCounts with
    | nil => exact fun _ => rfl
    | cons len rawCounts ih =>
        intro k
        rw [List.zipIdx_cons]
        by_cases hpos : 0 < len
        · simp [hpos, ih]
        · simpa [hpos] using ih (k + 1)
  exact hfrom rawCounts 0

/-! ## Groups of several raw children are within the limit -/

section

variable {cMin cMax : Nat}

/-- A planned group of several raw children has at most `cMax` points. -/
def WithinLimit (cMax : Nat) (group : MergedRawGroup) : Prop :=
  group.rawChildren.length ≤ 1 ∨ group.rawLen ≤ cMax

/-- The groups are within the limit, and hold `total` points among them. -/
structure Planned (cMax total : Nat) (groups : List MergedRawGroup) : Prop where
  within : ∀ group ∈ groups, WithinLimit cMax group
  total : (groups.map MergedRawGroup.rawLen).sum = total

theorem mergePlanStep_planned {st : MergeState MergedRawGroup} {total : Nat}
    (h : Planned cMax total (st.result ++ st.currentSmall.toList)) (raw : UInt16 × Nat) :
    Planned cMax (total + raw.2) ((mergePlanStep cMin cMax st raw).result ++
      (mergePlanStep cMin cMax st raw).currentSmall.toList) := by
  obtain ⟨result, small⟩ := st
  obtain ⟨hwithin, rfl⟩ := h
  simp only [WithinLimit] at hwithin
  cases small <;> simp only [mergePlanStep] <;> split_ifs <;>
    refine ⟨?_, ?_⟩ <;> simp [WithinLimit, or_imp, forall_and] at hwithin ⊢ <;> grind

theorem mergePlanFinish_planned {st : MergeState MergedRawGroup} {total : Nat}
    (h : Planned cMax total (st.result ++ st.currentSmall.toList)) :
    Planned cMax total (mergePlanFinish cMax st) := by
  obtain ⟨result, small⟩ := st
  cases small with
  | none => simpa [mergePlanFinish] using h
  | some small =>
      rcases List.eq_nil_or_concat' result with rfl | ⟨init, last, rfl⟩
      · exact h
      · obtain ⟨hwithin, htotal⟩ := h
        simp only [mergePlanFinish, List.getLast?_concat, List.dropLast_concat]
        split_ifs with hfits
        · refine ⟨fun group hgroup => ?_, ?_⟩
          · rcases List.mem_append.mp hgroup with hinit | hlast
            · exact hwithin group (by simp [hinit])
            · rw [List.mem_singleton.mp hlast]
              exact .inr hfits
          · rw [← htotal]
            simp
        · exact ⟨hwithin, htotal⟩

/-- The plan keeps its groups within the limit and loses no point. -/
theorem mergeClusterPlan_planned (rawCounts : List Nat) (cMin cMax : Nat) :
    Planned cMax ((nonemptyRaw rawCounts).map Prod.snd).sum
      (mergeClusterPlan rawCounts cMin cMax) := by
  have hfold : ∀ (raws : List (UInt16 × Nat)) (st : MergeState MergedRawGroup) (total : Nat),
      Planned cMax total (st.result ++ st.currentSmall.toList) →
      Planned cMax (total + (raws.map Prod.snd).sum)
        ((raws.foldl (mergePlanStep cMin cMax) st).result ++
          (raws.foldl (mergePlanStep cMin cMax) st).currentSmall.toList) := by
    intro raws
    induction raws with
    | nil => exact fun st total h => h
    | cons raw raws ih =>
        intro st total h
        rw [List.map_cons, List.sum_cons, ← Nat.add_assoc]
        exact ih _ _ (mergePlanStep_planned h raw)
  apply mergePlanFinish_planned
  have hrun := hfold ((nonemptyRaw rawCounts).mergeSort fun a b => a.2 ≤ b.2) ⟨[], none⟩ 0
    ⟨by simp, rfl⟩
  rwa [Nat.zero_add, ((List.mergeSort_perm _ _).map Prod.snd).sum_nat] at hrun

/-- With two leaders in use and more points than a group of several may have, there is more than
one group. -/
theorem one_lt_mergeClusterPlan_length {rawCounts : List Nat}
    (hleaders : 1 < (nonemptyRaw rawCounts).length)
    (hlarge : cMax < ((nonemptyRaw rawCounts).map Prod.snd).sum) :
    1 < (mergeClusterPlan rawCounts cMin cMax).length := by
  have hplanned := mergeClusterPlan_planned rawCounts cMin cMax
  have hchildren := (mergeClusterPlan_children rawCounts cMin cMax).length_eq
  by_contra hle
  have hcases : mergeClusterPlan rawCounts cMin cMax = [] ∨
      ∃ group, mergeClusterPlan rawCounts cMin cMax = [group] := by
    rcases Nat.lt_or_eq_of_le (Nat.le_of_not_lt hle) with hzero | hone
    · exact .inl (List.length_eq_zero_iff.mp (Nat.lt_one_iff.mp hzero))
    · exact .inr (List.length_eq_one_iff.mp hone)
  rcases hcases with hnil | ⟨group, hone⟩
  · rw [hnil] at hplanned
    rw [← hplanned.total] at hlarge
    exact absurd hlarge (Nat.not_lt_zero _)
  · -- one group would hold all the raw children, and all the points
    rw [hone] at hplanned hchildren
    have htotal := hplanned.total
    simp only [List.flatMap_cons, List.flatMap_nil, List.append_nil, List.length_map] at hchildren
    simp only [List.map_cons, List.map_nil, List.sum_cons, List.sum_nil, Nat.add_zero] at htotal
    rcases hplanned.within group List.mem_cons_self with hfew | hlimit <;> omega

end

end ForgeANN
