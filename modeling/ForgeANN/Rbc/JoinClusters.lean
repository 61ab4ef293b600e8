-- SUMMARY: Splitting clusters into two balanced sides, and the tree of joins that recurses into each of them once.
import ForgeANN.Common.Basic
import ForgeANN.Lib.Except
import ForgeANN.Lib.SortDedup
import Mathlib.Data.List.Perm.Basic
import Mathlib.Order.OrderDual

/-!
# Joins over clusters

Clusters are dealt out largest first, each to the side that has fewer points.
The sides then differ by no more than one cluster, and with two clusters or more
neither is empty, which is why the joins come to an end.
-/
namespace ForgeANN

open Lib

structure SeededCluster where
  points : List UInt32
  seed : UInt64
deriving DecidableEq, Repr

/-- Larger clusters come first. -/
def SeededCluster.before (a b : SeededCluster) : Prop := b.points.length ≤ a.points.length

/-- The two sides with their totals. The points are held in memory all at once, so the totals do not
overflow. -/
structure ClusterSides where
  left : List SeededCluster
  right : List SeededCluster
  leftPoints : Nat
  rightPoints : Nat
deriving DecidableEq, Repr

namespace ClusterSides

def empty : ClusterSides := ⟨[], [], 0, 0⟩

/-- One round of the loop. -/
def deal (sides : ClusterSides) (cluster : SeededCluster) : ClusterSides :=
  if sides.leftPoints ≤ sides.rightPoints then
    { sides with
      leftPoints := sides.leftPoints + cluster.points.length
      left := sides.left ++ [cluster] }
  else
    { sides with
      rightPoints := sides.rightPoints + cluster.points.length
      right := sides.right ++ [cluster] }

/-- A side left empty takes the last cluster of the other. -/
def refill (sides : ClusterSides) : List SeededCluster × List SeededCluster :=
  match sides.left, sides.right with
  | [], r :: rs => ([(r :: rs).getLast (List.cons_ne_nil _ _)], (r :: rs).dropLast)
  | l :: ls, [] => ((l :: ls).dropLast, [(l :: ls).getLast (List.cons_ne_nil _ _)])
  | left, right => (left, right)

end ClusterSides

def splitSeededClustersBalanced (sort : UnstableSort SeededCluster.before)
    (clusters : List SeededCluster) : List SeededCluster × List SeededCluster :=
  ((sort.sort clusters).foldl ClusterSides.deal .empty).refill

/-! ## The two sides -/

/-- `left_points` and `right_points` of a finished split. -/
def totalPoints (clusters : List SeededCluster) : Nat :=
  (clusters.map fun cluster => cluster.points.length).sum

theorem totalPoints_append (a b : List SeededCluster) :
    totalPoints (a ++ b) = totalPoints a + totalPoints b := by
  simp [totalPoints]

@[simp] theorem totalPoints_singleton (cluster : SeededCluster) :
    totalPoints [cluster] = cluster.points.length := by
  simp [totalPoints]

namespace ClusterSides

/-- The totals are those of the sides, and differ by at most `bound`. -/
structure Balanced (bound : Nat) (sides : ClusterSides) : Prop where
  left_total : sides.leftPoints = totalPoints sides.left
  right_total : sides.rightPoints = totalPoints sides.right
  left_le : sides.leftPoints ≤ sides.rightPoints + bound
  right_le : sides.rightPoints ≤ sides.leftPoints + bound

variable {bound : Nat} {sides : ClusterSides} {cluster : SeededCluster} {clusters : List SeededCluster}

theorem balanced_empty (bound : Nat) : Balanced bound empty where
  left_total := rfl
  right_total := rfl
  left_le := Nat.zero_le _
  right_le := Nat.zero_le _

/-- The lighter side was lighter by at most `bound`, and a cluster takes it past the other by at most
its own size. -/
theorem Balanced.deal (h : Balanced bound sides) (hsize : cluster.points.length ≤ bound) :
    Balanced bound (sides.deal cluster) := by
  obtain ⟨hleft, hright, hle, hge⟩ := h
  unfold ClusterSides.deal
  split
  case isTrue hlighter =>
    refine ⟨?_, hright, ?_, ?_⟩
    · show sides.leftPoints + cluster.points.length = totalPoints (sides.left ++ [cluster])
      rw [totalPoints_append, totalPoints_singleton, hleft]
    · show sides.leftPoints + cluster.points.length ≤ sides.rightPoints + bound
      omega
    · show sides.rightPoints ≤ sides.leftPoints + cluster.points.length + bound
      omega
  case isFalse hlighter =>
    refine ⟨hleft, ?_, ?_, ?_⟩
    · show sides.rightPoints + cluster.points.length = totalPoints (sides.right ++ [cluster])
      rw [totalPoints_append, totalPoints_singleton, hright]
    · show sides.leftPoints ≤ sides.rightPoints + cluster.points.length + bound
      omega
    · show sides.rightPoints + cluster.points.length ≤ sides.leftPoints + bound
      omega

theorem Balanced.foldl (h : Balanced bound sides)
    (hsize : ∀ cluster ∈ clusters, cluster.points.length ≤ bound) :
    Balanced bound (clusters.foldl ClusterSides.deal sides) := by
  induction clusters generalizing sides with
  | nil => exact h
  | cons cluster clusters ih =>
      exact ih (h.deal (hsize cluster List.mem_cons_self))
        fun c hc => hsize c (List.mem_cons_of_mem _ hc)

theorem perm_deal (sides : ClusterSides) (cluster : SeededCluster) :
    ((sides.deal cluster).left ++ (sides.deal cluster).right).Perm
      (cluster :: (sides.left ++ sides.right)) := by
  unfold deal
  split
  · simp only [List.append_assoc, List.singleton_append]
    exact List.perm_middle
  · rw [← List.append_assoc]
    exact List.perm_append_singleton cluster _

/-- Every cluster dealt out is on one of the sides. -/
theorem perm_foldl (clusters : List SeededCluster) (sides : ClusterSides) :
    ((clusters.foldl deal sides).left ++ (clusters.foldl deal sides).right).Perm
      (clusters ++ (sides.left ++ sides.right)) := by
  induction clusters generalizing sides with
  | nil => exact List.Perm.refl _
  | cons cluster clusters ih =>
      rw [List.foldl_cons]
      refine (ih (sides.deal cluster)).trans ?_
      refine ((perm_deal sides cluster).append_left clusters).trans ?_
      exact List.perm_middle

theorem perm_refill (sides : ClusterSides) :
    (sides.refill.1 ++ sides.refill.2).Perm (sides.left ++ sides.right) := by
  unfold refill
  split
  case h_1 r rs hleft hright =>
    rw [hleft, hright]
    calc [(r :: rs).getLast _] ++ (r :: rs).dropLast
        _ |>.Perm ((r :: rs).dropLast ++ [(r :: rs).getLast (List.cons_ne_nil _ _)]) :=
          List.perm_append_comm
        _ |>.Perm ([] ++ r :: rs) := by rw [List.dropLast_append_getLast]; exact List.Perm.refl _
  case h_2 l ls hleft hright =>
    rw [hleft, hright, List.dropLast_append_getLast, List.append_nil]
  case h_3 => exact List.Perm.refl _

/-- Two clusters are enough for both sides. -/
theorem refill_ne_nil (h : 2 ≤ (sides.left ++ sides.right).length) :
    sides.refill.1 ≠ [] ∧ sides.refill.2 ≠ [] := by
  have hdrop : ∀ {l : List SeededCluster}, 2 ≤ l.length → l.dropLast ≠ [] := by
    intro l hl hnil
    have := congrArg List.length hnil
    rw [List.length_dropLast, List.length_nil] at this
    omega
  unfold refill
  split
  case h_1 r rs hleft hright =>
    rw [hleft, hright, List.nil_append] at h
    exact ⟨List.cons_ne_nil _ _, hdrop h⟩
  case h_2 l ls hleft hright =>
    rw [hleft, hright, List.append_nil] at h
    exact ⟨hdrop h, List.cons_ne_nil _ _⟩
  case h_3 hleft hright =>
    cases hl : sides.left with
    | nil =>
        cases hr : sides.right with
        | nil => simp [hl, hr] at h
        | cons r rs => exact absurd hr (hleft r rs hl)
    | cons l ls =>
        cases hr : sides.right with
        | nil => exact absurd hr (hright l ls hl)
        | cons r rs => exact ⟨List.cons_ne_nil _ _, List.cons_ne_nil _ _⟩

/-- A side that holds clusters stays as it is. -/
theorem refill_eq (hleft : sides.left ≠ []) (hright : sides.right ≠ []) :
    sides.refill = (sides.left, sides.right) := by
  unfold refill
  split
  case h_1 h _ => exact absurd h hleft
  case h_2 _ h => exact absurd h hright
  case h_3 => rfl

theorem left_subset_deal (sides : ClusterSides) (cluster : SeededCluster) :
    sides.left ⊆ (sides.deal cluster).left ∧ sides.right ⊆ (sides.deal cluster).right := by
  unfold deal
  split
  · exact ⟨List.subset_append_left _ _, List.Subset.refl _⟩
  · exact ⟨List.Subset.refl _, List.subset_append_left _ _⟩

theorem subset_foldl (clusters : List SeededCluster) (sides : ClusterSides) :
    sides.left ⊆ (clusters.foldl deal sides).left ∧
      sides.right ⊆ (clusters.foldl deal sides).right := by
  induction clusters generalizing sides with
  | nil => exact ⟨List.Subset.refl _, List.Subset.refl _⟩
  | cons cluster clusters ih =>
      obtain ⟨hleft, hright⟩ := left_subset_deal sides cluster
      obtain ⟨hleft', hright'⟩ := ih (sides.deal cluster)
      exact ⟨List.Subset.trans hleft hleft', List.Subset.trans hright hright'⟩

end ClusterSides

section

variable {clusters : List SeededCluster}

theorem splitSeededClustersBalanced_perm (sort : UnstableSort SeededCluster.before)
    (clusters : List SeededCluster) :
    ((splitSeededClustersBalanced sort clusters).1 ++
      (splitSeededClustersBalanced sort clusters).2).Perm clusters := by
  refine (ClusterSides.perm_refill _).trans ?_
  refine (ClusterSides.perm_foldl _ _).trans ?_
  exact (List.append_nil (sort.sort clusters)).symm ▸ sort.perm clusters

theorem splitSeededClustersBalanced_ne_nil (sort : UnstableSort SeededCluster.before)
    (h : 2 ≤ clusters.length) :
    (splitSeededClustersBalanced sort clusters).1 ≠ [] ∧
      (splitSeededClustersBalanced sort clusters).2 ≠ [] := by
  apply ClusterSides.refill_ne_nil
  rw [(ClusterSides.perm_foldl _ _).length_eq, List.length_append, (sort.perm clusters).length_eq]
  exact Nat.le_add_right_of_le h

/-- Where the first two clusters hold points, one goes to each side. -/
theorem refill_deal_deal {first second : SeededCluster} {rest : List SeededCluster}
    (hpos : first.points ≠ []) :
    ((first :: second :: rest).foldl ClusterSides.deal .empty).refill =
      (((first :: second :: rest).foldl ClusterSides.deal .empty).left,
        ((first :: second :: rest).foldl ClusterSides.deal .empty).right) := by
  have hlen : 0 < first.points.length := List.length_pos_iff.mpr hpos
  have hfirst : ClusterSides.empty.deal first = ⟨[first], [], first.points.length, 0⟩ := by
    simp [ClusterSides.deal, ClusterSides.empty]
  have hsecond : ClusterSides.deal ⟨[first], [], first.points.length, 0⟩ second =
      ⟨[first], [second], first.points.length, second.points.length⟩ := by
    simp [ClusterSides.deal, Nat.not_le.mpr hlen]
  rw [List.foldl_cons, List.foldl_cons, hfirst, hsecond]
  obtain ⟨hleft, hright⟩ := ClusterSides.subset_foldl rest
    ⟨[first], [second], first.points.length, second.points.length⟩
  exact ClusterSides.refill_eq (List.ne_nil_of_mem (hleft List.mem_cons_self))
    (List.ne_nil_of_mem (hright List.mem_cons_self))

/-- The sides of a split keep all clusters, are both in use, and differ by at most the largest
cluster. -/
theorem splitSeededClustersBalanced_balanced (sort : UnstableSort SeededCluster.before)
    (clusters : List SeededCluster) (hlen : 2 ≤ clusters.length)
    (hpos : ∀ cluster ∈ clusters, cluster.points ≠ []) :
    ((splitSeededClustersBalanced sort clusters).1 ++
      (splitSeededClustersBalanced sort clusters).2).Perm clusters ∧
    (splitSeededClustersBalanced sort clusters).1 ≠ [] ∧
    (splitSeededClustersBalanced sort clusters).2 ≠ [] ∧
    ∃ largest ∈ clusters, (∀ cluster ∈ clusters, cluster.points.length ≤ largest.points.length) ∧
      totalPoints (splitSeededClustersBalanced sort clusters).1 ≤
        totalPoints (splitSeededClustersBalanced sort clusters).2 + largest.points.length ∧
      totalPoints (splitSeededClustersBalanced sort clusters).2 ≤
        totalPoints (splitSeededClustersBalanced sort clusters).1 + largest.points.length := by
  obtain ⟨hleft, hright⟩ := splitSeededClustersBalanced_ne_nil sort hlen
  refine ⟨splitSeededClustersBalanced_perm sort clusters, hleft, hright, ?_⟩
  have hperm := sort.perm clusters
  have hsorted := sort.sorted clusters
  unfold splitSeededClustersBalanced
  match hsort : sort.sort clusters with
  | [] => simp [← hperm.length_eq, hsort] at hlen
  | [_] => simp [← hperm.length_eq, hsort] at hlen
  | first :: second :: rest =>
      rw [hsort] at hperm hsorted
      have hfirst : first ∈ clusters := hperm.mem_iff.mp List.mem_cons_self
      have hmax : ∀ cluster ∈ first :: second :: rest,
          cluster.points.length ≤ first.points.length := by
        intro cluster hcluster
        rcases List.mem_cons.mp hcluster with rfl | hcluster
        · exact Nat.le_refl _
        · exact (List.pairwise_cons.mp hsorted).1 cluster hcluster
      refine ⟨first, hfirst, fun cluster hcluster => hmax cluster (hperm.mem_iff.mpr hcluster), ?_⟩
      rw [refill_deal_deal (hpos first hfirst)]
      have hbalanced := (ClusterSides.balanced_empty first.points.length).foldl hmax
      rw [← hbalanced.left_total, ← hbalanced.right_total]
      exact ⟨hbalanced.left_le, hbalanced.right_le⟩

end

/-- Sorting by the number of points. -/
def largestFirst : UnstableSort SeededCluster.before where
  sort := (UnstableSort.byKey fun c : SeededCluster => OrderDual.toDual c.points.length).sort
  perm := (UnstableSort.byKey _).perm
  sorted := (UnstableSort.byKey fun c : SeededCluster => OrderDual.toDual c.points.length).sorted

/-- Clusters of two, three and two points. -/
def threeClusters : List SeededCluster := [⟨[1, 2], 0⟩, ⟨[3, 4, 5], 1⟩, ⟨[6, 7], 2⟩]

theorem splitSeededClustersBalanced_balanced_three :
    ((splitSeededClustersBalanced largestFirst threeClusters).1 ++
      (splitSeededClustersBalanced largestFirst threeClusters).2).Perm threeClusters ∧
    (splitSeededClustersBalanced largestFirst threeClusters).1 ≠ [] ∧
    (splitSeededClustersBalanced largestFirst threeClusters).2 ≠ [] ∧
    ∃ largest ∈ threeClusters,
      (∀ cluster ∈ threeClusters, cluster.points.length ≤ largest.points.length) ∧
      totalPoints (splitSeededClustersBalanced largestFirst threeClusters).1 ≤
        totalPoints (splitSeededClustersBalanced largestFirst threeClusters).2 +
          largest.points.length ∧
      totalPoints (splitSeededClustersBalanced largestFirst threeClusters).2 ≤
        totalPoints (splitSeededClustersBalanced largestFirst threeClusters).1 +
          largest.points.length :=
  splitSeededClustersBalanced_balanced largestFirst threeClusters (by decide) (by decide)

/-! ## The joins -/

/-- `parallel_join_clusters` over the recursion into one cluster, with the clusters recursed into. A
join runs both of its sides, also where one of them fails. -/
def parallelJoinClusters {S : Type} (sort : UnstableSort SeededCluster.before) (fresh : Nat → S)
    (mergeFrom : S → S → S) (rbcRecurseParallel : SeededCluster → AnnResult S) (adaptiveCMax : Nat)
    (clusters : List SeededCluster) : List SeededCluster × AnnResult S :=
  let stats := fresh (max (totalPoints clusters / max adaptiveCMax 1) 4)
  match clusters with
  | [] => ([], .ok stats)
  | [cluster] => ([cluster], do return mergeFrom stats (← rbcRecurseParallel cluster))
  | first :: second :: rest =>
      let sides := splitSeededClustersBalanced sort (first :: second :: rest)
      let left := parallelJoinClusters sort fresh mergeFrom rbcRecurseParallel adaptiveCMax sides.1
      let right := parallelJoinClusters sort fresh mergeFrom rbcRecurseParallel adaptiveCMax sides.2
      (left.1 ++ right.1, do return mergeFrom (mergeFrom stats (← left.2)) (← right.2))
termination_by clusters.length
decreasing_by
  all_goals
    have hlen : 2 ≤ (first :: second :: rest).length := Nat.le_add_left 2 rest.length
    have hsides := (splitSeededClustersBalanced_perm sort (first :: second :: rest)).length_eq
    obtain ⟨hleft, hright⟩ := splitSeededClustersBalanced_ne_nil sort hlen
    have := List.length_pos_iff.mpr hleft
    have := List.length_pos_iff.mpr hright
    rw [List.length_append] at hsides
    omega

section

variable {S : Type} (sort : UnstableSort SeededCluster.before) (fresh : Nat → S)
  (mergeFrom : S → S → S) {rbcRecurseParallel : SeededCluster → AnnResult S} (adaptiveCMax : Nat)

/-- The joins recurse into every cluster once. -/
theorem parallelJoinClusters_perm (rbcRecurseParallel : SeededCluster → AnnResult S)
    (clusters : List SeededCluster) :
    (parallelJoinClusters sort fresh mergeFrom rbcRecurseParallel adaptiveCMax clusters).1.Perm
      clusters := by
  fun_induction parallelJoinClusters sort fresh mergeFrom rbcRecurseParallel adaptiveCMax clusters with
  | case1 => exact List.Perm.refl _
  | case2 => exact List.Perm.refl _
  | case3 first second rest sides left right stats ihleft ihright =>
      exact (ihleft.append ihright).trans (splitSeededClustersBalanced_perm sort _)

/-- They fail exactly if one of the recursions does. -/
theorem parallelJoinClusters_isOk_iff (clusters : List SeededCluster) :
    (parallelJoinClusters sort fresh mergeFrom rbcRecurseParallel adaptiveCMax clusters).2.isOk = true ↔
      ∀ cluster ∈ clusters, (rbcRecurseParallel cluster).isOk = true := by
  fun_induction parallelJoinClusters sort fresh mergeFrom rbcRecurseParallel adaptiveCMax clusters with
  | case1 => exact ⟨fun _ _ h => (nomatch h), fun _ => rfl⟩
  | case2 cluster =>
      rw [List.forall_mem_singleton]
      cases rbcRecurseParallel cluster <;> exact Iff.rfl
  | case3 first second rest sides left right stats ihleft ihright =>
      have hmem := fun cluster =>
        (splitSeededClustersBalanced_perm sort (first :: second :: rest)).mem_iff (a := cluster)
      have hboth : (∀ cluster ∈ first :: second :: rest, (rbcRecurseParallel cluster).isOk = true) ↔
          left.2.isOk = true ∧ right.2.isOk = true := by
        rw [ihleft, ihright, ← List.forall_mem_append]
        exact forall_congr' fun cluster => imp_congr (hmem cluster).symm Iff.rfl
      rw [hboth]
      cases left.2 <;> cases right.2 <;> simp [Except.isOk, Except.toBool, bind, Except.bind,
        pure, Except.pure]

end

end ForgeANN
