-- SUMMARY: What the merge of small clusters is made of: whole inputs, and several only within the limit.
import ForgeANN.Rbc.Merge

/-!
# What merged clusters are built from

Each merged cluster is one of the inputs, or several of them one behind the
other; only then does the limit `c_max` apply.
-/
namespace ForgeANN

/-- The outputs are made of groups of inputs, each input in one group; only groups of several
inputs are held to the limit. -/
def BuiltFrom (cMax : Nat) (inputs outputs : List (List UInt32)) : Prop :=
  ∃ groups : List (List (List UInt32)), outputs = groups.map List.flatten ∧
    groups.flatten.Perm inputs ∧
      ∀ group ∈ groups, group ≠ [] ∧ (2 ≤ group.length → group.flatten.length ≤ cMax)

namespace BuiltFrom

variable {cMax : Nat} {inputs inputs' outputs : List (List UInt32)} {a b cluster : List UInt32}

theorem nil : BuiltFrom cMax [] [] := ⟨[], rfl, .nil, fun _ h => nomatch h⟩

theorem perm (h : BuiltFrom cMax inputs outputs) (hperm : inputs.Perm inputs') :
    BuiltFrom cMax inputs' outputs := by
  obtain ⟨groups, houtputs, hgroups, hlimit⟩ := h
  exact ⟨groups, houtputs, hgroups.trans hperm, hlimit⟩

/-- An input of its own. -/
theorem add (h : BuiltFrom cMax inputs outputs) (cluster : List UInt32) :
    BuiltFrom cMax (cluster :: inputs) (outputs ++ [cluster]) := by
  obtain ⟨groups, rfl, hgroups, hlimit⟩ := h
  refine ⟨groups ++ [[cluster]], ?_, ?_, fun group hgroup => ?_⟩
  · rw [List.map_append, List.map_singleton, List.flatten_singleton]
  · rw [List.flatten_append, List.flatten_singleton]
    exact List.perm_append_comm.trans (hgroups.cons cluster)
  · rcases List.mem_append.mp hgroup with hgroup | hgroup
    · exact hlimit group hgroup
    · rw [List.mem_singleton.mp hgroup]
      exact ⟨List.cons_ne_nil _ _, fun htwo => absurd htwo (Nat.lt_irrefl 1)⟩

/-- The last two outputs become one, in either order. -/
theorem join (h : BuiltFrom cMax inputs (outputs ++ [a, b])) (hfits : a.length + b.length ≤ cMax) :
    BuiltFrom cMax inputs (outputs ++ [a ++ b]) ∧ BuiltFrom cMax inputs (outputs ++ [b ++ a]) := by
  obtain ⟨groups, houtputs, hgroups, hlimit⟩ := h
  obtain ⟨front, tail, rfl, rfl, htail⟩ := List.map_eq_append_iff.mp houtputs.symm
  obtain ⟨first, rest, rfl, rfl, hrest⟩ := List.map_eq_cons_iff.mp htail
  obtain ⟨second, last, rfl, rfl, hlast⟩ := List.map_eq_cons_iff.mp hrest
  rw [List.map_eq_nil_iff] at hlast
  subst hlast
  have hfront : ∀ group ∈ front, group ≠ [] ∧ (2 ≤ group.length → group.flatten.length ≤ cMax) :=
    fun group hgroup => hlimit group (List.mem_append_left _ hgroup)
  have hfirst : first ≠ [] := (hlimit first (by simp)).1
  have hsecond : second ≠ [] := (hlimit second (by simp)).1
  have hflat : (front ++ [first, second]).flatten = front.flatten ++ (first ++ second) := by simp
  rw [hflat] at hgroups
  constructor
  · refine ⟨front ++ [first ++ second], by simp, by simpa using hgroups, fun group hgroup => ?_⟩
    rcases List.mem_append.mp hgroup with hgroup | hgroup
    · exact hfront group hgroup
    · rw [List.mem_singleton.mp hgroup]
      refine ⟨List.append_ne_nil_of_left_ne_nil hfirst _, fun _ => ?_⟩
      rw [List.flatten_append, List.length_append]
      exact hfits
  · refine ⟨front ++ [second ++ first], by simp, ?_, fun group hgroup => ?_⟩
    · rw [List.flatten_append, List.flatten_singleton]
      exact (List.perm_append_comm.append_left _).trans hgroups
    · rcases List.mem_append.mp hgroup with hgroup | hgroup
      · exact hfront group hgroup
      · rw [List.mem_singleton.mp hgroup]
        refine ⟨List.append_ne_nil_of_left_ne_nil hsecond _, fun _ => ?_⟩
        rw [List.flatten_append, List.length_append, Nat.add_comm]
        exact hfits

end BuiltFrom

variable {cMin cMax : Nat} {inputs : List (List UInt32)} {st : MergeState (List UInt32)}

/-- One step puts its cluster beside the others, or onto the small one that grows. -/
theorem mergeClustersStep_builtFrom (h : BuiltFrom cMax inputs (st.result ++ st.currentSmall.toList))
    (cluster : List UInt32) :
    BuiltFrom cMax (cluster :: inputs) ((mergeClustersStep cMin cMax st cluster).result ++
      (mergeClustersStep cMin cMax st cluster).currentSmall.toList) := by
  obtain ⟨result, small⟩ := st
  have hadd := h.add cluster
  cases small with
  | none =>
      simp only [Option.toList_none, List.append_nil] at hadd
      simp only [mergeClustersStep]
      split_ifs
      · simpa using hadd
      · exact hadd
  | some small =>
      simp only [Option.toList_some, List.append_assoc, List.singleton_append] at hadd
      simp only [mergeClustersStep]
      split_ifs with hlarge hfits hfits
      · simpa using (hadd.join hfits).2
      · simpa using hadd
      · exact (hadd.join hfits).1
      · simpa using hadd

theorem mergeClustersFinish_builtFrom
    (h : BuiltFrom cMax inputs (st.result ++ st.currentSmall.toList)) :
    BuiltFrom cMax inputs (mergeClustersFinish cMax st) := by
  obtain ⟨result, small⟩ := st
  cases small with
  | none => simpa [mergeClustersFinish] using h
  | some small =>
      rcases List.eq_nil_or_concat' result with rfl | ⟨init, last, rfl⟩
      · exact h
      · simp only [mergeClustersFinish, List.getLast?_concat, List.dropLast_concat]
        split_ifs with hfits
        · simp only [Option.toList_some, List.append_assoc, List.singleton_append] at h
          exact (h.join hfits).1
        · exact h

/-- The merged clusters are built from the nonempty inputs. -/
theorem mergeClusters_builtFrom (clusters : List (List UInt32)) (cMin cMax : Nat) :
    BuiltFrom cMax (clusters.filter fun cluster => cluster ≠ []) (mergeClusters clusters cMin cMax) := by
  have hfold : ∀ (clusters inputs : List (List UInt32)) (st : MergeState (List UInt32)),
      BuiltFrom cMax inputs (st.result ++ st.currentSmall.toList) →
      BuiltFrom cMax (clusters ++ inputs) ((clusters.foldl (mergeClustersStep cMin cMax) st).result ++
        (clusters.foldl (mergeClustersStep cMin cMax) st).currentSmall.toList) := by
    intro clusters
    induction clusters with
    | nil => exact fun inputs st h => h
    | cons cluster clusters ih =>
        intro inputs st h
        exact (ih _ _ (mergeClustersStep_builtFrom h cluster)).perm List.perm_middle
  refine (mergeClustersFinish_builtFrom (hfold _ [] ⟨[], none⟩ .nil)).perm ?_
  rw [List.append_nil]
  exact List.mergeSort_perm _ _

/-- The most points that a cluster of the list has. -/
def largestCluster (clusters : List (List UInt32)) : Nat := (clusters.map List.length).foldr max 0

theorem length_le_largestCluster {clusters : List (List UInt32)} {cluster : List UInt32}
    (h : cluster ∈ clusters) : cluster.length ≤ largestCluster clusters := by
  induction clusters with
  | nil => cases h
  | cons first clusters ih =>
      rw [largestCluster, List.map_cons, List.foldr_cons]
      rcases List.mem_cons.mp h with rfl | h
      · exact Nat.le_max_left ..
      · exact Nat.le_trans (ih h) (Nat.le_max_right ..)

/-- Merging keeps the points, leaves no cluster empty, and joins inputs only within the limit. -/
theorem mergeClusters_safe (clusters : List (List UInt32)) (cMin cMax : Nat) :
    (mergeClusters clusters cMin cMax).flatten.Perm clusters.flatten ∧
      (∀ output ∈ mergeClusters clusters cMin cMax, output ≠ []) ∧
      BuiltFrom cMax (clusters.filter fun cluster => cluster ≠ [])
        (mergeClusters clusters cMin cMax) ∧
      ∀ output ∈ mergeClusters clusters cMin cMax,
        output.length ≤ max cMax (largestCluster clusters) := by
  have hbuilt := mergeClusters_builtFrom clusters cMin cMax
  refine ⟨mergeClusters_points clusters cMin cMax, ?_, hbuilt, ?_⟩
  all_goals
    intro output houtput
    obtain ⟨groups, houtputs, hgroups, hlimit⟩ := hbuilt
    rw [houtputs] at houtput
    obtain ⟨group, hgroup, rfl⟩ := List.mem_map.mp houtput
    obtain ⟨hne, hfits⟩ := hlimit group hgroup
    obtain ⟨first, rest, rfl⟩ := List.exists_cons_of_ne_nil hne
    have hfirst : first ∈ clusters.filter fun cluster => cluster ≠ [] :=
      hgroups.mem_iff.mp (List.mem_flatten_of_mem hgroup List.mem_cons_self)
    obtain ⟨hmem, hnonempty⟩ := List.mem_filter.mp hfirst
  · rw [List.flatten_cons]
    exact List.append_ne_nil_of_left_ne_nil (of_decide_eq_true hnonempty) _
  · cases rest with
    | nil =>
        rw [List.flatten_singleton]
        exact Nat.le_trans (length_le_largestCluster hmem) (Nat.le_max_right ..)
    | cons second rest =>
        exact Nat.le_trans (hfits (Nat.le_add_left ..)) (Nat.le_max_left ..)

end ForgeANN
