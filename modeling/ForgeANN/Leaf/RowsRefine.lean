-- SUMMARY: The rows that are handed out are those in the slots, whatever earlier leaves left there.
import ForgeANN.Leaf.LeafEmission
import ForgeANN.Leaf.RowTopKSorted

/-!
# Rows in slots

The code keeps a row in 32 slots that are reused from leaf to leaf. Pushes into
slots refine those into lists, overflow included, and so the edges and witnesses of
a leaf are those of the rows in its slots.
-/
namespace ForgeANN

open Lib

/-! ## One row -/

namespace RowTopK

variable {row : RowTopK} {k i : Nat} {dist : Nat → AnnResult F32}

/-- The slots in use are slots, and no more than asked for. -/
structure Fits (k : Nat) (row : RowTopK) : Prop where
  le_k : row.len ≤ k
  le_slots : row.len ≤ 32

theorem fits_clear (k : Nat) (row : RowTopK) : row.clear.Fits k := ⟨Nat.zero_le k, Nat.zero_le 32⟩

/-- Farthest first, as the list has them. -/
def entries (row : RowTopK) : List (Nat × F32) := row.iter.reverse

theorem entries_length (h : row.Fits k) : row.entries.length = row.len := by
  rw [entries, List.length_reverse, iter, List.length_take, Vector.length_toList]
  exact min_eq_left h.le_slots

theorem push_refines (h : row.Fits k) (entry : Nat × F32) :
    F32.arith.push k entry.1 entry.2 row.entries =
        (row.push k entry.1 entry.2).map entries ∧
      ∀ row', row.push k entry.1 entry.2 = .ok row' → row'.Fits k := by
  rcases le_or_gt k 32 with hk | hk
  · obtain ⟨row', hrun, hlen, hkept⟩ := push_eq hk h.le_k entry
    rw [hrun, F32.arith.push_eq_pushBounded hk (by rw [entries_length h]; exact h.le_k)]
    refine ⟨congrArg Except.ok hkept.symm, fun row'' hrow => ?_⟩
    cases hrow
    exact ⟨by omega, by omega⟩
  · -- the slots are fewer than the neighbours asked for
    have hroom : row.len < k := Nat.lt_of_le_of_lt h.le_slots hk
    have hzero : k ≠ 0 := Nat.ne_of_gt (Nat.lt_of_le_of_lt (Nat.zero_le 32) hk)
    rw [DistArith.push, if_neg hzero, entries_length h, RowTopK.push, if_neg hzero, if_pos hroom]
    rcases Nat.lt_or_eq_of_le h.le_slots with hlt | hfull
    · obtain ⟨buf', hrun, hfront, -⟩ := insertAt_eq entry hlt row.buf
      have hinsert : pushBounded F32.arith.nearer F32.arith.notNearer k row.entries entry =
          insertFromBack F32.arith.nearer entry row.entries := by
        unfold pushBounded
        exact if_pos (by rwa [entries_length h])
      rw [if_neg (by omega), hrun, ok_bind, hinsert]
      refine ⟨?_, fun row' hrow => ?_⟩
      · refine congrArg Except.ok ?_
        rw [entries, entries, iter, iter, hfront, List.reverse_reverse]
        rfl
      · cases hrow
        exact ⟨hroom, hlt⟩
    · rw [if_pos ⟨hroom, hfull.ge⟩, hfull, insertAt_overflow]
      exact ⟨rfl, fun row' hrow => by cases hrow⟩

/-- All pushes of a row, into slots that hold what fits. -/
theorem pushOthers_refines (h : row.Fits k) (js : List Nat) :
    js.foldlM (fun entries j =>
      if j = i then .ok entries
      else do
        let d ← dist j
        F32.arith.push k j d entries) row.entries =
      (pushOthers k i dist js row).map entries := by
  induction js generalizing row with
  | nil => rfl
  | cons j js ih =>
      rw [List.foldlM_cons]
      by_cases hj : j = i
      · rw [if_pos hj, hj, pushOthers_cons_self]
        exact ih h
      · rw [if_neg hj, pushOthers_cons hj]
        cases dist j with
        | error e => rfl
        | ok d =>
            obtain ⟨hpush, hfits⟩ := push_refines h (j, d)
            rw [ok_bind, ok_bind, hpush]
            cases hrow : row.push k j d with
            | error e => rfl
            | ok row' => exact ih (hfits row' hrow)

/-- A row does not depend on what its slots held before. -/
theorem rowTopk_refines (k i n : Nat) (dist : Nat → AnnResult F32) (scratch : RowTopK) :
    F32.arith.rowTopk k i n dist =
      (pushOthers k i dist (List.range n) scratch.clear).map iter := by
  rw [DistArith.rowTopk, show ([] : List (Nat × F32)) = scratch.clear.entries from rfl,
    pushOthers_refines (fits_clear k scratch)]
  cases pushOthers k i dist (List.range n) scratch.clear with
  | error e => rfl
  | ok row => exact congrArg Except.ok (List.reverse_reverse _)

end RowTopK

/-! ## The rows of a leaf -/

/-- A mapping whose results are mapped once more. -/
theorem mapM_refines {α β γ : Type} {f : α → AnnResult β} {g : α → AnnResult γ} {view : β → γ}
    {l : List α} (h : ∀ a ∈ l, g a = (f a).map view) : l.mapM g = (l.mapM f).map (List.map view) := by
  induction l with
  | nil => rfl
  | cons a l ih =>
      rw [List.mapM_cons, List.mapM_cons, h a List.mem_cons_self,
        ih fun b hb => h b (List.mem_cons_of_mem a hb)]
      cases f a with
      | error e => rfl
      | ok b =>
          cases l.mapM f with
          | error e => rfl
          | ok bs => rfl

theorem bind_ok_eq_map {α β : Type} (r : AnnResult α) (f : α → β) :
    (r >>= fun a => Except.ok (f a)) = r.map f := by
  cases r with
  | error e => rfl
  | ok a => rfl

/-- The paths over a source, with the sketches of its leaves. -/
def LeafStore.ofSource (src : LeafSource) (params : LeafEmitParams)
    (prefetch : List UInt32 → AnnResult (List (List F32))) : LeafStore F32 where
  arith := F32.arith
  readPoint := src.readPoint
  getDistance := src.getDistance
  prefetch := prefetch
  norm := src.norm
  matMul := src.matMul
  computeLeafAdsamplingForParams := src.computeLeafAdsamplingForParams params.toLeafParams

namespace LeafStore

variable (src : LeafSource) (params : LeafEmitParams)
  (prefetch : List UInt32 → AnnResult (List (List F32))) (metric : Metric) (leaf : List UInt32)
  (wants : Bool)

theorem matrixRows_refines (k : Nat) (dmat : Nat → Nat → F32) (scratch : List RowTopK) :
    (ofSource src params prefetch).matrixRows leaf k dmat =
      (LeafSource.matrixRows leaf k dmat scratch).map (List.map RowTopK.iter) :=
  mapM_refines fun i _ => RowTopK.rowTopk_refines k i leaf.length _ (scratch.getD i .empty)

theorem blockTopk_refines (byProduct : Bool) (points : List (List F32)) (k : Nat)
    (scratch : Nat → RowTopK) (block : List Nat) :
    (ofSource src params prefetch).blockTopk leaf byProduct points k block =
      (src.blockTopk leaf byProduct points k (fun i => (scratch i).clear) block).map
        (List.map RowTopK.iter) :=
  mapM_refines fun p _ => RowTopK.rowTopk_refines k p.1 leaf.length _ (scratch p.1)

theorem blocksTopk_refines (byProduct : Bool) (points : List (List F32)) (k blockRows : Nat)
    (scratch : Nat → RowTopK) :
    ((chunks blockRows (List.range leaf.length)).mapM
      ((ofSource src params prefetch).blockTopk leaf byProduct points k)).map List.flatten =
      (src.blocksTopk leaf byProduct points k blockRows fun i => (scratch i).clear).map
        (List.map RowTopK.iter) := by
  rw [mapM_refines fun block _ =>
    blockTopk_refines src params prefetch leaf byProduct points k scratch block]
  unfold LeafSource.blocksTopk
  cases (chunks blockRows (List.range leaf.length)).mapM
      (src.blockTopk leaf byProduct points k fun i => (scratch i).clear) with
  | error e => rfl
  | ok blocks => exact congrArg Except.ok List.map_flatten.symm

/-- What becomes of the rows of a leaf: with the product's distances at hand the witnesses are
looked for behind the edges, and with those of the points before them. -/
def handOut (src : LeafStore F32) (points : List (List F32)) (rows : List (List (Nat × F32))) :
    LeafRun F32 Unit :=
  if params.shouldUseLeafAdsamplingExecutor metric leaf.length then do
    src.emitRowTopkEdges params leaf rows
    src.emitLuneWitnesses leaf wants (src.arith.l2Dist2 points) rows
  else if params.kernelSafeLeafSize < leaf.length then do
    if metric = .l2 then src.emitLuneWitnesses leaf wants (src.arith.l2Dist2 points) rows
    let cache ← Emission.lift (src.prefetch leaf)
    emitEdges params leaf cache rows
  else do
    let cache ← Emission.lift (src.prefetch leaf)
    emitEdges params leaf cache rows
    if metric = .l2 then src.emitLuneWitnesses leaf wants (src.productDistances points) rows

theorem ofPairs_none {D : Type} {params : LeafEmitParams} {leaf : List UInt32}
    {path : Nat → LeafRun D Unit}
    (h : leaf.length ≤ 1 ∨ min params.leafKnn (leaf.length - 1) = 0) :
    ofPairs params leaf path = pure () := if_pos h

theorem ofPairs_some {D : Type} {params : LeafEmitParams} {leaf : List UInt32}
    {path : Nat → LeafRun D Unit}
    (h : ¬ (leaf.length ≤ 1 ∨ min params.leafKnn (leaf.length - 1) = 0)) :
    ofPairs params leaf path = path (min params.leafKnn (leaf.length - 1)) := if_neg h

/-- Points are looked at under L2 only. -/
theorem handOut_points {metric : Metric} (hmetric : metric ≠ .l2) (src : LeafStore F32)
    (points points' : List (List F32)) (rows : List (List (Nat × F32))) :
    handOut params metric leaf wants src points rows =
      handOut params metric leaf wants src points' rows := by
  simp only [handOut, if_neg fun h : params.shouldUseLeafAdsamplingExecutor metric leaf.length =>
    hmetric h.1, if_neg hmetric]

section

variable (scratch : List RowTopK) (hpairs : ¬ (leaf.length ≤ 1 ∨
  min params.leafKnn (leaf.length - 1) = 0))

include hpairs

/-- A leaf in blocks. -/
theorem blockwise_refines (hsize : params.kernelSafeLeafSize < leaf.length) :
    (ofSource src params prefetch).processLeafBlockwise params metric leaf wants BLOCK_SIZE = (do
      let rows ← Emission.lift (src.processLeafBlockwise params.toLeafParams metric leaf scratch)
      let points ← Emission.lift (if metric = .l2 then leaf.mapM src.readPoint else .ok [])
      handOut params metric leaf wants (ofSource src params prefetch) points rows) := by
  rw [processLeafBlockwise, ofPairs_some hpairs]
  unfold LeafSource.processLeafBlockwise
  dsimp only
  rw [if_neg hpairs, show (ofSource src params prefetch).readPoint = src.readPoint from rfl]
  cases hread : leaf.mapM src.readPoint with
  | error e => rfl
  | ok points =>
      have hpoints : ∀ rows, (do
          let points ← Emission.lift (if metric = .l2 then .ok points else .ok [])
          handOut params metric leaf wants (ofSource src params prefetch) points rows) =
          handOut params metric leaf wants (ofSource src params prefetch) points rows := by
        intro rows
        split_ifs with hmetric
        · rfl
        · exact handOut_points params leaf wants hmetric _ _ _ rows
      rw [Emission.lift_ok, pure_bind, ok_bind]
      simp only [hpoints]
      by_cases hads : params.shouldUseLeafAdsamplingExecutor metric leaf.length
      · simp only [if_pos hads, handOut, adsamplingPath]
        rfl
      · have hrows := blocksTopk_refines src params prefetch leaf (metric = .l2) points
          (min params.leafKnn (leaf.length - 1)) BLOCK_SIZE (fun i => scratch.getD i .empty)
        simp only [if_neg hads, if_pos hsize, handOut]
        rw [bind_ok_eq_map, ← hrows]
        cases (chunks BLOCK_SIZE (List.range leaf.length)).mapM
          ((ofSource src params prefetch).blockTopk leaf (metric = .l2) points
            (min params.leafKnn (leaf.length - 1))) with
        | error e => rfl
        | ok blocks => rfl

/-- A leaf of the full matrix. -/
theorem fullMatrix_refines (hsize : ¬ params.kernelSafeLeafSize < leaf.length) :
    (ofSource src params prefetch).processLeafFullMatrix params metric leaf wants = (do
      let rows ← Emission.lift (src.processLeafFullMatrix params.toLeafParams metric leaf
        (min params.leafKnn (leaf.length - 1)) scratch)
      let points ← Emission.lift (if metric = .l2 then leaf.mapM src.readPoint else .ok [])
      handOut params metric leaf wants (ofSource src params prefetch) points rows) := by
  rw [processLeafFullMatrix, ofPairs_some hpairs]
  unfold LeafSource.processLeafFullMatrix
  by_cases hmetric : metric = .l2
  · simp only [if_pos hmetric]
    rw [show (ofSource src params prefetch).readPoint = src.readPoint from rfl]
    cases hread : leaf.mapM src.readPoint with
    | error e => rfl
    | ok points =>
        rw [Emission.lift_ok, pure_bind, ok_bind]
        simp only [pure_bind]
        by_cases hads : params.shouldUseLeafAdsamplingExecutor metric leaf.length
        · simp only [if_pos hads, handOut, adsamplingPath]
          rfl
        · simp only [if_neg hads, if_neg hsize, if_pos hmetric, handOut]
          rw [bind_ok_eq_map, matrixRows_refines src params prefetch leaf _ _ scratch]
          rfl
  · have hads : ¬ params.shouldUseLeafAdsamplingExecutor metric leaf.length := fun h => hmetric h.1
    simp only [if_neg hmetric, if_neg hads, if_neg hsize, handOut]
    rw [show (ofSource src params prefetch).pairDistances leaf = src.pairDistances leaf from rfl]
    cases src.pairDistances leaf with
    | error e => rfl
    | ok dmat =>
        rw [Emission.lift_ok, pure_bind, ok_bind, bind_ok_eq_map,
          matrixRows_refines src params prefetch leaf _ _ scratch]
        cases LeafSource.matrixRows leaf (min params.leafKnn (leaf.length - 1)) dmat scratch with
        | error e => rfl
        | ok rows =>
            simp only [Except.map, Emission.lift_ok, pure_bind, bind_pure_unit]

end

end LeafStore

/-- What a leaf hands to the sink is made of the rows in its slots, and of what it reads. -/
theorem processLeaf_refines (src : LeafSource) (params : LeafEmitParams)
    (prefetch : List UInt32 → AnnResult (List (List F32))) (metric : Metric) (leaf : List UInt32)
    (wants : Bool) (scratch : List RowTopK) :
    (LeafStore.ofSource src params prefetch).processLeaf params metric leaf wants =
      LeafStore.ofPairs params leaf (fun _ => do
        let rows ← Emission.lift (src.processLeaf params.toLeafParams metric leaf scratch)
        let points ← Emission.lift (if metric = .l2 then leaf.mapM src.readPoint else .ok [])
        LeafStore.handOut params metric leaf wants (.ofSource src params prefetch) points rows) := by
  rw [LeafStore.processLeaf]
  by_cases hpairs : leaf.length ≤ 1 ∨ min params.leafKnn (leaf.length - 1) = 0
  · rw [LeafStore.ofPairs_none hpairs, LeafStore.ofPairs_none hpairs]
  rw [LeafStore.ofPairs_some hpairs, LeafStore.ofPairs_some hpairs]
  unfold LeafSource.processLeaf
  rw [if_neg hpairs]
  by_cases hsize : params.kernelSafeLeafSize < leaf.length
  · rw [if_pos hsize, if_pos hsize]
    exact LeafStore.blockwise_refines src params prefetch metric leaf wants scratch hpairs hsize
  · rw [if_neg hsize, if_neg hsize]
    exact LeafStore.fullMatrix_refines src params prefetch metric leaf wants scratch hpairs hsize

end ForgeANN
