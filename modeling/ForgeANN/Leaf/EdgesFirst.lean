-- SUMMARY: When the edges of a leaf come before its lune witnesses, path by path.
import ForgeANN.Leaf.ReadyLeaf
import Mathlib.Data.List.Zip

/-!
# Edges first

An accumulator passes over witnesses of candidates it does not know yet. The full
matrix hands out all edges before any witness, and so does ADSampling. Block by
block the witnesses come first, and blocks in parallel alternate, so that a
witness of any block but the last comes before edges.
-/
namespace ForgeANN

open Lib LeafFlush

/-- The paths of a leaf. -/
inductive LeafPath where
  | fullMatrix
  | blockwise (blockSize : Nat) (blockSize_pos : 0 < blockSize)
  | parallel (blockRows threads : Nat)

namespace LeafPath

variable {D : Type} {src : LeafStore D} {params : LeafEmitParams} (l : ReadyLeaf src params)
  (metric : Metric) (wants : Bool)

def run (src : LeafStore D) (params : LeafEmitParams) (metric : Metric) (leaf : List UInt32)
    (wants : Bool) : LeafPath → LeafRun D Unit
  | .fullMatrix => src.processLeafFullMatrix params metric leaf wants
  | .blockwise blockSize _ => src.processLeafBlockwise params metric leaf wants blockSize
  | .parallel blockRows threads =>
      src.processLeafParallelLarge params metric leaf wants blockRows threads

/-- A witness that edges come behind. -/
def HasEarlyWitness : LeafPath → Prop
  | .fullMatrix => False
  | .blockwise blockSize _ => wants = true ∧
      ∃ block ∈ chunks blockSize (List.range l.leaf.length), l.blockWitnesses true block ≠ []
  | .parallel blockRows _ =>
      ∃ block ∈ (l.parallelBlocks blockRows).dropLast, l.blockWitnesses wants block ≠ []

end LeafPath

namespace LeafStore

variable {D : Type} (src : LeafStore D) (params : LeafEmitParams) (leaf : List UInt32) (wants : Bool)

/-- Whatever the executor of ADSampling returns. -/
theorem adsamplingPath_edgesFirst (points : List (List D)) (k : Nat) :
    EdgesFirst (src.adsamplingPath params leaf wants points k).emitted := by
  rw [adsamplingPath]
  cases src.computeLeafAdsamplingForParams points k with
  | error e => exact List.Pairwise.nil
  | ok rows =>
      obtain ⟨edges, result, hedges⟩ := src.emitRowTopkEdges_edges params leaf rows
      obtain ⟨witnesses, hwitnesses, -⟩ :=
        src.emitLuneWitnesses_witnesses leaf rows wants (src.arith.l2Dist2 points)
      rw [Emission.lift_ok, pure_bind, hedges]
      cases result with
      | error e => exact edgesFirst_of_no_witnesses (witnessesOf_map_edges edges)
      | ok _ =>
          rw [hwitnesses]
          exact edgesFirst_append.mpr
            ⟨edgesFirst_of_no_witnesses (witnessesOf_map_edges edges),
              edgesFirst_of_no_edges (edgesOf_map_witnesses witnesses),
              .inl (witnessesOf_map_edges edges)⟩

end LeafStore

namespace ReadyLeaf

variable {D : Type} {src : LeafStore D} {params : LeafEmitParams} (l : ReadyLeaf src params)
  (metric : Metric) (wants : Bool)

/-! ## Rows by blocks -/

/-- Row by row, with the place of each, or block by block. -/
theorem flatMap_blockwiseRows {γ : Type} {blockSize : Nat} (hsize : 0 < blockSize)
    (f : Nat → List (Nat × D) → List γ) :
    ((l.blockwiseRows metric blockSize).zipIdx.flatMap fun p => f p.2 p.1) =
      (chunks blockSize (List.range l.leaf.length)).flatMap fun block =>
        (block.zip (l.blockRows (metric = .l2) block)).flatMap fun p => f p.1 p.2 := by
  have hzip : ∀ blocks : List (List Nat),
      blocks.flatten.zip (blocks.flatMap (l.blockRows (metric = .l2))) =
        blocks.flatMap fun block => block.zip (l.blockRows (metric = .l2) block) := by
    intro blocks
    induction blocks with
    | nil => rfl
    | cons block blocks ih =>
        rw [List.flatten_cons, List.flatMap_cons, List.flatMap_cons,
          List.zip_append (l.blockRows_length _ block).symm, ih]
  have hplaces : (l.blockwiseRows metric blockSize).zipIdx =
      ((List.range l.leaf.length).zip (l.blockwiseRows metric blockSize)).map Prod.swap := by
    rw [List.zipIdx_eq_zip_range', (l.blockwise_rows metric hsize).length, List.zip_swap,
      List.range_eq_range']
  have hblocks := hzip (chunks blockSize (List.range l.leaf.length))
  rw [chunks_flatten hsize] at hblocks
  rw [hplaces, List.flatMap_map, blockwiseRows, hblocks, List.flatMap_assoc]
  rfl

/-! ## Runs that are the same on every path -/

/-- Where ADSampling takes the leaf, the metric is L2. -/
theorem run_adsampling (hpairs : l.HasPairs)
    (hads : params.shouldUseLeafAdsamplingExecutor metric l.leaf.length) (path : LeafPath) :
    path.run src params metric l.leaf wants =
      src.adsamplingPath params l.leaf wants l.points l.k := by
  cases path with
  | fullMatrix =>
      rw [LeafPath.run, LeafStore.processLeafFullMatrix, l.ofPairs_eq hpairs, if_pos hads.1,
        l.read, Emission.lift_ok, pure_bind, if_pos hads]
  | blockwise blockSize hsize =>
      rw [LeafPath.run, LeafStore.processLeafBlockwise, l.ofPairs_eq hpairs, l.read,
        Emission.lift_ok, pure_bind, if_pos hads]
  | parallel blockRows threads =>
      rw [LeafPath.run, LeafStore.processLeafParallelLarge, l.ofPairs_eq hpairs, l.read,
        Emission.lift_ok, pure_bind, if_pos hads]

theorem run_without (hpairs : ¬ l.HasPairs) (path : LeafPath) :
    path.run src params metric l.leaf wants = pure () := by
  cases path with
  | fullMatrix =>
      rw [LeafPath.run, LeafStore.processLeafFullMatrix]
      exact l.ofPairs_without hpairs
  | blockwise blockSize hsize =>
      rw [LeafPath.run, LeafStore.processLeafBlockwise]
      exact l.ofPairs_without hpairs
  | parallel blockRows threads =>
      rw [LeafPath.run, LeafStore.processLeafParallelLarge]
      exact l.ofPairs_without hpairs

/-! ## Rows with entries -/

/-- A row has entries, and edges of them. -/
theorem blockEdges_ne_nil (h : l.HasPairs) {byProduct : Bool} {block : List Nat}
    (hne : block ≠ []) (hblock : ∀ i ∈ block, i < l.leaf.length) :
    l.blockEdges byProduct block ≠ [] := by
  cases block with
  | nil => exact absurd rfl hne
  | cons i block =>
      have hi := hblock i List.mem_cons_self
      intro hnil
      rw [blockEdges, blockRows, List.zipIdx_cons, List.map_cons, List.zip_cons_cons,
        List.flatMap_cons, List.append_eq_nil_iff] at hnil
      refine l.row_ne_nil h hi _ ((l.rowEdges_eq hi fun entry hentry => ?_).2 hnil.1)
      exact l.mem_row hentry

/-- Without pairs the rows are empty. -/
theorem blockWitnesses_eq_nil (h : ¬ l.HasPairs) (byProduct : Bool) {block : List Nat}
    (hblock : ∀ i ∈ block, i < l.leaf.length) : l.blockWitnesses byProduct block = [] := by
  rw [blockWitnesses, List.flatMap_eq_nil_iff]
  intro p hp
  obtain ⟨hi, hrow⟩ := List.of_mem_zip hp
  obtain ⟨q, hq, hrow⟩ := List.mem_map.mp hrow
  have hlen : p.2.length = min l.k (l.leaf.length - 1) := by
    rw [← hrow, row, src.arith.nearestOthers_length
      (hblock _ (List.fst_mem_of_mem_zipIdx hq))]
  have hnil : p.2 = [] := by
    apply List.eq_nil_of_length_eq_zero
    rcases not_not.mp h with hlen' | hk
    · omega
    · omega
  rw [hnil]
  rfl

/-! ## The order -/

variable {metric wants}

theorem fullMatrix_edgesFirst (h : l.Exact metric) :
    EdgesFirst (src.processLeafFullMatrix params metric l.leaf wants).emitted := by
  obtain ⟨edges, witnesses, hrun, -, -⟩ := l.fullMatrix_run metric wants h
  rw [hrun]
  exact edgesFirst_append.mpr ⟨edgesFirst_of_no_witnesses (witnessesOf_map_edges edges),
    edgesFirst_of_no_edges (edgesOf_map_witnesses witnesses), .inl (witnessesOf_map_edges edges)⟩

theorem blockwise_edgesFirst_iff {blockSize : Nat} (hsize : 0 < blockSize) (h : l.Exact metric) :
    EdgesFirst (src.processLeafBlockwise params metric l.leaf wants blockSize).emitted ↔
      ¬ (metric = .l2 ∧ (LeafPath.blockwise blockSize hsize).HasEarlyWitness l wants) := by
  obtain ⟨witnesses, edges, hrun, hwitnesses, hedges⟩ := l.blockwise_run metric wants hsize h
  have hpairs : 1 < l.leaf.length := Nat.lt_of_not_le (not_or.mp h.1).1
  have hne : edges.flatten ≠ [] := by
    rw [hedges, l.flatMap_blockwiseRows metric hsize l.edges]
    cases hchunks : chunks blockSize (List.range l.leaf.length) with
    | nil =>
        have hflat := chunks_flatten hsize (List.range l.leaf.length)
        rw [hchunks] at hflat
        have hlen := congrArg List.length hflat
        rw [List.flatten_nil, List.length_nil, List.length_range] at hlen
        omega
    | cons block blocks =>
        have hblock : block ∈ chunks blockSize (List.range l.leaf.length) := by
          rw [hchunks]
          exact List.mem_cons_self
        intro hnil
        rw [List.flatMap_cons, List.append_eq_nil_iff] at hnil
        exact l.blockEdges_ne_nil h.1 (mem_chunks hblock).1 (fun i hi => l.mem_chunk hblock hi) hnil.1
  rw [hrun, edgesFirst_append, witnessesOf_map_witnesses, edgesOf_map_edges, hwitnesses]
  have hparts : EdgesFirst (witnesses.map .witnesses : List (LeafFlush D)) ∧
      EdgesFirst (edges.map .edges : List (LeafFlush D)) :=
    ⟨edgesFirst_of_no_edges (edgesOf_map_witnesses witnesses),
      edgesFirst_of_no_witnesses (witnessesOf_map_edges edges)⟩
  simp only [hparts.1, hparts.2, hne, or_false, true_and]
  split_ifs with hgiven
  · obtain ⟨rfl, hwants⟩ := hgiven
    rw [l.flatMap_blockwiseRows .l2 hsize (src.rowWitnesses l.leaf (src.arith.l2Dist2 l.points)),
      List.flatMap_eq_nil_iff]
    simp only [LeafPath.HasEarlyWitness, hwants, true_and, not_exists, not_and, ne_eq, not_not]
    rfl
  · refine iff_of_true rfl fun hearly => hgiven ⟨hearly.1, hearly.2.1⟩

/-- Blocks that all have edges alternate: only the last may have witnesses. -/
theorem alternating_edgesFirst_iff {blocks : List (List Nat)} {edges : List Nat → List (LeafEdge D)}
    {witnesses : List Nat → List PendingLuneWitness} (hedges : ∀ block ∈ blocks, edges block ≠ []) :
    EdgesFirst (blocks.flatMap fun block => [.edges (edges block), .witnesses (witnesses block)]) ↔
      ∀ block ∈ blocks.dropLast, witnesses block = [] := by
  induction blocks with
  | nil => exact iff_of_true List.Pairwise.nil fun _ h => by cases h
  | cons block blocks ih =>
      have hone : EdgesFirst ([.edges (edges block), .witnesses (witnesses block)] :
          List (LeafFlush D)) := by
        refine List.pairwise_pair.mpr (.inl rfl)
      rw [List.flatMap_cons, edgesFirst_append, ih fun b hb => hedges b (List.mem_cons_of_mem _ hb)]
      have hwitnesses : witnessesOf ([.edges (edges block), .witnesses (witnesses block)] :
          List (LeafFlush D)) = witnesses block := List.append_nil _
      rw [hwitnesses]
      cases blocks with
      | nil => simp [hone, edgesOf]
      | cons next blocks =>
          have hnext : edgesOf ((next :: blocks).flatMap fun block =>
              [.edges (edges block), .witnesses (witnesses block)]) ≠ [] := by
            intro hnil
            have hfirst := List.flatMap_eq_nil_iff.mp hnil (.edges (edges next)) List.mem_cons_self
            exact hedges next (List.mem_cons_of_mem _ List.mem_cons_self) hfirst
          simp only [hone, hnext, or_false, true_and, List.dropLast_cons_cons, List.mem_cons,
            forall_eq_or_imp]
          exact and_comm

theorem parallel_edgesFirst_iff (blockRows threads : Nat) (h : l.Exact metric) :
    EdgesFirst (src.processLeafParallelLarge params metric l.leaf wants blockRows threads).emitted ↔
      ¬ (metric = .l2 ∧ (LeafPath.parallel blockRows threads).HasEarlyWitness l wants) := by
  rw [l.parallel_run metric wants blockRows threads h]
  have hedges : ∀ block ∈ l.parallelBlocks blockRows,
      l.blockEdges (metric = .l2 && wants) block ≠ [] := fun block hblock =>
    l.blockEdges_ne_nil h.1 (mem_chunks hblock).1 fun i hi => l.mem_chunk hblock hi
  refine (alternating_edgesFirst_iff hedges).trans ?_
  by_cases hmetric : metric = .l2
  · simp only [hmetric, if_true, decide_true, Bool.true_and, true_and, LeafPath.HasEarlyWitness,
      not_exists, not_and, ne_eq, not_not]
  · exact iff_of_true (fun _ _ => if_neg hmetric) fun hearly => hmetric hearly.1

end ReadyLeaf

/-- On every path the edges of a leaf come first, but for the witnesses of blocks: where the exact
distances of blocks are computed, none may be found in a block that edges come behind. -/
theorem leafPath_edgesFirst_iff {D : Type} {src : LeafStore D} {params : LeafEmitParams}
    (l : ReadyLeaf src params) (metric : Metric) (wants : Bool) (path : LeafPath) :
    EdgesFirst (path.run src params metric l.leaf wants).emitted ↔
      ¬ ((metric = .l2 ∧ ¬ params.shouldUseLeafAdsamplingExecutor metric l.leaf.length) ∧
        path.HasEarlyWitness l wants) := by
  by_cases hpairs : l.HasPairs
  · by_cases hads : params.shouldUseLeafAdsamplingExecutor metric l.leaf.length
    · rw [l.run_adsampling metric wants hpairs hads path]
      exact iff_of_true (src.adsamplingPath_edgesFirst params l.leaf wants l.points l.k)
        fun h => h.1.2 hads
    · have hexact : l.Exact metric := ⟨hpairs, hads⟩
      simp only [hads, not_false_eq_true, and_true]
      cases path with
      | fullMatrix => exact iff_of_true (l.fullMatrix_edgesFirst hexact) fun h => h.2
      | blockwise blockSize hsize => exact l.blockwise_edgesFirst_iff hsize hexact
      | parallel blockRows threads => exact l.parallel_edgesFirst_iff blockRows threads hexact
  · rw [l.run_without metric wants hpairs path]
    refine iff_of_true List.Pairwise.nil fun h => ?_
    cases path with
    | fullMatrix => exact h.2
    | blockwise blockSize hsize =>
        obtain ⟨-, block, hblock, hne⟩ := h.2
        exact hne (l.blockWitnesses_eq_nil hpairs true fun i hi => l.mem_chunk hblock hi)
    | parallel blockRows threads =>
        obtain ⟨block, hblock, hne⟩ := h.2
        exact hne (l.blockWitnesses_eq_nil hpairs wants fun i hi =>
          l.mem_chunk (List.dropLast_subset _ hblock) hi)

/-! ### Three points on a line -/

namespace Early

/-- The points at 0, 1 and 5. -/
def points : List (List F32) := [[⟨0⟩], [⟨0x3f800000⟩], [⟨0x40a00000⟩]]

def dist (i j : UInt32) : F32 := F32.arith.l2Dist2 points i.toNat j.toNat

def store : LeafStore F32 where
  arith := F32.arith
  readPoint i := .ok (points.getD i.toNat [])
  getDistance i j := .ok (dist i j)
  prefetch leaf := .ok (leaf.map fun _ => [])
  norm _ := .zero
  matMul _ _ _ _ := .zero
  computeLeafAdsamplingForParams _ _ := .ok []

def params : LeafEmitParams where
  leafKnn := 2
  maxFullMatrixLeafSize := 1
  adsamplingGroupDims := 0
  leafAdsTilingEnable := false
  leafAdsWavefrontPairmaskEnable := false
  leafAdsWorkGraphEnable := false
  mHashBits := 0

def sketches : List (List F32) := [[], [], []]

def leaf : ReadyLeaf store params where
  leaf := [0, 1, 2]
  points := points
  cache := sketches
  kernel := dist
  leafKnn_le := by decide
  mHashBits_le := by decide
  read := rfl
  distances _ _ _ _ := rfl
  prefetch := rfl
  cache_length := rfl
  width_ge _ _ := Nat.zero_le _

end Early

/-- The point at 1 is in the lune of the others, so the block of the point at 0 has a witness. -/
theorem leafPath_edgesFirst_iff_early :
    ¬ EdgesFirst ((LeafPath.parallel 1 2).run Early.store Early.params .l2 Early.leaf.leaf
      false).emitted := by
  rw [leafPath_edgesFirst_iff Early.leaf .l2 false (.parallel 1 2), not_not]
  refine ⟨⟨rfl, by decide⟩, [0], by decide +kernel, ?_⟩
  decide +kernel

end ForgeANN
