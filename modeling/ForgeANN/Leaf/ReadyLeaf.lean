-- SUMMARY: Leaves whose points and sketches can be read, and the runs of the three paths on them.
import ForgeANN.Leaf.LeafEmission
import Mathlib.Data.List.GetD

/-!
# Leaves that can be read

On such a leaf no path fails but in the executor of ADSampling. Where that one does
not run, every path is two loops over its rows, or one over its blocks.
-/
namespace ForgeANN

open Lib LeafFlush

/-- A leaf with its points, the sketches, and the distances computed one by one. -/
structure ReadyLeaf {D : Type} (src : LeafStore D) (params : LeafEmitParams) where
  leaf : List UInt32
  points : List (List D)
  cache : List (List F32)
  kernel : UInt32 → UInt32 → D
  leafKnn_le : params.leafKnn ≤ 32
  mHashBits_le : params.mHashBits ≤ 16
  read : leaf.mapM src.readPoint = .ok points
  distances : ∀ i ∈ leaf, ∀ j ∈ leaf, src.getDistance i j = .ok (kernel i j)
  prefetch : src.prefetch leaf = .ok cache
  cache_length : cache.length = leaf.length
  width_ge : ∀ sketch ∈ cache, params.mHashBits ≤ sketch.length

namespace ReadyLeaf

variable {D : Type} {src : LeafStore D} {params : LeafEmitParams} (l : ReadyLeaf src params)

/-- How many neighbours a row has room for. -/
def k : Nat := min params.leafKnn (l.leaf.length - 1)

/-- The leaf has pairs, and neighbours are asked for. -/
def HasPairs : Prop := ¬ (l.leaf.length ≤ 1 ∨ l.k = 0)

theorem k_le : l.k ≤ 32 := (Nat.min_le_left _ _).trans l.leafKnn_le

theorem getD_mem {i : Nat} (hi : i < l.leaf.length) : l.leaf.getD i 0 ∈ l.leaf := by
  rw [List.getD_eq_getElem _ _ hi]
  exact List.getElem_mem hi

/-! ## Edges -/

theorem computeHash_ok {i j : Nat} (hi : i < l.leaf.length) (hj : j < l.leaf.length) :
    ∃ h, computeHash (l.cache.getD i []) (l.cache.getD j []) params.mHashBits = .ok h := by
  have hwidth : ∀ {m : Nat}, m < l.leaf.length → params.mHashBits ≤ (l.cache.getD m []).length := by
    intro m hm
    rw [List.getD_eq_getElem _ _ (by rw [l.cache_length]; exact hm)]
    exact l.width_ge _ (List.getElem_mem _)
  exact ForgeANN.computeHash_ok l.mHashBits_le (hwidth hi) (hwidth hj)

theorem pairEdges_ok {i rank : Nat} {entry : Nat × D} (hi : i < l.leaf.length)
    (hentry : entry.1 < l.leaf.length) :
    ∃ both, LeafStore.pairEdges params l.leaf l.cache i rank entry = .ok both ∧ both ≠ [] := by
  obtain ⟨hij, hhij⟩ := l.computeHash_ok hi hentry
  obtain ⟨hji, hhji⟩ := l.computeHash_ok hentry hi
  unfold LeafStore.pairEdges
  dsimp only
  rw [hhij, ok_bind, hhji]
  exact ⟨_, rfl, List.cons_ne_nil _ _⟩

/-- The edges of a row. -/
def edges (i : Nat) (row : List (Nat × D)) : List (LeafEdge D) :=
  (LeafStore.rowEdges params l.leaf l.cache i row).toOption.getD []

theorem rowEdges_eq {i : Nat} {row : List (Nat × D)} (hi : i < l.leaf.length)
    (hrow : ∀ entry ∈ row, entry.1 < l.leaf.length) :
    LeafStore.rowEdges params l.leaf l.cache i row = .ok (l.edges i row) ∧
      (l.edges i row = [] → row = []) := by
  have hpairs : ∀ p ∈ row.zipIdx, ∃ both,
      LeafStore.pairEdges params l.leaf l.cache i p.2 p.1 = .ok both ∧ both ≠ [] := fun p hp =>
    l.pairEdges_ok hi (hrow p.1 (List.fst_mem_of_mem_zipIdx hp))
  choose! both hpair using hpairs
  have hmap : row.zipIdx.mapM (fun p => LeafStore.pairEdges params l.leaf l.cache i p.2 p.1) =
      .ok (row.zipIdx.map both) := mapM_eq_ok_map fun p hp => (hpair p hp).1
  have hrun : LeafStore.rowEdges params l.leaf l.cache i row =
      .ok (row.zipIdx.map both).flatten := by
    unfold LeafStore.rowEdges
    rw [hmap]
    rfl
  refine ⟨?_, fun hnil => ?_⟩
  · rw [edges, hrun]
    rfl
  · rw [edges, hrun] at hnil
    cases row with
    | nil => rfl
    | cons entry row =>
        have hfirst := (List.flatten_eq_nil_iff.mp hnil) (both (entry, 0)) List.mem_cons_self
        exact absurd hfirst (hpair (entry, 0) List.mem_cons_self).2

/-! ## The rows of a block -/

/-- The distances of the row at a place of a block. -/
def blockDist (byProduct : Bool) (block : List Nat) (p : Nat × Nat) (j : Nat) : D :=
  if byProduct then
    src.arith.leafDist2 (src.norm (l.points.getD p.1 [])) (src.norm (l.points.getD j []))
      (src.matMul (block.map fun i => l.points.getD i []) l.points p.2 j)
  else l.kernel (l.leaf.getD p.1 0) (l.leaf.getD j 0)

/-- The nearest others of a point, by distances that are known. -/
def row (i : Nat) (dist : Nat → D) : List (Nat × D) :=
  src.arith.nearestOthers l.k i l.leaf.length dist

theorem mem_row {i : Nat} {dist : Nat → D} {entry : Nat × D} (h : entry ∈ l.row i dist) :
    entry.1 < l.leaf.length :=
  (src.arith.mem_nearestOthers h).1

theorem row_ne_nil {i : Nat} (hpairs : l.HasPairs) (hi : i < l.leaf.length) (dist : Nat → D) :
    l.row i dist ≠ [] := by
  obtain ⟨hlen, hk⟩ := not_or.mp hpairs
  apply List.ne_nil_of_length_pos
  rw [row, src.arith.nearestOthers_length hi]
  omega

def blockRows (byProduct : Bool) (block : List Nat) : List (List (Nat × D)) :=
  block.zipIdx.map fun p => l.row p.1 (l.blockDist byProduct block p)

theorem blockTopk_eq {byProduct : Bool} {block : List Nat} (hblock : ∀ i ∈ block, i < l.leaf.length) :
    src.blockTopk l.leaf byProduct l.points l.k block = .ok (l.blockRows byProduct block) := by
  refine mapM_eq_ok_map fun p hp => ?_
  refine src.arith.rowTopk_eq l.k_le fun j hj _ => ?_
  rw [blockDist]
  split_ifs
  · rfl
  · exact l.distances _ (l.getD_mem (hblock _ (List.fst_mem_of_mem_zipIdx hp))) _ (l.getD_mem hj)

/-! ## Runs without ADSampling -/

variable (metric : Metric) (wants : Bool)

/-- Neither without pairs nor left to ADSampling. -/
def Exact : Prop :=
  l.HasPairs ∧ ¬ params.shouldUseLeafAdsamplingExecutor metric l.leaf.length

theorem ofPairs_eq {path : Nat → LeafRun D Unit} (h : l.HasPairs) :
    LeafStore.ofPairs params l.leaf path = path l.k := if_neg h

theorem ofPairs_without {path : Nat → LeafRun D Unit} (h : ¬ l.HasPairs) :
    LeafStore.ofPairs params l.leaf path = pure () := if_pos (not_not.mp h)

/-- The rows of all blocks. -/
def blockwiseRows (blockSize : Nat) : List (List (Nat × D)) :=
  (chunks blockSize (List.range l.leaf.length)).flatMap (l.blockRows (metric = .l2))

theorem mem_chunk {size i : Nat} {block : List Nat}
    (hblock : block ∈ chunks size (List.range l.leaf.length)) (hi : i ∈ block) :
    i < l.leaf.length := by
  have hsize : 0 < size := by
    by_contra hzero
    rw [chunks, if_pos (.inr (Nat.eq_zero_of_not_pos hzero))] at hblock
    cases hblock
  have hflat : i ∈ (chunks size (List.range l.leaf.length)).flatten :=
    List.mem_flatten_of_mem hblock hi
  rw [chunks_flatten hsize] at hflat
  exact List.mem_range.mp hflat

/-- Rows that stand for the points of the leaf, in their order. -/
structure Rows (rows : List (List (Nat × D))) : Prop where
  length : rows.length = l.leaf.length
  known : ∀ row ∈ rows, ∀ entry ∈ row, entry.1 < l.leaf.length

theorem edges_of_rows {rows : List (List (Nat × D))} (h : l.Rows rows) :
    ∃ batches : List (List (LeafEdge D)),
      LeafStore.emitEdges params l.leaf l.cache rows = ⟨batches.map .edges, .ok ()⟩ ∧
      batches.flatten = rows.zipIdx.flatMap fun p => l.edges p.2 p.1 := by
  obtain ⟨batches, result, hrun, hgives⟩ := LeafStore.emitEdges_edges params l.leaf rows l.cache
  obtain ⟨rfl, hall⟩ := hgives (fun p => l.edges p.2 p.1) fun p hp => by
    have hi := List.snd_lt_of_mem_zipIdx hp
    rw [Nat.add_zero, h.length] at hi
    exact (l.rowEdges_eq hi (h.known p.1 (List.fst_mem_of_mem_zipIdx hp))).1
  exact ⟨batches, hrun, hall⟩

theorem blockRows_known {byProduct : Bool} {block : List Nat} {row : List (Nat × D)}
    (h : row ∈ l.blockRows byProduct block) : ∀ entry ∈ row, entry.1 < l.leaf.length := by
  obtain ⟨p, -, rfl⟩ := List.mem_map.mp h
  exact fun entry hentry => l.mem_row hentry

theorem blockRows_length (byProduct : Bool) (block : List Nat) :
    (l.blockRows byProduct block).length = block.length := by
  rw [blockRows, List.length_map, List.length_zipIdx]

theorem blockwise_rows {blockSize : Nat} (hsize : 0 < blockSize) :
    l.Rows (l.blockwiseRows metric blockSize) where
  length := by
    have hlen : ∀ blocks : List (List Nat),
        (blocks.flatMap (l.blockRows (metric = .l2))).length = blocks.flatten.length := by
      intro blocks
      rw [List.length_flatMap, List.length_flatten]
      simp only [blockRows_length]
    rw [blockwiseRows, hlen, chunks_flatten hsize, List.length_range]
  known row hrow := by
    obtain ⟨block, -, hmem⟩ := List.mem_flatMap.mp hrow
    exact l.blockRows_known hmem

/-- Block by block, the witnesses go out before the edges. -/
theorem blockwise_run {blockSize : Nat} (hsize : 0 < blockSize) (h : l.Exact metric) :
    ∃ (witnesses : List (List PendingLuneWitness)) (edges : List (List (LeafEdge D))),
      src.processLeafBlockwise params metric l.leaf wants blockSize =
        ⟨witnesses.map .witnesses ++ edges.map .edges, .ok ()⟩ ∧
      witnesses.flatten = (if metric = .l2 ∧ wants = true then
        (l.blockwiseRows metric blockSize).zipIdx.flatMap fun p =>
          src.rowWitnesses l.leaf (src.arith.l2Dist2 l.points) p.2 p.1 else []) ∧
      edges.flatten = (l.blockwiseRows metric blockSize).zipIdx.flatMap fun p => l.edges p.2 p.1 := by
  have hblocks : (chunks blockSize (List.range l.leaf.length)).mapM
      (src.blockTopk l.leaf (metric = .l2) l.points l.k) =
        .ok ((chunks blockSize (List.range l.leaf.length)).map (l.blockRows (metric = .l2))) :=
    mapM_eq_ok_map fun block hblock => l.blockTopk_eq fun i hi => l.mem_chunk hblock hi
  obtain ⟨edges, hedges, hall⟩ := l.edges_of_rows (l.blockwise_rows metric hsize)
  rw [LeafStore.processLeafBlockwise, l.ofPairs_eq h.1, l.read, Emission.lift_ok, pure_bind,
    if_neg h.2, hblocks, Emission.lift_ok, pure_bind, l.prefetch, Emission.lift_ok]
  simp only [pure_bind]
  change ∃ (witnesses : List (List PendingLuneWitness)) (edges : List (List (LeafEdge D))),
    (if metric = .l2 then
      src.emitLuneWitnesses l.leaf wants (src.arith.l2Dist2 l.points)
        (l.blockwiseRows metric blockSize) >>= fun _ =>
        LeafStore.emitEdges params l.leaf l.cache (l.blockwiseRows metric blockSize)
    else LeafStore.emitEdges params l.leaf l.cache (l.blockwiseRows metric blockSize)) = _ ∧ _
  rw [hedges]
  by_cases hmetric : metric = .l2
  · obtain ⟨witnesses, hrun, hgiven⟩ := src.emitLuneWitnesses_witnesses l.leaf
      (l.blockwiseRows metric blockSize) wants (src.arith.l2Dist2 l.points)
    refine ⟨witnesses, edges, ?_, ?_, hall⟩
    · rw [if_pos hmetric, hrun]
      rfl
    · rw [hgiven]
      simp only [hmetric, true_and]
  · refine ⟨[], edges, ?_, ?_, hall⟩
    · rw [if_neg hmetric]
      rfl
    · rw [if_neg fun h => hmetric h.1]
      rfl

/-! ### The full matrix -/

/-- The distances of the full matrix: by its product, or one by one for every pair. -/
def matrixDist (i j : Nat) : D :=
  if metric = .l2 then src.productDistances l.points i j
  else l.kernel (l.leaf.getD (min i j) 0) (l.leaf.getD (max i j) 0)

def matrixRows : List (List (Nat × D)) :=
  (List.range l.leaf.length).map fun i => l.row i (l.matrixDist metric i)

theorem matrixRows_rows : l.Rows (l.matrixRows metric) where
  length := by rw [matrixRows, List.length_map, List.length_range]
  known row hrow := by
    obtain ⟨i, -, rfl⟩ := List.mem_map.mp hrow
    exact fun entry hentry => l.mem_row hentry

theorem matrixRows_eq {dmat : Nat → Nat → D}
    (hdmat : ∀ i < l.leaf.length, ∀ j < l.leaf.length, j ≠ i → dmat i j = l.matrixDist metric i j) :
    src.matrixRows l.leaf l.k dmat = .ok (l.matrixRows metric) := by
  refine mapM_eq_ok_map fun i hi => src.arith.rowTopk_eq l.k_le fun j hj hji => ?_
  rw [hdmat i (List.mem_range.mp hi) j hj hji]

theorem pairDistances_ok : ∃ dmat, src.pairDistances l.leaf = .ok dmat ∧
    ∀ i < l.leaf.length, ∀ j < l.leaf.length, j ≠ i →
      dmat i j = l.kernel (l.leaf.getD (min i j) 0) (l.leaf.getD (max i j) 0) := by
  have htable : l.leaf.zipIdx.mapM (fun p =>
      (l.leaf.drop (p.2 + 1)).mapM fun jGlobal => src.getDistance p.1 jGlobal) =
      .ok (l.leaf.zipIdx.map fun p => (l.leaf.drop (p.2 + 1)).map (l.kernel p.1)) :=
    mapM_eq_ok_map fun p hp => mapM_eq_ok_map fun j hj =>
      l.distances _ (List.fst_mem_of_mem_zipIdx hp) _ (List.mem_of_mem_drop hj)
  have hentry : ∀ i j, i < j → j < l.leaf.length →
      ((l.leaf.zipIdx.map fun p => (l.leaf.drop (p.2 + 1)).map (l.kernel p.1)).getD i []).getD
        (j - i - 1) src.arith.zero = l.kernel (l.leaf.getD i 0) (l.leaf.getD j 0) := by
    intro i j hij hj
    have hi : i < l.leaf.length := hij.trans hj
    have hrest : i + 1 + (j - i - 1) = j := by omega
    simp only [List.getD_eq_getElem?_getD, List.getElem?_map, List.getElem?_zipIdx,
      List.getElem?_drop, List.getElem?_eq_getElem hi, Option.map_some, Option.getD_some,
      Nat.zero_add, hrest, List.getElem?_eq_getElem hj]
  unfold LeafStore.pairDistances
  rw [htable]
  refine ⟨_, rfl, fun i hi j hj hji => ?_⟩
  split_ifs with hij
  · rw [hentry i j hij hj, Nat.min_eq_left hij.le, Nat.max_eq_right hij.le]
  · have hlt : j < i := Nat.lt_of_le_of_ne (Nat.le_of_not_lt hij) hji
    rw [hentry j i hlt hi, Nat.min_eq_right hlt.le, Nat.max_eq_left hlt.le]

/-- The edges of the full matrix go out before the witnesses. -/
theorem fullMatrix_run (h : l.Exact metric) :
    ∃ (edges : List (List (LeafEdge D))) (witnesses : List (List PendingLuneWitness)),
      src.processLeafFullMatrix params metric l.leaf wants =
        ⟨edges.map .edges ++ witnesses.map .witnesses, .ok ()⟩ ∧
      edges.flatten = ((l.matrixRows metric).zipIdx.flatMap fun p => l.edges p.2 p.1) ∧
      witnesses.flatten = if metric = .l2 ∧ wants = true then
        (l.matrixRows metric).zipIdx.flatMap fun p =>
          src.rowWitnesses l.leaf (src.productDistances l.points) p.2 p.1 else [] := by
  obtain ⟨edges, hedges, hall⟩ := l.edges_of_rows (l.matrixRows_rows metric)
  rw [LeafStore.processLeafFullMatrix, l.ofPairs_eq h.1]
  by_cases hmetric : metric = .l2
  · obtain ⟨witnesses, hrun, hgiven⟩ := src.emitLuneWitnesses_witnesses l.leaf
      (l.matrixRows metric) wants (src.productDistances l.points)
    have hrows : src.matrixRows l.leaf l.k (src.productDistances l.points) =
        .ok (l.matrixRows metric) := l.matrixRows_eq metric fun i _ j _ _ => by
      rw [matrixDist, if_pos hmetric]
    refine ⟨edges, witnesses, ?_, hall, ?_⟩
    · rw [if_pos hmetric, l.read, Emission.lift_ok, pure_bind, if_neg h.2, hrows,
        Emission.lift_ok, pure_bind, l.prefetch, Emission.lift_ok, pure_bind, hedges, hrun]
      rfl
    · rw [hgiven]
      simp only [hmetric, true_and]
  · obtain ⟨dmat, hpairs, hdmat⟩ := l.pairDistances_ok
    have hrows : src.matrixRows l.leaf l.k dmat = .ok (l.matrixRows metric) :=
      l.matrixRows_eq metric fun i hi j hj hji => by
        rw [hdmat i hi j hj hji, matrixDist, if_neg hmetric]
    refine ⟨edges, [], ?_, hall, ?_⟩
    · rw [if_neg hmetric, hpairs, Emission.lift_ok, pure_bind, hrows, Emission.lift_ok, pure_bind,
        l.prefetch, Emission.lift_ok, pure_bind, hedges]
      simp
    · rw [if_neg fun h => hmetric h.1]
      rfl

/-! ### Blocks in parallel -/

def blockEdges (byProduct : Bool) (block : List Nat) : List (LeafEdge D) :=
  (block.zip (l.blockRows byProduct block)).flatMap fun p => l.edges p.1 p.2

def blockWitnesses (byProduct : Bool) (block : List Nat) : List PendingLuneWitness :=
  (block.zip (l.blockRows byProduct block)).flatMap fun p =>
    src.rowWitnesses l.leaf (src.arith.l2Dist2 l.points) p.1 p.2

theorem parallelBlock_ok {block : List Nat} (hblock : ∀ i ∈ block, i < l.leaf.length) :
    src.processLeafParallelLargeBlock params metric l.leaf wants l.cache l.points l.k block =
      .ok (l.blockEdges (metric = .l2 && wants) block,
        if metric = .l2 then l.blockWitnesses (metric = .l2 && wants) block else []) := by
  have hedges : (block.zip (l.blockRows (metric = .l2 && wants) block)).mapM
      (fun p => LeafStore.rowEdges params l.leaf l.cache p.1 p.2) =
      .ok ((block.zip (l.blockRows (metric = .l2 && wants) block)).map
        fun p => l.edges p.1 p.2) := mapM_eq_ok_map fun p hp =>
    (l.rowEdges_eq (hblock _ (List.of_mem_zip hp).1) (l.blockRows_known (List.of_mem_zip hp).2)).1
  unfold LeafStore.processLeafParallelLargeBlock
  rw [l.blockTopk_eq hblock, ok_bind, hedges, ok_bind, ← List.flatMap_def]
  rfl

/-- What one block hands out. -/
def parallelFlushes (block : List Nat) : List (LeafFlush D) :=
  [.edges (l.blockEdges (metric = .l2 && wants) block),
    .witnesses (if metric = .l2 then l.blockWitnesses (metric = .l2 && wants) block else [])]

def parallelBlocks (blockRows : Nat) : List (List Nat) :=
  chunks (max blockRows 1) (List.range l.leaf.length)

theorem chooseParallelBlockWaveWidth_pos (leafSize blockRows leafKnn totalBlocks threads : Nat) :
    0 < LeafStore.chooseParallelBlockWaveWidth leafSize blockRows leafKnn totalBlocks threads :=
  Nat.lt_of_lt_of_le Nat.one_pos (Nat.le_max_left _ _)

/-- However many blocks a wave has, the blocks go out one after the other. -/
theorem parallel_run (blockRows threads : Nat) (h : l.Exact metric) :
    src.processLeafParallelLarge params metric l.leaf wants blockRows threads =
      ⟨(l.parallelBlocks blockRows).flatMap (l.parallelFlushes metric wants), .ok ()⟩ := by
  have hwaves : ∀ waves : List (List (List Nat)),
      (∀ wave ∈ waves, ∀ block ∈ wave, ∀ i ∈ block, i < l.leaf.length) →
      waves.foldlM (fun _ wave => do
        let results ← Emission.lift (wave.mapM
          (src.processLeafParallelLargeBlock params metric l.leaf wants l.cache l.points l.k))
        Emission.emit (results.flatMap fun result => [.edges result.1, .witnesses result.2])) () =
      (⟨waves.flatten.flatMap (l.parallelFlushes metric wants), .ok ()⟩ : LeafRun D Unit) := by
    intro waves
    induction waves with
    | nil => exact fun _ => rfl
    | cons wave waves ih =>
        intro hin
        have hwave : wave.mapM (src.processLeafParallelLargeBlock params metric l.leaf wants l.cache
            l.points l.k) = .ok (wave.map fun block =>
              (l.blockEdges (metric = .l2 && wants) block,
                if metric = .l2 then l.blockWitnesses (metric = .l2 && wants) block else [])) :=
          mapM_eq_ok_map fun block hblock =>
            l.parallelBlock_ok metric wants (hin wave List.mem_cons_self block hblock)
        rw [List.foldlM_cons, hwave, Emission.lift_ok, pure_bind, Emission.emit_bind,
          ih fun w hw => hin w (List.mem_cons_of_mem wave hw), List.flatten_cons, List.flatMap_append,
          List.flatMap_map]
        rfl
  rw [LeafStore.processLeafParallelLarge, l.ofPairs_eq h.1, l.read, Emission.lift_ok, pure_bind,
    if_neg h.2]
  simp only [l.prefetch, Emission.lift_ok, pure_bind]
  rw [hwaves, chunks_flatten (chooseParallelBlockWaveWidth_pos ..), parallelBlocks]
  intro wave hwave block hblock i hi
  have hflat : block ∈ (chunks _ (chunks (max blockRows 1) (List.range l.leaf.length))).flatten :=
    List.mem_flatten_of_mem hwave hblock
  rw [chunks_flatten (chooseParallelBlockWaveWidth_pos ..)] at hflat
  exact l.mem_chunk hflat hi

end ReadyLeaf

end ForgeANN
