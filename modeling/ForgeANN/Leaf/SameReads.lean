-- SUMMARY: A leaf does the same on two stores that read its points alike.
import ForgeANN.Leaf.LeafPaths
import Mathlib.Data.List.GetD

/-!
# Stores that read alike

A path reads the points of its leaf, and computes distances between them; whatever
else a store holds does not matter.
-/
namespace ForgeANN

open Lib

/-- Steps that are the same on the elements of a list make the same loop. -/
theorem foldlM_congr_mem {m : Type → Type} [Monad m] {α σ : Type} {f g : σ → α → m σ} {l : List α}
    (h : ∀ a ∈ l, ∀ s, f s a = g s a) (s : σ) : l.foldlM f s = l.foldlM g s := by
  induction l generalizing s with
  | nil => rfl
  | cons a l ih =>
      rw [List.foldlM_cons, List.foldlM_cons, h a List.mem_cons_self s]
      exact congrArg _ (funext fun t => ih (fun b hb => h b (List.mem_cons_of_mem a hb)) t)

theorem mapM_congr_mem {α β : Type} {f g : α → AnnResult β} {l : List α} (h : ∀ a ∈ l, f a = g a) :
    l.mapM f = l.mapM g := by
  rw [← mapM_map_congr (g := id) h, List.map_id]

theorem mem_of_mem_chunks {α : Type} {size : Nat} {l part : List α} (h : part ∈ chunks size l) {a : α}
    (ha : a ∈ part) : a ∈ l := by
  induction l using chunks.induct size with
  | case1 l hnil =>
      rw [chunks, if_pos hnil] at h
      cases h
  | case2 l hnil ih =>
      rw [chunks, if_neg hnil] at h
      rcases List.mem_cons.mp h with rfl | h
      · exact List.mem_of_mem_take ha
      · exact List.mem_of_mem_drop (ih h)

theorem DistArith.rowTopk_congr {D : Type} (ar : DistArith D) {k i n : Nat}
    {dist dist' : Nat → AnnResult D} (h : ∀ j < n, dist j = dist' j) :
    ar.rowTopk k i n dist = ar.rowTopk k i n dist' := by
  have hfold := foldlM_congr_mem (l := List.range n) (f := fun entries j =>
    if j = i then .ok entries
    else do
      let d ← dist j
      ar.push k j d entries) (g := fun entries j =>
    if j = i then .ok entries
    else do
      let d ← dist' j
      ar.push k j d entries) (fun j hj entries => by rw [h j (List.mem_range.mp hj)]) []
  rw [DistArith.rowTopk, hfold]
  rfl

/-- Waves of blocks, each block the same. -/
theorem foldlM_waves_congr {D : Type}
    {f g : List Nat → AnnResult (List (LeafEdge D) × List PendingLuneWitness)}
    {waves : List (List (List Nat))} (h : ∀ wave ∈ waves, ∀ block ∈ wave, f block = g block) :
    waves.foldlM (fun (_ : Unit) wave => (do
      let results ← Emission.lift (wave.mapM f)
      Emission.emit (results.flatMap fun result => [.edges result.1, .witnesses result.2]) :
        LeafRun D Unit)) () =
    waves.foldlM (fun (_ : Unit) wave => (do
      let results ← Emission.lift (wave.mapM g)
      Emission.emit (results.flatMap fun result => [.edges result.1, .witnesses result.2]) :
        LeafRun D Unit)) () := by
  refine foldlM_congr_mem (fun wave hwave _ => ?_) ()
  rw [mapM_congr_mem (h wave hwave)]

namespace LeafStore

variable {D : Type} (src : LeafStore D) {readPoint : UInt32 → AnnResult (List D)}
  {getDistance : UInt32 → UInt32 → AnnResult D} (params : LeafEmitParams) (metric : Metric)
  {leaf : List UInt32} (wants : Bool)

/-- The store with other reads. -/
def withReads (readPoint : UInt32 → AnnResult (List D))
    (getDistance : UInt32 → UInt32 → AnnResult D) : LeafStore D :=
  { src with readPoint := readPoint, getDistance := getDistance }

section

variable (hread : ∀ id ∈ leaf, readPoint id = src.readPoint id)
  (hdist : ∀ i ∈ leaf, ∀ j ∈ leaf, getDistance i j = src.getDistance i j)

include hread in
theorem mapM_readPoint_withReads :
    leaf.mapM (src.withReads readPoint getDistance).readPoint = leaf.mapM src.readPoint :=
  mapM_congr_mem hread

include hdist in
theorem pairDistances_withReads :
    (src.withReads readPoint getDistance).pairDistances leaf = src.pairDistances leaf := by
  have htable : leaf.zipIdx.mapM (fun p => (leaf.drop (p.2 + 1)).mapM fun j => getDistance p.1 j) =
      leaf.zipIdx.mapM fun p => (leaf.drop (p.2 + 1)).mapM fun j => src.getDistance p.1 j :=
    mapM_congr_mem fun p hp => mapM_congr_mem fun j hj =>
      hdist p.1 (List.fst_mem_of_mem_zipIdx hp) j (List.mem_of_mem_drop hj)
  unfold pairDistances
  change (leaf.zipIdx.mapM (fun p => (leaf.drop (p.2 + 1)).mapM fun j => getDistance p.1 j) >>= _) = _
  rw [htable]
  rfl

include hdist in
theorem blockTopk_withReads {byProduct : Bool} {points : List (List D)} {k : Nat} {block : List Nat}
    (hblock : ∀ i ∈ block, i < leaf.length) :
    (src.withReads readPoint getDistance).blockTopk leaf byProduct points k block =
      src.blockTopk leaf byProduct points k block := by
  have hmem : ∀ {i}, i < leaf.length → leaf.getD i 0 ∈ leaf := by
    intro i hi
    rw [List.getD_eq_getElem _ _ hi]
    exact List.getElem_mem hi
  refine mapM_congr_mem fun p hp => DistArith.rowTopk_congr _ fun j hj => ?_
  dsimp only
  rw [show (src.withReads readPoint getDistance).getDistance (leaf.getD p.1 0) (leaf.getD j 0) =
    src.getDistance (leaf.getD p.1 0) (leaf.getD j 0) from
      hdist _ (hmem (hblock _ (List.fst_mem_of_mem_zipIdx hp))) _ (hmem hj)]
  rfl

include hread hdist

theorem processLeafFullMatrix_withReads :
    (src.withReads readPoint getDistance).processLeafFullMatrix params metric leaf wants =
      src.processLeafFullMatrix params metric leaf wants := by
  rw [processLeafFullMatrix, processLeafFullMatrix, src.mapM_readPoint_withReads hread,
    src.pairDistances_withReads hdist]
  rfl

theorem processLeafBlockwise_withReads (blockSize : Nat) :
    (src.withReads readPoint getDistance).processLeafBlockwise params metric leaf wants blockSize =
      src.processLeafBlockwise params metric leaf wants blockSize := by
  have hblocks : ∀ points k, (chunks blockSize (List.range leaf.length)).mapM
      ((src.withReads readPoint getDistance).blockTopk leaf (metric = .l2) points k) =
        (chunks blockSize (List.range leaf.length)).mapM
          (src.blockTopk leaf (metric = .l2) points k) := fun points k =>
    mapM_congr_mem fun block hblock => src.blockTopk_withReads hdist fun i hi =>
      List.mem_range.mp (mem_of_mem_chunks hblock hi)
  rw [processLeafBlockwise, processLeafBlockwise, src.mapM_readPoint_withReads hread]
  simp only [hblocks]
  rfl

theorem processLeaf_withReads :
    (src.withReads readPoint getDistance).processLeaf params metric leaf wants =
      src.processLeaf params metric leaf wants := by
  rw [processLeaf, processLeaf, src.processLeafFullMatrix_withReads params metric wants hread hdist,
    src.processLeafBlockwise_withReads params metric wants hread hdist]

theorem processLeafParallelLarge_withReads (blockRows threads : Nat) :
    (src.withReads readPoint getDistance).processLeafParallelLarge params metric leaf wants
      blockRows threads =
        src.processLeafParallelLarge params metric leaf wants blockRows threads := by
  have hblock : ∀ (cache : List (List F32)) (points : List (List D)) (k width rows : Nat),
      ∀ wave ∈ chunks width (chunks rows (List.range leaf.length)), ∀ block ∈ wave,
        (src.withReads readPoint getDistance).processLeafParallelLargeBlock params metric leaf wants
          cache points k block =
            src.processLeafParallelLargeBlock params metric leaf wants cache points k block := by
    intro cache points k width rows wave hwave block hblock
    rw [processLeafParallelLargeBlock, processLeafParallelLargeBlock,
      src.blockTopk_withReads hdist fun i hi =>
        List.mem_range.mp (mem_of_mem_chunks (mem_of_mem_chunks hwave hblock) hi)]
    rfl
  have hwaves := fun cache points k width rows =>
    foldlM_waves_congr (hblock cache points k width rows)
  rw [processLeafParallelLarge, processLeafParallelLarge, src.mapM_readPoint_withReads hread]
  simp only [hwaves]
  rfl

end

end LeafStore

end ForgeANN
