-- SUMMARY: What the rows of a leaf hold at the end of each path, with up to 32 neighbours and with more.
import ForgeANN.Leaf.ProcessLeaf
import Mathlib.Data.List.Forall2

/-!
# Exact rows

With at most 32 neighbours to keep, every path leaves each row with exactly as many
as the leaf has for it. With more, a path that pushes into `RowTopK` does not get to
the end of the first row, and one that leaves the rows to ADSampling keeps 32.
-/
namespace ForgeANN

open Lib

/-- A row has `knn` of the other rows, or all of them, each once. -/
structure ExactRow (n knn i : Nat) (row : List (Nat × F32)) : Prop where
  full : row.length = min knn (n - 1)
  distinct : (row.map Prod.fst).Nodup
  others : ∀ j ∈ row.map Prod.fst, OtherRow n i j

namespace LeafSource

variable {src : LeafSource} {params : LeafParams} {metric : Metric} {leaf : List UInt32}

/-- The errors of what a leaf is computed from. -/
inductive Fails (src : LeafSource) (leaf : List UInt32) (e : AnnError) : Prop where
  | point {id : UInt32} (hid : id ∈ leaf) (h : src.readPoint id = .error e)
  | distance (i j : UInt32) (h : src.getDistance i j = .error e)
  | sketches (h : src.prefetchSketches leaf = .error e)
  | ratios (h : src.ratios = .error e)

/-- Nothing that a leaf is computed from fails. -/
def Answers (src : LeafSource) (leaf : List UInt32) : Prop := ∀ e, ¬ src.Fails leaf e

/-- Every row is exact at the end, and only what the rows are computed from fails. -/
structure KeepsDegree (src : LeafSource) (leaf : List UInt32) (knn : Nat)
    (out : AnnResult (List (List (Nat × F32)))) : Prop where
  rows : ∀ rows, out = .ok rows →
    List.Forall₂ (ExactRow leaf.length knn) (List.range leaf.length) rows
  errors : ∀ e, out = .error e → src.Fails leaf e

/-! ## A row -/

variable {k knn i : Nat}

/-- One row's pushes into a buffer that was cleared. -/
def RowRun (src : LeafSource) (leaf : List UInt32) (k i : Nat) (out : AnnResult RowTopK) : Prop :=
  ∃ (dists : Nat → AnnResult F32) (row : RowTopK),
    (∀ j e, dists j = .error e → src.Fails leaf e) ∧
      out = RowTopK.pushOthers k i dists (List.range leaf.length) row.clear

theorem RowRun.exact {top : RowTopK} (h : src.RowRun leaf k i (.ok top)) (hpos : 0 < k)
    (hk : k ≤ 32) (hi : i < leaf.length) : ExactRow leaf.length k i top.iter := by
  obtain ⟨dists, row, -, hrun⟩ := h
  have hkeeps := ((RowTopK.keeps_clear k row).pushOthers hpos hk i dists
    (List.nodup_range (n := leaf.length)) fun j _ => List.not_mem_nil).1 top hrun.symm
  rw [List.append_nil] at hkeeps
  refine ⟨?_, hkeeps.distinct, fun j hj => ?_⟩
  · rw [hkeeps.iter_length hk, List.length_reverse, RowTopK.length_others hi]
  · obtain ⟨hin, hne⟩ := List.mem_filter.mp (List.mem_reverse.mp (hkeeps.known j hj))
    exact ⟨List.mem_range.mp hin, of_decide_eq_true hne⟩

theorem RowRun.fails {e : AnnError} (h : src.RowRun leaf k i (.error e)) (hpos : 0 < k)
    (hk : k ≤ 32) : src.Fails leaf e := by
  obtain ⟨dists, row, hfails, hrun⟩ := h
  obtain ⟨j, -, hj⟩ := ((RowTopK.keeps_clear k row).pushOthers hpos hk i dists
    (List.nodup_range (n := leaf.length)) fun j _ => List.not_mem_nil).2 e hrun.symm
  exact hfails j e hj

/-- A run that gets through has room for its pushes. -/
theorem RowRun.room {top : RowTopK} (h : src.RowRun leaf k i (.ok top)) (hi : i < leaf.length)
    (hk : k ≤ leaf.length - 1) : k ≤ 32 := by
  obtain ⟨dists, row, -, hrun⟩ := h
  by_contra hbeyond
  have hlen := RowTopK.pushOthers_beyond (not_le.mp hbeyond) (Nat.zero_le 32) hrun.symm
  rw [RowTopK.length_others hi] at hlen
  omega

theorem RowRun.error {e : AnnError} (h : src.RowRun leaf k i (.error e)) :
    src.Fails leaf e ∨ e = RowTopK.indexOutOfBounds := by
  obtain ⟨dists, row, hfails, hrun⟩ := h
  exact (RowTopK.pushOthers_error hrun.symm).imp_left fun ⟨j, _, hj⟩ => hfails j e hj

/-! ## All rows -/

/-- The rows of a leaf, one run after another. -/
structure RowRuns (src : LeafSource) (leaf : List UInt32) (k : Nat)
    (out : AnnResult (List RowTopK)) : Prop where
  ok : ∀ tops, out = .ok tops →
    List.Forall₂ (fun i top => src.RowRun leaf k i (.ok top)) (List.range leaf.length) tops
  error : ∀ e, out = .error e → src.Fails leaf e ∨ ∃ i, src.RowRun leaf k i (.error e)

theorem rowRuns_matrix (dmat : Nat → Nat → F32) (scratch : List RowTopK) :
    src.RowRuns leaf k (matrixRows leaf k dmat scratch) := by
  have hrun : ∀ i out, RowTopK.pushOthers k i (fun j => .ok (dmat i j)) (List.range leaf.length)
      (scratch.getD i .empty).clear = out → src.RowRun leaf k i out := fun i out h =>
    ⟨fun j => .ok (dmat i j), scratch.getD i .empty, fun j e he => (nomatch he), h.symm⟩
  constructor
  · intro tops htops
    exact (forall₂_of_mapM htops).imp fun i top h => hrun i _ h
  · intro e he
    obtain ⟨i, -, hi⟩ := exists_of_mapM_error he
    exact .inr ⟨i, hrun i _ hi⟩

theorem rowRuns_blocks (byProduct : Bool) (points : List (List F32)) {blockRows : Nat}
    (hblock : 0 < blockRows) {start : Nat → RowTopK} (hstart : ∀ i, (start i).clear = start i) :
    src.RowRuns leaf k (src.blocksTopk leaf byProduct points k blockRows start) := by
  have hrun : ∀ (block : List Nat) (i iBlock : Nat) out,
      RowTopK.pushOthers k i (fun j =>
        if byProduct then .ok (leafDist2 (src.norm (points.getD i [])) (src.norm (points.getD j []))
          (src.matMul (block.map fun i => points.getD i []) points iBlock j))
        else src.getDistance (leaf.getD i 0) (leaf.getD j 0))
        (List.range leaf.length) (start i) = out → src.RowRun leaf k i out := by
    intro block i iBlock out h
    refine ⟨_, start i, fun j e he => ?_, by rw [hstart]; exact h.symm⟩
    split_ifs at he
    exact .distance _ _ he
  constructor
  · intro tops htops
    rw [blocksTopk] at htops
    cases hblocks : (chunks blockRows (List.range leaf.length)).mapM
        (src.blockTopk leaf byProduct points k start) with
    | error e =>
        rw [hblocks] at htops
        cases htops
    | ok blocks =>
        rw [hblocks] at htops
        cases htops
        rw [← chunks_flatten hblock (List.range leaf.length)]
        apply List.rel_flatten
        apply (forall₂_of_mapM hblocks).imp
        intro block rows hrows
        have hrows := (forall₂_of_mapM hrows).imp
          (S := fun p top => src.RowRun leaf k p.1 (.ok top)) fun p top h => hrun block p.1 p.2 _ h
        have hmap : List.Forall₂ (fun i top => src.RowRun leaf k i (.ok top))
            (block.zipIdx.map Prod.fst) rows := List.forall₂_map_left_iff.mpr hrows
        rwa [List.zipIdx_map_fst] at hmap
  · intro e he
    rw [blocksTopk] at he
    cases hblocks : (chunks blockRows (List.range leaf.length)).mapM
        (src.blockTopk leaf byProduct points k start) with
    | error e' =>
        rw [hblocks] at he
        cases he
        obtain ⟨block, -, hfail⟩ := exists_of_mapM_error hblocks
        obtain ⟨p, -, hp⟩ := exists_of_mapM_error hfail
        exact .inr ⟨p.1, hrun block p.1 p.2 _ hp⟩
    | ok blocks =>
        rw [hblocks] at he
        cases he

theorem RowRuns.room {tops : List RowTopK} (h : src.RowRuns leaf k (.ok tops))
    (hleaf : 1 < leaf.length) (hk : k ≤ leaf.length - 1) : k ≤ 32 := by
  have hall := h.ok tops rfl
  have hpos : 0 < (List.range leaf.length).length := by
    rw [List.length_range]
    omega
  have hfirst := List.Forall₂.get hall hpos (hall.length_eq ▸ hpos)
  rw [List.get_eq_getElem, List.getElem_range] at hfirst
  exact hfirst.room (Nat.zero_lt_of_lt hleaf) hk

/-! ## Paths -/

/-- With room for its neighbours every row is exact, and with no more than that if all reads are
answered. -/
structure Tight (src : LeafSource) (leaf : List UInt32) (knn : Nat)
    (out : AnnResult (List (List (Nat × F32)))) : Prop where
  keeps : min knn (leaf.length - 1) ≤ 32 → src.KeepsDegree leaf knn out
  room : src.Answers leaf → src.KeepsDegree leaf knn out → min knn (leaf.length - 1) ≤ 32

theorem tight_error {e : AnnError} (h : src.Fails leaf e) : src.Tight leaf knn (.error e) where
  keeps _ := ⟨fun rows hrows => (nomatch hrows), fun e' he => by cases he; exact h⟩
  room hanswers _ := absurd h (hanswers e)

/-- A step that may fail stands before a path. -/
theorem tight_bind {α : Type} {x : AnnResult α} {f : α → AnnResult (List (List (Nat × F32)))}
    (hx : ∀ e, x = .error e → src.Fails leaf e) (hf : ∀ a, x = .ok a → src.Tight leaf knn (f a)) :
    src.Tight leaf knn (x >>= f) := by
  cases h : x with
  | error e => exact tight_error (hx e h)
  | ok a => exact hf a h

/-- A leaf without pairs. -/
theorem tight_empty (h : leaf.length ≤ 1 ∨ min knn (leaf.length - 1) = 0) :
    src.Tight leaf knn (.ok (leaf.map fun _ => [])) := by
  have hzero : min knn (leaf.length - 1) = 0 := by omega
  refine ⟨fun _ => ⟨fun rows hrows => ?_, fun e he => (nomatch he)⟩, fun _ _ => by omega⟩
  cases hrows
  have hempty : leaf.map (fun _ => ([] : List (Nat × F32))) =
      (List.range leaf.length).map fun _ => [] := by
    rw [List.map_const', List.map_const', List.length_range]
  rw [hempty, List.forall₂_map_right_iff, List.forall₂_same]
  exact fun i _ => ⟨hzero.symm, List.nodup_nil, fun j hj => (nomatch hj)⟩

/-- `RowTopK` has room for exactly 32. -/
theorem tight_rows {out : AnnResult (List RowTopK)} (hleaf : 1 < leaf.length)
    (hk : min knn (leaf.length - 1) ≠ 0)
    (h : src.RowRuns leaf (min knn (leaf.length - 1)) out) :
    src.Tight leaf knn (out >>= fun rows => .ok (rows.map RowTopK.iter)) := by
  cases out with
  | error e =>
      refine ⟨fun hroom => ⟨fun rows hrows => (nomatch hrows), fun e' he => ?_⟩,
        fun hanswers hkeeps => absurd (hkeeps.errors e rfl) (hanswers e)⟩
      cases he
      exact (h.error e rfl).elim id fun ⟨i, hi⟩ => hi.fails (Nat.pos_of_ne_zero hk) hroom
  | ok tops =>
      refine ⟨fun hroom => ⟨fun rows hrows => ?_, fun e he => (nomatch he)⟩,
        fun _ _ => h.room hleaf (Nat.min_le_right _ _)⟩
      cases hrows
      rw [List.forall₂_map_right_iff]
      apply forall₂_imp_mem (h.ok tops rfl)
      intro i hi top htop
      have hexact := htop.exact (Nat.pos_of_ne_zero hk) hroom (List.mem_range.mp hi)
      exact ⟨hexact.full.trans (by omega), hexact.distinct, hexact.others⟩

/-- ADSampling's buffers hold 32 at most. -/
theorem tight_ads {points : List (List F32)} (hpoints : points.length = leaf.length)
    (hleaf : 1 < leaf.length) (hk : min knn (leaf.length - 1) ≠ 0) :
    src.Tight leaf knn
      (src.computeLeafAdsamplingForParams params points (min knn (leaf.length - 1))) := by
  refine tight_bind (fun e he => .ratios he) fun _ _ => ?_
  set k := min knn (leaf.length - 1) with hkdef
  have hfilled : ∀ top, top = (if params.effectiveLeafAdsWavefrontPairmask then
        src.ads.computeLeafAdsamplingWavefront points k (leafSeedExact k)
      else src.ads.computeLeafAdsamplingRows points k (leafSeedExact k)) →
      RowsFilled leaf.length (min k 32) top := by
    intro top htop
    have hsize : adsRowSize points.length k = min k 32 := by
      rw [adsRowSize, hpoints]
      omega
    rw [htop, ← hsize, ← hpoints]
    split_ifs
    · exact computeLeafAdsamplingWavefront_filled (hpoints ▸ hleaf)
    · exact computeLeafAdsamplingRows_filled (hpoints ▸ hleaf)
  dsimp only
  generalize htop : (if params.effectiveLeafAdsWavefrontPairmask then
      src.ads.computeLeafAdsamplingWavefront points k (leafSeedExact k)
    else src.ads.computeLeafAdsamplingRows points k (leafSeedExact k)) = top
  have hrows := hfilled top htop.symm
  have hentries : ∀ t : StackTopK,
      (TinyTopK.entries t).map Prod.fst = (t.buf.map Prod.snd).reverse := by
    intro t
    rw [TinyTopK.entries, List.map_map, List.map_reverse]
    rfl
  constructor
  · intro hroom
    refine ⟨fun rows hok => ?_, fun e he => by cases he⟩
    cases hok
    rw [List.forall₂_map_right_iff, List.forall₂_iff_get]
    refine ⟨by rw [List.length_range, hrows.length], fun i h₁ h₂ => ?_⟩
    rw [List.get_eq_getElem, List.get_eq_getElem, List.getElem_range]
    have hfull := hrows.filled i _ (List.getElem?_eq_getElem h₂)
    refine ⟨?_, ?_, ?_⟩
    · rw [TinyTopK.entries, List.length_map, List.length_reverse, hfull.full, Nat.min_eq_left hroom]
    · rw [hentries, List.nodup_reverse]
      exact hfull.distinct
    · rw [hentries]
      exact fun j hj => hfull.known j (List.mem_reverse.mp hj)
  · intro _ hkeeps
    have hall := hkeeps.rows _ rfl
    rw [List.forall₂_map_right_iff] at hall
    have hpos : 0 < (List.range leaf.length).length := by
      rw [List.length_range]
      omega
    have hpos' := hall.length_eq ▸ hpos
    have hfirst := (List.Forall₂.get hall hpos hpos').full
    have hfull := (hrows.filled 0 _ (List.getElem?_eq_getElem hpos')).full
    rw [List.get_eq_getElem, TinyTopK.entries, List.length_map, List.length_reverse,
      hfull] at hfirst
    omega

theorem fails_of_points {e : AnnError} (h : leaf.mapM src.readPoint = .error e) :
    src.Fails leaf e := by
  obtain ⟨id, hid, hread⟩ := exists_of_mapM_error h
  exact .point hid hread

theorem fails_of_pairs {e : AnnError} (h : src.pairDistances leaf = .error e) :
    src.Fails leaf e := by
  unfold pairDistances at h
  generalize htable : (List.mapM _ leaf.zipIdx : AnnResult (List (List F32))) = table at h
  cases table with
  | error e' =>
      cases h
      obtain ⟨p, -, hfail⟩ := exists_of_mapM_error htable
      obtain ⟨j, -, hj⟩ := exists_of_mapM_error hfail
      exact .distance p.1 j hj
  | ok table => cases h

/-- The full matrix. -/
theorem processLeafFullMatrix_tight (scratch : List RowTopK) (hleaf : 1 < leaf.length)
    (hk : min knn (leaf.length - 1) ≠ 0) :
    src.Tight leaf knn (src.processLeafFullMatrix params metric leaf (min knn (leaf.length - 1))
      scratch) := by
  rw [processLeafFullMatrix]
  split_ifs
  · refine tight_bind (fun e he => fails_of_points he) fun points hpoints => ?_
    exact tight_ads (forall₂_of_mapM hpoints).length_eq.symm hleaf hk
  · refine tight_bind (fun e he => fails_of_points he) fun points _ => ?_
    exact tight_rows hleaf hk (rowRuns_matrix _ scratch)
  · exact tight_bind (fun e he => fails_of_pairs he) fun dmat _ =>
      tight_rows hleaf hk (rowRuns_matrix dmat scratch)

/-- Block by block. -/
theorem processLeafBlockwise_tight (scratch : List RowTopK) :
    src.Tight leaf params.leafKnn (src.processLeafBlockwise params metric leaf scratch) := by
  rw [processLeafBlockwise]
  split_ifs with hempty hads
  · exact tight_empty hempty
  all_goals
    simp only [not_or, not_le] at hempty
    refine tight_bind (fun e he => fails_of_points he) fun points hpoints => ?_
  · exact tight_ads (forall₂_of_mapM hpoints).length_eq.symm hempty.1 hempty.2
  · exact tight_rows hempty.1 hempty.2 (rowRuns_blocks _ points (by decide) fun i => rfl)

/-- The serial entry takes one of the two. -/
theorem processLeaf_tight (scratch : List RowTopK) :
    src.Tight leaf params.leafKnn (src.processLeaf params metric leaf scratch) := by
  rw [processLeaf]
  split_ifs with hempty hlarge
  · exact tight_empty hempty
  · exact processLeafBlockwise_tight scratch
  · simp only [not_or, not_le] at hempty
    exact processLeafFullMatrix_tight scratch hempty.1 hempty.2

/-- Blocks in parallel. -/
theorem processLeafParallelLarge_tight (blockRows : Nat) (wantsLuneWitnesses : Bool) :
    src.Tight leaf params.leafKnn
      (src.processLeafParallelLarge params metric leaf blockRows wantsLuneWitnesses) := by
  rw [processLeafParallelLarge]
  split_ifs with hempty hads
  · exact tight_empty hempty
  all_goals
    simp only [not_or, not_le] at hempty
    refine tight_bind (fun e he => fails_of_points he) fun points hpoints => ?_
  · exact tight_ads (forall₂_of_mapM hpoints).length_eq.symm hempty.1 hempty.2
  · refine tight_bind (fun e he => .sketches he) fun _ _ => ?_
    exact tight_rows hempty.1 hempty.2 (rowRuns_blocks _ points (by omega) fun i => rfl)

end LeafSource

end ForgeANN
