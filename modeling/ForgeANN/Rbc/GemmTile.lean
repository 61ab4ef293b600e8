-- SUMMARY: The nearest leaders of a block of points, tile by tile, are the first of the stable sort of all leaders.
import ForgeANN.Rbc.StackTopK

/-!
# Tiles of leaders

The products of a block of points with the leaders come tile by tile, and every
tile goes into the same buffers. However the leaders are split into tiles, what is
in the buffers at the end is what one pass over all leaders would have left.
-/
namespace ForgeANN

open Lib

/-- `(x_norm + l_norm - 2.0 * gram).max(0.0)`. -/
def gramDistance (xNorm lNorm gram : F32) : F32 :=
  ((xNorm.add lNorm).sub (F32.mul ⟨0x40000000⟩ gram)).max .zero

theorem isNaN_gramDistance (xNorm lNorm gram : F32) : (gramDistance xNorm lNorm gram).isNaN = false :=
  F32.isNaN_max_right (by decide)

/-! ## Updating by a tile -/

section

variable {σ : Type}

/-- The distances of every point to the leaders of a tile go into the point's buffer; `none` where
an index panics. -/
def updateBlock (push : σ → F32 → Nat → Option σ) (rows : List σ) (xNorms lNorms : List F32)
    (gramTile : List (List F32)) (leaderOffset : Nat) : Option (List σ) :=
  rows.zipIdx.mapM fun (buffer, rowIdx) => do
    let xNorm ← xNorms[rowIdx]?
    let row ← gramTile[rowIdx]?
    row.zipIdx.foldlM (fun buffer (gram, localLeaderIdx) => do
      let leaderIdx := leaderOffset + localLeaderIdx
      let lNorm ← lNorms[leaderIdx]?
      push buffer (gramDistance xNorm lNorm gram) leaderIdx) buffer

def updateBlockTopkFromGramTile (topkRows : List StackTopKArray) (xNorms lNorms : List F32)
    (gramTile : List (List F32)) (leaderOffset : Nat) : Option (List StackTopKArray) :=
  updateBlock StackTopKArray.push topkRows xNorms lNorms gramTile leaderOffset

/-- A nearer leader takes the place of the best one. -/
def nearerOf (best : F32 × Nat) (dist2 : F32) (leaderIdx : Nat) : F32 × Nat :=
  if dist2.lt best.1 then (dist2, leaderIdx) else best

/-- The best distances with their leaders. -/
def updateBlockBestFromGramTile (best : List (F32 × Nat)) (xNorms lNorms : List F32)
    (gramTile : List (List F32)) (leaderOffset : Nat) : Option (List (F32 × Nat)) :=
  updateBlock (fun best dist2 leaderIdx => some (nearerOf best dist2 leaderIdx)) best xNorms lNorms
    gramTile leaderOffset

end

/-! ## Blocks -/

/-- A block of points, with its products with all of the leaders. -/
structure GemmBlock where
  xNorms : List F32
  lNorms : List F32
  gram : List (List F32)
  gram_rows : gram.length = xNorms.length
  gram_cols : ∀ row ∈ gram, row.length = lNorms.length

namespace GemmBlock

variable (block : GemmBlock)

/-- The columns of a tile. -/
def gramTile (leaderOffset tileCols : Nat) : List (List F32) :=
  block.gram.map fun row => (row.drop leaderOffset).take tileCols

/-- The tiles one after another, by their widths. -/
def overTiles {σ : Type}
    (update : List σ → List F32 → List F32 → List (List F32) → Nat → Option (List σ)) :
    List Nat → Nat → List σ → Option (List σ)
  | [], _, rows => some rows
  | tileCols :: widths, leaderOffset, rows => do
      let rows ← update rows block.xNorms block.lNorms (block.gramTile leaderOffset tileCols)
        leaderOffset
      overTiles update widths (leaderOffset + tileCols) rows

def distance (point leader : Nat) : F32 :=
  gramDistance (block.xNorms.getD point .zero) (block.lNorms.getD leader .zero)
    ((block.gram.getD point []).getD leader .zero)

/-- A point's leaders with their distances, in order. -/
def leaders (point : Nat) : List (F32 × Nat) :=
  (List.range block.lNorms.length).map fun leader => (block.distance point leader, leader)

end GemmBlock

/-! ## Steps -/

section

variable {α β σ : Type}

theorem mapM_eq_some_map {f : α → Option β} {g : α → β} {l : List α}
    (h : ∀ a ∈ l, f a = some (g a)) : l.mapM f = some (l.map g) := by
  induction l with
  | nil => rfl
  | cons a l ih =>
      rw [List.mapM_cons, h a List.mem_cons_self, ih fun b hb => h b (List.mem_cons_of_mem a hb)]
      rfl

/-- A fold over the numbers below a bound, when every step is known. -/
theorem foldlM_range_eq_some {step : σ → Nat → Option σ} {f : Nat → σ} {n : Nat}
    (h : ∀ j < n, step (f j) j = some (f (j + 1))) :
    (List.range n).foldlM step (f 0) = some (f n) := by
  induction n with
  | zero => rfl
  | succ n ih =>
      rw [List.range_succ, List.foldlM_append, ih fun j hj => h j (Nat.lt_succ_of_lt hj)]
      exact (bind_pure _).trans (h n (Nat.lt_succ_self n))

theorem zipIdx_map_range (f : Nat → α) (n : Nat) :
    ((List.range n).map f).zipIdx = (List.range n).map fun i => (f i, i) := by
  apply List.ext_getElem?
  intro i
  rw [List.getElem?_zipIdx, List.getElem?_map, List.getElem?_map, Option.map_map]
  by_cases hi : i < n
  · rw [List.getElem?_range hi, Option.map_some, Option.map_some]
    simp
  · rw [List.getElem?_eq_none (by rw [List.length_range]; omega)]
    rfl

end

namespace GemmBlock

variable {σ : Type} {block : GemmBlock} {push : σ → F32 → Nat → Option σ} {f : Nat → Nat → σ}

/-- The products of one point with the leaders of a tile. -/
theorem zipIdx_tile_row {row : List F32} {leaderOffset tileCols : Nat}
    (h : leaderOffset + tileCols ≤ row.length) :
    ((row.drop leaderOffset).take tileCols).zipIdx =
      (List.range tileCols).map fun j => (row.getD (leaderOffset + j) .zero, j) := by
  rw [← zipIdx_map_range]
  congr 1
  apply List.ext_getElem?
  intro j
  rw [List.getElem?_map]
  by_cases hj : j < tileCols
  · rw [List.getElem?_take_of_lt hj, List.getElem?_drop, List.getElem?_range hj, Option.map_some,
      List.getD_eq_getElem?_getD, List.getElem?_eq_getElem (by omega), Option.getD_some]
  · rw [List.getElem?_eq_none (by rw [List.length_take]; omega),
      List.getElem?_eq_none (by rw [List.length_range]; omega)]
    rfl

/-- A tile takes every point from the leaders before it to those before the next. -/
theorem updateBlock_eq_some {leaderOffset tileCols : Nat}
    (hstep : ∀ point < block.xNorms.length, ∀ leader < block.lNorms.length,
      push (f point leader) (block.distance point leader) leader = some (f point (leader + 1)))
    (hcols : leaderOffset + tileCols ≤ block.lNorms.length) :
    updateBlock push ((List.range block.xNorms.length).map fun point => f point leaderOffset)
        block.xNorms block.lNorms (block.gramTile leaderOffset tileCols) leaderOffset =
      some ((List.range block.xNorms.length).map fun point => f point (leaderOffset + tileCols)) := by
  rw [updateBlock, zipIdx_map_range]
  refine (mapM_eq_some_map (g := fun p : σ × Nat => f p.2 (leaderOffset + tileCols)) ?_).trans ?_
  · intro p hp
    obtain ⟨point, hpoint, rfl⟩ := List.mem_map.mp hp
    rw [List.mem_range] at hpoint
    have hrow : point < block.gram.length := by rwa [block.gram_rows]
    have hgram : block.gram.getD point [] = block.gram[point] := by
      rw [List.getD_eq_getElem?_getD, List.getElem?_eq_getElem hrow, Option.getD_some]
    have hlen : block.gram[point].length = block.lNorms.length :=
      block.gram_cols _ (List.getElem_mem hrow)
    have hx : block.xNorms[point]? = some (block.xNorms.getD point .zero) := by
      rw [List.getD_eq_getElem?_getD, List.getElem?_eq_getElem hpoint, Option.getD_some]
    have htile : (block.gramTile leaderOffset tileCols)[point]? =
        some ((block.gram[point].drop leaderOffset).take tileCols) := by
      rw [gramTile, List.getElem?_map, List.getElem?_eq_getElem hrow, Option.map_some]
    simp only [hx, htile, Option.bind_eq_bind, Option.bind_some]
    rw [zipIdx_tile_row (by rw [hlen]; exact hcols), List.foldlM_map]
    apply foldlM_range_eq_some (f := fun j => f point (leaderOffset + j))
    intro j hj
    have hleader : leaderOffset + j < block.lNorms.length := by omega
    have hl : block.lNorms[leaderOffset + j]? =
        some (block.lNorms.getD (leaderOffset + j) .zero) := by
      rw [List.getD_eq_getElem?_getD, List.getElem?_eq_getElem hleader, Option.getD_some]
    simp only [hl, Option.bind_some]
    have hnext := hstep point hpoint (leaderOffset + j) hleader
    rw [distance, hgram] at hnext
    exact hnext
  · rw [List.map_map]
    rfl

/-- All of the tiles take it through all of the leaders. -/
theorem overTiles_eq_some (block : GemmBlock) (push : σ → F32 → Nat → Option σ)
    (f : Nat → Nat → σ) (widths : List Nat) (leaderOffset : Nat)
    (hstep : ∀ point < block.xNorms.length, ∀ leader < block.lNorms.length,
      push (f point leader) (block.distance point leader) leader = some (f point (leader + 1)))
    (hcols : leaderOffset + widths.sum ≤ block.lNorms.length) :
    block.overTiles (updateBlock push) widths leaderOffset
        ((List.range block.xNorms.length).map fun point => f point leaderOffset) =
      some ((List.range block.xNorms.length).map fun point =>
        f point (leaderOffset + widths.sum)) := by
  induction widths generalizing leaderOffset with
  | nil => rfl
  | cons tileCols widths ih =>
      rw [List.sum_cons] at hcols ⊢
      rw [overTiles, updateBlock_eq_some hstep (by omega), Option.bind_eq_bind, Option.bind_some,
        ih _ (by omega), Nat.add_assoc]

end GemmBlock

/-! ## What the buffers hold -/

open StackTopK in
/-- On the array every entry can be pushed. -/
theorem exists_array {k : Nat} (hpos : 0 < k) (entries : List (F32 × Nat)) :
    ∃ array, entries.foldlM (fun array entry => array.push entry.1 entry.2)
        (StackTopKArray.new k) = some array ∧
      ((StackTopK.new k).pushAll entries).InArray array := by
  induction entries using List.reverseRecOn with
  | nil => exact ⟨_, rfl, inArray_new k⟩
  | append_singleton entries entry ih =>
      obtain ⟨array, hfold, hin⟩ := ih
      have hlimit : 0 < ((StackTopK.new k).pushAll entries).k := by
        rw [pushAll_k]
        exact lt_min hpos (by decide)
      obtain ⟨next, hnext, hin'⟩ := hin.push hlimit entry.1 entry.2
      refine ⟨next, ?_, ?_⟩
      · rw [List.foldlM_append, hfold]
        exact (bind_pure _).trans hnext
      · rw [pushAll, List.foldl_concat]
        exact hin'

theorem eq_infinity {v : F32} (hnumber : v.isNaN = false) (h : ¬ v.lt .infinity = true) :
    v = .infinity := by
  rw [F32.lt_iff] at h
  have hkey : ¬ v.key < F32.infinity.key := fun hlt => h ⟨hnumber, F32.isNaN_infinity, hlt⟩
  rw [← Bool.not_eq_true, F32.isNaN_iff] at hnumber
  have hinf : F32.infinity.key = 0x7f800000 := by decide
  rw [hinf, F32.key] at hkey
  have hbits : v.bits.toNat = F32.infinity.bits.toNat := by
    have hval : F32.infinity.bits.toNat = 0x7f800000 := rfl
    have hlt := v.bits.toNat_lt
    rw [hval]
    rw [F32.mag] at hkey hnumber
    split_ifs at hkey <;> omega
  exact congrArg F32.mk (UInt32.toNat_inj.mp hbits)

open StackTopK in
/-- The best of the leaders is the first of the stable sort. -/
theorem foldl_nearerOf {dist : Nat → F32} (hnumber : ∀ m, (dist m).isNaN = false) (n : Nat) :
    ((List.range n).map fun m => (dist m, m)).foldl (fun best e => nearerOf best e.1 e.2)
        (F32.infinity, 0) =
      (sortByKey place ((List.range n).map fun m => (dist m, m))).head?.getD (F32.infinity, 0) := by
  induction n with
  | zero =>
      rw [List.range_zero, List.map_nil, sortByKey, List.mergeSort_nil]
      rfl
  | succ n ih =>
      rw [List.range_succ, List.map_append, List.map_singleton, List.foldl_concat, ih,
        sortByKey_concat]
      cases hsort : sortByKey place ((List.range n).map fun m => (dist m, m)) with
      | nil =>
          have hzero : n = 0 := by
            have hlen := congrArg List.length hsort
            rwa [(sortByKey_perm _ _).length_eq, List.length_map, List.length_range] at hlen
          rw [hzero, insertBack, List.head?_nil, List.head?_cons, Option.getD_none,
            Option.getD_some, nearerOf]
          split_ifs with hlt
          · rfl
          · rw [eq_infinity (hnumber 0) hlt]
      | cons first rest =>
          have hfirst : first.1.isNaN = false := by
            have hin : first ∈ (List.range n).map fun m => (dist m, m) :=
              (sortByKey_perm place _).mem_iff.mp (hsort ▸ List.mem_cons_self)
            obtain ⟨m, -, rfl⟩ := List.mem_map.mp hin
            exact hnumber m
          have hiff := lt_iff_place (a := (dist n, n)) (hnumber n) hfirst
          rw [insertBack, List.head?_cons, Option.getD_some, nearerOf]
          by_cases hlt : place (dist n, n) < place first
          · rw [if_pos (hiff.mpr hlt), if_pos hlt, List.head?_cons, Option.getD_some]
          · rw [if_neg fun hd => hlt (hiff.mp hd), if_neg hlt, List.head?_cons, Option.getD_some]

namespace GemmBlock

theorem take_leaders_succ (block : GemmBlock) {point leader : Nat}
    (h : leader < block.lNorms.length) : (block.leaders point).take (leader + 1) =
      (block.leaders point).take leader ++ [(block.distance point leader, leader)] := by
  have hlen : leader < (block.leaders point).length := by
    rwa [leaders, List.length_map, List.length_range]
  rw [List.take_add_one, List.getElem?_eq_getElem hlen]
  simp [leaders]

theorem take_leaders (block : GemmBlock) (point : Nat) :
    (block.leaders point).take block.lNorms.length = block.leaders point := by
  apply List.take_of_length_le
  rw [leaders, List.length_map, List.length_range]

open StackTopK in
/-- However the leaders are split into tiles: every point is left with the first `k` of the stable
sort of its leaders by distance, and with the first of it for a best leader. -/
theorem tiled_leaders (block : GemmBlock) {widths : List Nat} {k : Nat}
    (hwidths : widths.sum = block.lNorms.length) (hpos : 0 < k) (hk : k ≤ 32) :
    (∃ rows, block.overTiles updateBlockTopkFromGramTile widths 0
        (List.replicate block.xNorms.length (.new k)) = some rows ∧
      rows.map StackTopKArray.iter = (List.range block.xNorms.length).map fun point =>
        (sortByKey place (block.leaders point)).take k) ∧
    block.overTiles updateBlockBestFromGramTile widths 0
        (List.replicate block.xNorms.length (.infinity, 0)) =
      some ((List.range block.xNorms.length).map fun point =>
        (sortByKey place (block.leaders point)).head?.getD (.infinity, 0)) := by
  have hnumber : ∀ point, ∀ e ∈ block.leaders point, e.1.isNaN = false := by
    intro point e he
    obtain ⟨leader, -, rfl⟩ := List.mem_map.mp he
    exact isNaN_gramDistance _ _ _
  have hreplicate : ∀ {σ : Type} (s : σ), List.replicate block.xNorms.length s =
      (List.range block.xNorms.length).map fun _ => s := by
    intro σ s
    rw [List.map_const', List.length_range]
  constructor
  · -- the arrays after each number of leaders
    choose array harray hin using fun point leader =>
      exists_array hpos ((block.leaders point).take leader)
    have hrun := overTiles_eq_some block StackTopKArray.push array widths 0
      (fun point _ leader hleader => ?_) (by omega)
    · have hzero : ∀ point, array point 0 = .new k := fun point => by
        have hfold := harray point 0
        rw [List.take_zero, List.foldlM_nil] at hfold
        exact (Option.some.inj hfold).symm
      simp only [hzero] at hrun
      refine ⟨_, (congrArg _ (hreplicate _)).trans hrun, ?_⟩
      rw [List.map_map]
      apply List.map_congr_left
      intro point _
      rw [Function.comp_apply, Nat.zero_add, hwidths, (hin point _).iter_eq, take_leaders]
      exact pushAll_eq_take_sort hk (hnumber point)
    · have hfold := harray point (leader + 1)
      rw [block.take_leaders_succ hleader, List.foldlM_append, harray] at hfold
      exact (bind_pure _).symm.trans hfold
  · have hrun := overTiles_eq_some block
      (fun best dist2 leaderIdx => some (nearerOf best dist2 leaderIdx))
      (fun point leader => ((block.leaders point).take leader).foldl
        (fun best e => nearerOf best e.1 e.2) (.infinity, 0))
      widths 0 (fun point _ leader hleader => ?_) (by omega)
    · refine ((congrArg _ (hreplicate _)).trans hrun).trans (congrArg some ?_)
      apply List.map_congr_left
      intro point _
      rw [Nat.zero_add, hwidths, take_leaders, leaders]
      exact foldl_nearerOf (fun leader => isNaN_gramDistance _ _ _) _
    · rw [block.take_leaders_succ hleader, List.foldl_concat]

/-- Two points and three leaders, whose products are all zero: the distances are sums of norms. -/
def normsOnly : GemmBlock where
  xNorms := [⟨0x3f800000⟩, ⟨0⟩]
  lNorms := [⟨0x40000000⟩, ⟨0x3f800000⟩, ⟨0x3f800000⟩]
  gram := List.replicate 2 (List.replicate 3 .zero)
  gram_rows := rfl
  gram_cols _ h := by rw [List.eq_of_mem_replicate h]; rfl

open StackTopK in
/-- Two tiles, and the two leaders at the same distance in their order. -/
theorem tiled_leaders_two : [2, 1].sum = normsOnly.lNorms.length ∧
    (∃ rows, normsOnly.overTiles updateBlockTopkFromGramTile [2, 1] 0
        (List.replicate 2 (.new 2)) = some rows ∧
      rows.map StackTopKArray.iter = (List.range 2).map fun point =>
        (sortByKey place (normsOnly.leaders point)).take 2) :=
  ⟨rfl, (@tiled_leaders normsOnly [2, 1] 2 rfl (by decide) (by decide)).1⟩

open StackTopK in
/-- Without an entry to compare with, the first leader panics. -/
theorem tiled_leaders_zero_panics : ¬ ∀ (block : GemmBlock) (widths : List Nat) (k : Nat),
    widths.sum = block.lNorms.length → k ≤ 32 →
    ∃ rows, block.overTiles updateBlockTopkFromGramTile widths 0
        (List.replicate block.xNorms.length (.new k)) = some rows ∧
      rows.map StackTopKArray.iter = (List.range block.xNorms.length).map fun point =>
        (sortByKey place (block.leaders point)).take k := by
  intro h
  obtain ⟨rows, hrows, -⟩ := h normsOnly [3] 0 rfl (by decide)
  have hpanic : normsOnly.overTiles updateBlockTopkFromGramTile [3] 0
      (List.replicate 2 (.new 0)) = none := rfl
  exact absurd (hpanic.symm.trans hrows) (by simp)

end GemmBlock

end ForgeANN
