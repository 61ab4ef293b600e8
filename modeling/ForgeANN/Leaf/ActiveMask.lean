-- SUMMARY: The masks of the candidates a leaf row is scanned against, bit by bit, and that scan and seeds meet every other row once.
import ForgeANN.Dataset.InmemDataset
import ForgeANN.Leaf.LeafAdSampling
import ForgeANN.Lib.BitMask

/-!
# Active masks

The candidates of a block that a row is scanned against are the bits of a word.
The row itself and its seeds are cleared from it; the seeds go round the end of
the leaf, so they are one range of rows or two.
-/
namespace ForgeANN

open Lib

/-- The rows of a leaf, in a slice in memory. Before a layout is built, the number of values is
compared with that of the rows, and a dimension of zero is refused. -/
structure AdSamplingLeafLayout where
  rowMajor : List F32
  dim : Nat
  rows : Nat
  dim_pos : 0 < dim
  shape : rowMajor.length = rows * dim
  inMemory : 4 * rowMajor.length < 2 ^ 63

namespace AdSamplingLeafLayout

/-- `build`, of a block its first row and their number. -/
def blocks (layout : AdSamplingLeafLayout) : List (Nat × Nat) :=
  (List.range ((layout.rows + 63) / ADS_LEADER_BLOCK)).map fun i =>
    (ADS_LEADER_BLOCK * i, min (layout.rows - ADS_LEADER_BLOCK * i) ADS_LEADER_BLOCK)

theorem rows_lt (layout : AdSamplingLeafLayout) : layout.rows < 2 ^ 61 := by
  have hle := Nat.le_mul_of_pos_right layout.rows layout.dim_pos
  have hshape := layout.shape
  have hmemory := layout.inMemory
  omega

end AdSamplingLeafLayout

def blockLenMask (len : Nat) : UInt64 :=
  if ADS_LEADER_BLOCK ≤ len then 0xffffffffffffffff else (1 <<< UInt64.ofNat len) - 1

def clearBlockMaskRange (mask : UInt64) (blockStart blockEnd rangeStart rangeEnd : Nat) : UInt64 :=
  let start := max blockStart rangeStart
  let stop := min blockEnd rangeEnd
  if start < stop then
    mask &&& ~~~(blockLenMask (stop - start) <<< UInt64.ofNat (start - blockStart))
  else mask

def leafAdsamplingActiveMask (row blockStart blockLen leafSize seedExact : Nat) : UInt64 :=
  let mask := blockLenMask blockLen
  let blockEnd := wrap (blockStart + blockLen)
  let mask :=
    if blockStart ≤ row ∧ row < blockEnd then mask &&& ~~~(1 <<< UInt64.ofNat (row - blockStart))
    else mask
  if leafSize = 0 then mask
  else
    let seedExact := min seedExact (leafSize - 1)
    if seedExact = 0 then mask
    else
      let seedStart := wrap (row + 1)
      let seedEnd := wrap (seedStart + seedExact)
      if seedEnd ≤ leafSize then clearBlockMaskRange mask blockStart blockEnd seedStart seedEnd
      else
        clearBlockMaskRange (clearBlockMaskRange mask blockStart blockEnd seedStart leafSize)
          blockStart blockEnd 0 (seedEnd - leafSize)

/-- The candidates of a block that are scanned: the loop over the set bits of its mask. -/
def activeCandidates (blockStart : Nat) (mask : UInt64) : List Nat :=
  (setBits mask).map (blockStart + ·)

/-! ## Bits -/

variable {start len row n seedExact b : Nat} {mask : UInt64} {keep : Nat → Bool}

/-- The mask of a block shows which of its candidates are kept. -/
def Shows (start len : Nat) (mask : UInt64) (keep : Nat → Bool) : Prop :=
  ∀ b, bitAt mask b = (decide (b < len) && keep (start + b))

theorem bitAt_blockLenMask (hlen : len ≤ 64) (b : Nat) :
    bitAt (blockLenMask len) b = decide (b < len) := by
  rw [blockLenMask, ADS_LEADER_BLOCK]
  split_ifs with hfull
  · obtain rfl : len = 64 := le_antisymm hlen hfull
    have hones : (0xffffffffffffffff : UInt64).toNat = 2 ^ 64 - 1 := rfl
    rw [bitAt_toNat, hones, Nat.testBit_two_pow_sub_one]
  · exact bitAt_one_shiftLeft_sub_one (not_le.mp hfull) b

theorem shows_blockLenMask (start : Nat) (hlen : len ≤ 64) :
    Shows start len (blockLenMask len) fun _ => true := by
  intro b
  rw [bitAt_blockLenMask hlen, Bool.and_true]

theorem Shows.clearOne (h : Shows start len mask keep) (hlen : len ≤ 64) (row : Nat) :
    Shows start len
      (if start ≤ row ∧ row < start + len then
        mask &&& ~~~(1 <<< UInt64.ofNat (row - start))
      else mask) fun c => keep c && decide (c ≠ row) := by
  intro b
  split_ifs with hin
  · rw [bitAt_and_not, bitAt_one_shiftLeft (by omega), h b, Bool.and_assoc, ← decide_not]
    congr 2
    rw [decide_eq_decide]
    omega
  · rw [h b]
    by_cases hb : b < len
    · have hne : decide (start + b ≠ row) = true := decide_eq_true (by omega)
      simp only [hne, Bool.and_true]
    · rw [decide_eq_false hb, Bool.false_and, Bool.false_and]

theorem Shows.clearRange (h : Shows start len mask keep) (hlen : len ≤ 64)
    (rangeStart rangeEnd : Nat) :
    Shows start len (clearBlockMaskRange mask start (start + len) rangeStart rangeEnd)
      fun c => keep c && !(decide (rangeStart ≤ c) && decide (c < rangeEnd)) := by
  intro b
  rw [clearBlockMaskRange]
  by_cases hb : b < len
  · split_ifs with hrange
    · rw [bitAt_and_not, h b, bitAt_shiftLeft _ (by omega), bitAt_blockLenMask (by omega),
        Bool.and_assoc]
      congr 3
      rw [Bool.eq_iff_iff]
      simp only [Bool.and_eq_true, decide_eq_true_eq]
      omega
    · rw [h b]
      have hout : (decide (rangeStart ≤ start + b) && decide (start + b < rangeEnd)) = false := by
        rw [Bool.and_eq_false_iff, decide_eq_false_iff_not, decide_eq_false_iff_not]
        omega
      simp only [hout, Bool.not_false, Bool.and_true]
  · have hoff : bitAt mask b = false := by
      rw [h b, decide_eq_false hb, Bool.false_and]
    rw [decide_eq_false hb, Bool.false_and]
    split_ifs
    · rw [bitAt_and_not, hoff, Bool.false_and]
    · exact hoff

/-- Bit by bit, the mask of a block of the leaf is the condition on its candidates. -/
theorem shows_leafAdsamplingActiveMask (layout : AdSamplingLeafLayout) (hrow : row < layout.rows)
    (hlen : len ≤ 64) (hblock : start + len ≤ layout.rows) (seedExact : Nat) :
    Shows start len (leafAdsamplingActiveMask row start len layout.rows seedExact)
      (leafAdsamplingActive row layout.rows seedExact) := by
  have hrows := layout.rows_lt
  have hown := (shows_blockLenMask start hlen).clearOne hlen row
  have hend : wrap (start + len) = start + len := wrap_of_lt (by omega)
  have hstart : wrap (row + 1) = row + 1 := wrap_of_lt (by omega)
  have hseed : wrap (row + 1 + min seedExact (layout.rows - 1)) =
      row + 1 + min seedExact (layout.rows - 1) := wrap_of_lt (by omega)
  simp only [leafAdsamplingActiveMask, hend, hstart, hseed]
  generalize (if start ≤ row ∧ row < start + len then
    blockLenMask len &&& ~~~(1 <<< UInt64.ofNat (row - start)) else blockLenMask len) = own at hown ⊢
  rw [if_neg (by omega)]
  intro b
  rw [leafAdsamplingActive]
  by_cases hnone : min seedExact (layout.rows - 1) = 0
  · rw [if_pos hnone, hown b, hnone, Nat.add_zero, if_pos (Nat.succ_le_of_lt hrow)]
    have hempty : (decide (row + 1 ≤ start + b) && decide (start + b < row + 1)) = false := by
      rw [Bool.and_eq_false_iff, decide_eq_false_iff_not, decide_eq_false_iff_not]
      omega
    simp only [hempty, Bool.not_false, Bool.true_and, Bool.and_true]
  · rw [if_neg hnone]
    by_cases hone : row + 1 + min seedExact (layout.rows - 1) ≤ layout.rows
    · rw [if_pos hone, if_pos hone, hown.clearRange hlen _ _ b]
      simp only [Bool.true_and]
    · rw [if_neg hone, if_neg hone, (hown.clearRange hlen _ _).clearRange hlen _ _ b]
      simp only [Bool.true_and, Nat.zero_le, decide_true, Bool.and_assoc]

/-! ## Candidates -/

/-- The candidates of the set bits are those of the block that are kept. -/
theorem Shows.activeCandidates_perm (h : Shows start len mask keep) :
    (activeCandidates start mask).Perm ((List.range' start len).filter keep) := by
  apply (List.perm_ext_iff_of_nodup _ _).mpr
  · intro c
    rw [activeCandidates, List.mem_map, List.mem_filter, List.mem_range'_1]
    constructor
    · rintro ⟨b, hb, rfl⟩
      rw [mem_setBits, h b, Bool.and_eq_true, decide_eq_true_eq] at hb
      exact ⟨by omega, hb.2⟩
    · rintro ⟨hin, hkeep⟩
      have hplace : start + (c - start) = c := by omega
      refine ⟨c - start, ?_, hplace⟩
      rw [mem_setBits, h, hplace, hkeep, Bool.and_true, decide_eq_true_eq]
      omega
  · exact (setBits_nodup mask).map fun a b hab => Nat.add_left_cancel hab
  · exact List.Nodup.filter _ List.nodup_range'

/-- Blocks of at most 64 candidates in the leaf, with each of its rows in one of them. -/
structure Tiles (n : Nat) (blocks : List (Nat × Nat)) : Prop where
  length_le : ∀ block ∈ blocks, block.2 ≤ ADS_LEADER_BLOCK
  inside : ∀ block ∈ blocks, block.1 + block.2 ≤ n
  covers : (blocks.flatMap fun block => List.range' block.1 block.2).Perm (List.range n)

theorem flatMap_blocks (n m : Nat) :
    ((List.range m).flatMap fun i =>
      List.range' (ADS_LEADER_BLOCK * i) (min (n - ADS_LEADER_BLOCK * i) ADS_LEADER_BLOCK)) =
      List.range (min n (ADS_LEADER_BLOCK * m)) := by
  induction m with
  | zero => rw [Nat.mul_zero, Nat.min_zero, List.range_zero, List.flatMap_nil]
  | succ m ih =>
      rw [List.range_succ, List.flatMap_append, ih, List.flatMap_singleton, List.range_eq_range',
        List.range_eq_range', Nat.mul_succ]
      generalize ADS_LEADER_BLOCK * m = done
      by_cases hdone : done ≤ n
      · rw [Nat.min_eq_right hdone]
        have happend := @List.range'_append_1 0 done (min (n - done) ADS_LEADER_BLOCK)
        rw [Nat.zero_add] at happend
        rw [happend]
        congr 1
        omega
      · have hnone : min (n - done) ADS_LEADER_BLOCK = 0 := by omega
        rw [hnone, List.range'_zero, List.append_nil]
        congr 1
        omega

/-- The blocks of a layout are such. -/
theorem AdSamplingLeafLayout.tiles_blocks (layout : AdSamplingLeafLayout) :
    Tiles layout.rows layout.blocks where
  length_le block hblock := by
    obtain ⟨i, -, rfl⟩ := List.mem_map.mp hblock
    exact Nat.min_le_right ..
  inside block hblock := by
    obtain ⟨i, hi, rfl⟩ := List.mem_map.mp hblock
    rw [List.mem_range] at hi
    simp only [ADS_LEADER_BLOCK] at hi ⊢
    omega
  covers := by
    rw [blocks, List.flatMap_map, flatMap_blocks, Nat.min_eq_left]
    rw [ADS_LEADER_BLOCK]
    omega

/-- Scanned and seeded together: every other row once. -/
theorem scanned_and_seeds_perm (hrow : row < n) (seedExact : Nat) {scanned : List Nat}
    (h : scanned.Perm ((List.range n).filter (leafAdsamplingActive row n seedExact))) :
    (scanned ++ seedCandidates n (min seedExact (n - 1)) row).Perm
      ((List.range n).filter fun c => c ≠ row) := by
  have hseed : min seedExact (n - 1) ≤ n - 1 := Nat.min_le_right ..
  refine (h.append_right _).trans ((List.perm_ext_iff_of_nodup ?_ ?_).mpr fun c => ?_)
  · refine List.nodup_append'.mpr ⟨List.nodup_range.filter _, seedCandidates_nodup hrow hseed, ?_⟩
    intro c hactive hin
    exact ((leafAdsamplingActive_iff hrow seedExact c).mp (List.mem_filter.mp hactive).2).2 hin
  · exact List.nodup_range.filter _
  · rw [List.mem_append, List.mem_filter, List.mem_filter, List.mem_range, decide_eq_true_eq,
      leafAdsamplingActive_iff hrow]
    constructor
    · rintro (⟨hc, hne, -⟩ | hin)
      · exact ⟨hc, hne⟩
      · exact mem_seedCandidates hrow hseed hin
    · rintro ⟨hc, hne⟩
      by_cases hin : c ∈ seedCandidates n (min seedExact (n - 1)) row
      · exact .inr hin
      · exact .inl ⟨hc, hne, hin⟩

theorem Tiles.scanned_perm {layout : AdSamplingLeafLayout} {blocks : List (Nat × Nat)}
    (h : Tiles layout.rows blocks) (hrow : row < layout.rows) (seedExact : Nat) :
    (blocks.flatMap fun block => activeCandidates block.1
      (leafAdsamplingActiveMask row block.1 block.2 layout.rows seedExact)).Perm
      ((List.range layout.rows).filter (leafAdsamplingActive row layout.rows seedExact)) := by
  refine .trans ?_ (h.covers.filter _)
  rw [List.filter_flatMap]
  exact .flatMap_left _ fun block hblock => (shows_leafAdsamplingActiveMask layout hrow
    (h.length_le block hblock) (h.inside block hblock) seedExact).activeCandidates_perm

theorem leafAdsamplingActiveMask_exact (layout : AdSamplingLeafLayout) (hrow : row < layout.rows)
    (seedExact : Nat) :
    (∀ start len, len ≤ 64 → start + len ≤ layout.rows → ∀ b,
      bitAt (leafAdsamplingActiveMask row start len layout.rows seedExact) b = true ↔
        b < len ∧ start + b ≠ row ∧
          ∀ o, 1 ≤ o → o ≤ min seedExact (layout.rows - 1) → start + b ≠ (row + o) % layout.rows) ∧
    ∀ blocks, Tiles layout.rows blocks →
      ((blocks.flatMap fun block => activeCandidates block.1
          (leafAdsamplingActiveMask row block.1 block.2 layout.rows seedExact)) ++
        seedCandidates layout.rows (min seedExact (layout.rows - 1)) row).Perm
        ((List.range layout.rows).filter fun c => c ≠ row) := by
  constructor
  · intro start len hlen hblock b
    rw [shows_leafAdsamplingActiveMask layout hrow hlen hblock seedExact b, Bool.and_eq_true,
      decide_eq_true_eq, leafAdsamplingActive_iff hrow, mem_seedCandidates_iff]
    push Not
    rfl
  · exact fun blocks htiles => scanned_and_seeds_perm hrow seedExact (htiles.scanned_perm hrow seedExact)

/-- Three rows of one value. -/
def threeRows : AdSamplingLeafLayout where
  rowMajor := [⟨0⟩, ⟨0⟩, ⟨0⟩]
  dim := 1
  rows := 3
  dim_pos := Nat.one_pos
  shape := rfl
  inMemory := by decide

theorem leafAdsamplingActiveMask_exact_three :
    bitAt (leafAdsamplingActiveMask 2 0 3 3 1) 1 = true ∧
    ([(0, 2), (2, 1)].flatMap (fun block : Nat × Nat => activeCandidates block.1
        (leafAdsamplingActiveMask 2 block.1 block.2 3 1)) ++ seedCandidates 3 1 2).Perm
      ((List.range 3).filter fun c => c ≠ 2) := by
  obtain ⟨hbits, htiles⟩ :=
    leafAdsamplingActiveMask_exact threeRows (by decide : 2 < threeRows.rows) 1
  refine ⟨(hbits 0 3 (by decide) (by decide) 1).mpr ⟨by decide, by decide, ?_⟩,
    htiles [(0, 2), (2, 1)] ⟨by decide, by decide, by decide⟩⟩
  intro o hpos hle
  obtain rfl : o = 1 := le_antisymm hle hpos
  decide

end ForgeANN
