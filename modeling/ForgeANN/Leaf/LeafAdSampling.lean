-- SUMMARY: The ADSampling executors of a leaf, and that their seeds fill every row.
import ForgeANN.Rbc.AdSampling

/-!
# ADSampling in a leaf

A row's seeds are the rows behind it, in a cycle. The wavefront executor computes
the distance of a pair once and pushes it into both rows. After the seeds every
row is full, and it stays so.
-/
namespace ForgeANN

open Lib

def LEAF_ADSAMPLING_SEED_EXACT_M : Nat := 8

/-- `AdSamplingConfig::leaf_from_params`, of it the number of seeds. -/
def leafSeedExact (k : Nat) : Nat := max (max LEAF_ADSAMPLING_SEED_EXACT_M k) 1

def TinyTopK.entries (top : StackTopK) : List (Nat × F32) :=
  top.buf.reverse.map fun (dist, idx) => (idx, dist)

/-- A bit of `leaf_adsampling_active_mask`. -/
def leafAdsamplingActive (row leafSize seedExact c : Nat) : Bool :=
  let seedExact := min seedExact (leafSize - 1)
  let seedEnd := row + 1 + seedExact
  c ≠ row &&
    if seedEnd ≤ leafSize then !(row + 1 ≤ c && c < seedEnd)
    else !(row + 1 ≤ c && c < leafSize) && !(c < seedEnd - leafSize : Bool)

/-- `(row + offset) % rows`, for offsets from one. -/
def seedCandidates (rows seedExact row : Nat) : List Nat :=
  (List.range seedExact).map fun offset => (row + (offset + 1)) % rows

/-- The rows' buffers, and the pairs that were seeds, in both directions. -/
structure MutualSeed where
  top : List StackTopK
  seeded : List (Nat × Nat)

namespace AdsKernels

variable (ads : AdsKernels)

/-! ## Row by row -/

/-- A row of `compute_leaf_adsampling_row_tile`. However the rows are cut into tiles, those of a
tile do not meet, and the tiles are put together by their first rows. -/
def computeLeafAdsamplingRow (points : List (List F32)) (k seedExact row : Nat) : StackTopK :=
  let rows := points.length
  let k := max (min k (rows - 1)) 1
  let seedExact := min seedExact (rows - 1)
  let query := points.getD row []
  let seeded := (seedCandidates rows seedExact row).foldl
    (fun top c => TinyTopK.push top (ads.l2Sq query (points.getD c [])) c) (TinyTopK.new k)
  (chunks ADS_LEADER_BLOCK (List.range rows)).foldl (fun top block =>
    let active := block.filter (leafAdsamplingActive row rows seedExact)
    (ads.survivors points (TinyTopK.threshold top) query active).foldl
      (fun top s => TinyTopK.pushUnique top s.1 s.2) top) seeded

def computeLeafAdsamplingRows (points : List (List F32)) (k seedExact : Nat) : List StackTopK :=
  (List.range points.length).map (ads.computeLeafAdsamplingRow points k seedExact)

/-! ## Pair by pair -/

def seedPair (points : List (List F32)) (s : MutualSeed) (pair : Nat × Nat) : MutualSeed :=
  let left := min pair.1 pair.2
  let right := max pair.1 pair.2
  if left = right ∨ (left, right) ∈ s.seeded then s
  else
    let dist := ads.l2Sq (points.getD left []) (points.getD right [])
    { top := (s.top.modify left (TinyTopK.push · dist right)).modify right
        (TinyTopK.push · dist left)
      seeded := (left, right) :: (right, left) :: s.seeded }

def initializeLeafWavefrontMutualSeed (points : List (List F32)) (k seedExact : Nat) : MutualSeed :=
  let rows := points.length
  ((List.range rows).flatMap fun row => (seedCandidates rows seedExact row).map (row, ·)).foldl
    (ads.seedPair points) ⟨List.replicate rows (TinyTopK.new k), []⟩

def rowThreshold (top : List StackTopK) (row : Nat) : F32 :=
  match top[row]? with
  | some t => TinyTopK.threshold t
  | none => .infinity

/-- The thresholds are those before any pair of the two blocks is pushed. -/
def runLeafWavefrontOffdiagPair (points : List (List F32)) (seeded : List (Nat × Nat))
    (leftBlock rightBlock : List Nat) (top : List StackTopK) : List StackTopK :=
  let pairs := leftBlock.flatMap fun left =>
    (rightBlock.filter fun right => (left, right) ∉ seeded).filterMap fun right =>
      (ads.distanceBelow ((rowThreshold top left).max (rowThreshold top right))
        (points.getD left []) (points.getD right [])).map fun dist => (left, right, dist)
  pairs.foldl (fun top (left, right, dist) =>
    (top.modify left (TinyTopK.push · dist right)).modify right (TinyTopK.push · dist left)) top

/-- Within a block, every row is scanned for itself. -/
def runLeafWavefrontDiagonalBlock (points : List (List F32)) (seeded : List (Nat × Nat))
    (block : List Nat) (top : List StackTopK) : List StackTopK :=
  block.foldl (fun top row =>
    let active := block.filter fun c => c ≠ row ∧ (row, c) ∉ seeded
    top.modify row fun t =>
      (ads.survivors points (TinyTopK.threshold t) (points.getD row []) active).foldl
        (fun t s => TinyTopK.push t s.1 s.2) t) top

def computeLeafAdsamplingWavefront (points : List (List F32)) (k seedExact : Nat) :
    List StackTopK :=
  let rows := points.length
  let k := max (min k (rows - 1)) 1
  let seedExact := min seedExact (rows - 1)
  let start := ads.initializeLeafWavefrontMutualSeed points k seedExact
  let blocks := chunks ADS_LEADER_BLOCK (List.range rows)
  (List.range blocks.length).foldl (fun top wave =>
    ads.runLeafWavefrontDiagonalBlock points start.seeded (blocks.getD wave [])
      ((List.range wave).foldl (fun top left =>
        ads.runLeafWavefrontOffdiagPair points start.seeded (blocks.getD left [])
          (blocks.getD wave []) top) top)) start.top

end AdsKernels

/-! ## Seeds -/

variable {n row : Nat}

theorem succ_mod {d : Nat} (hrow : row < n) (hd : d < n) :
    (row + d) % n = if row + d < n then row + d else row + d - n := by
  split_ifs with h
  · exact Nat.mod_eq_of_lt h
  · rw [Nat.mod_eq_sub_mod (not_lt.mp h), Nat.mod_eq_of_lt (by omega)]

theorem seedCandidates_length (rows seedExact row : Nat) :
    (seedCandidates rows seedExact row).length = seedExact := by
  rw [seedCandidates, List.length_map, List.length_range]

/-- The seeds of a row are other rows. -/
theorem mem_seedCandidates {seedExact c : Nat} (hrow : row < n) (hseed : seedExact ≤ n - 1)
    (hc : c ∈ seedCandidates n seedExact row) : c < n ∧ c ≠ row := by
  obtain ⟨offset, hoffset, rfl⟩ := List.mem_map.mp hc
  rw [List.mem_range] at hoffset
  rw [succ_mod hrow (by omega)]
  split_ifs <;> omega

theorem seedCandidates_nodup {seedExact : Nat} (hrow : row < n) (hseed : seedExact ≤ n - 1) :
    (seedCandidates n seedExact row).Nodup := by
  apply List.Nodup.map_on _ List.nodup_range
  intro a ha b hb heq
  rw [List.mem_range] at ha hb
  rw [succ_mod hrow (by omega), succ_mod hrow (by omega)] at heq
  split_ifs at heq <;> omega

theorem mem_seedCandidates_iff {seedExact c : Nat} : c ∈ seedCandidates n seedExact row ↔
    ∃ offset, 1 ≤ offset ∧ offset ≤ seedExact ∧ c = (row + offset) % n := by
  rw [seedCandidates, List.mem_map]
  constructor
  · rintro ⟨offset, hoffset, rfl⟩
    exact ⟨offset + 1, Nat.succ_pos offset, List.mem_range.mp hoffset, rfl⟩
  · rintro ⟨offset, hpos, hle, rfl⟩
    refine ⟨offset - 1, List.mem_range.mpr (by omega), ?_⟩
    rw [Nat.sub_add_cancel hpos]

/-- What is scanned are the rows that are no seeds, but for the row itself. -/
theorem leafAdsamplingActive_iff (hrow : row < n) (seedExact c : Nat) :
    leafAdsamplingActive row n seedExact c = true ↔
      c ≠ row ∧ c ∉ seedCandidates n (min seedExact (n - 1)) row := by
  rw [mem_seedCandidates_iff, leafAdsamplingActive, Bool.and_eq_true, decide_eq_true_eq]
  refine and_congr_right fun hc => ?_
  by_cases hone : row + 1 + min seedExact (n - 1) ≤ n
  · rw [if_pos hone, Bool.not_eq_true', Bool.and_eq_false_iff, decide_eq_false_iff_not,
      decide_eq_false_iff_not]
    constructor
    · rintro hout ⟨offset, hpos, hle, rfl⟩
      rw [succ_mod hrow (by omega)] at hout hc
      split_ifs at hout hc <;> omega
    · intro hout
      by_contra hin
      refine hout ⟨c - row, by omega, by omega, ?_⟩
      rw [succ_mod hrow (by omega), if_pos (by omega)]
      omega
  · rw [if_neg hone, Bool.and_eq_true, Bool.not_eq_true', Bool.not_eq_true',
      Bool.and_eq_false_iff, decide_eq_false_iff_not, decide_eq_false_iff_not,
      decide_eq_false_iff_not]
    constructor
    · rintro hout ⟨offset, hpos, hle, rfl⟩
      rw [succ_mod hrow (by omega)] at hout hc
      split_ifs at hout hc <;> omega
    · intro hout
      by_contra hin
      by_cases hbefore : c < row
      · -- the seed is behind the end of the leaf
        refine hout ⟨c + n - row, by omega, by omega, ?_⟩
        rw [succ_mod hrow (by omega), if_neg (by omega)]
        omega
      · refine hout ⟨c - row, by omega, by omega, ?_⟩
        rw [succ_mod hrow (by omega), if_pos (by omega)]
        omega

theorem not_seed_of_active {seedExact c : Nat} (hrow : row < n) (hseed : seedExact ≤ n - 1)
    (hc : leafAdsamplingActive row n seedExact c = true) :
    c ≠ row ∧ c ∉ seedCandidates n seedExact row := by
  have hactive := (leafAdsamplingActive_iff hrow seedExact c).mp hc
  rwa [Nat.min_eq_left hseed] at hactive

/-! ## The rows one by one -/

variable {ads : AdsKernels} {points : List (List F32)}

theorem AdsKernels.survivors_sublist (threshold : F32) (query : List F32) (active : List Nat) :
    ((ads.survivors points threshold query active).map Prod.snd).Sublist active := by
  induction active with
  | nil => exact .refl _
  | cons c active ih =>
      rw [survivors, List.filterMap_cons]
      cases ads.distanceBelow threshold query (points.getD c []) with
      | none => exact ih.cons c
      | some d => exact ih.cons_cons c

theorem tops_pushesUnique {top : StackTopK} {pushed : List Nat} {survivors : List (F32 × Nat)}
    (h : top.Tops pushed) (hnodup : (survivors.map Prod.snd).Nodup)
    (hnew : ∀ c ∈ survivors.map Prod.snd, c ∉ pushed) :
    (survivors.foldl (fun top s => TinyTopK.pushUnique top s.1 s.2) top).Tops
        ((survivors.map Prod.snd).reverse ++ pushed) ∧
      (survivors.foldl (fun top s => TinyTopK.pushUnique top s.1 s.2) top).k = top.k := by
  induction survivors generalizing top pushed with
  | nil => exact ⟨h, rfl⟩
  | cons s survivors ih =>
      rw [List.map_cons] at hnodup hnew
      obtain ⟨hs, hnodup⟩ := List.nodup_cons.mp hnodup
      rw [List.foldl_cons, List.map_cons, List.reverse_cons, List.append_assoc,
        List.singleton_append]
      obtain ⟨htops, hk⟩ := ih (h.push s.1 (hnew s.2 List.mem_cons_self)) hnodup
        fun c hc hin => (List.mem_cons.mp hin).elim (fun heq => hs (heq ▸ hc))
          (hnew c (List.mem_cons_of_mem s.2 hc))
      exact ⟨htops, hk.trans (StackTopK.push_k s.1 s.2)⟩

/-- A scan of blocks adds candidates of theirs, each once. -/
theorem tops_of_scan (ads : AdsKernels) (points : List (List F32)) (query : List F32)
    {keep : Nat → Bool} {blocks : List (List Nat)} {top : StackTopK} {pushed : List Nat}
    (h : top.Tops pushed) (hnodup : blocks.flatten.Nodup)
    (hnew : ∀ c ∈ blocks.flatten, keep c = true → c ∉ pushed) :
    ∃ more : List Nat, (∀ c ∈ more, c ∈ blocks.flatten ∧ keep c = true) ∧
      (blocks.foldl (fun top block =>
        (ads.survivors points (TinyTopK.threshold top) query (block.filter keep)).foldl
          (fun top s => TinyTopK.pushUnique top s.1 s.2) top) top).Tops (more ++ pushed) ∧
      (blocks.foldl (fun top block =>
        (ads.survivors points (TinyTopK.threshold top) query (block.filter keep)).foldl
          (fun top s => TinyTopK.pushUnique top s.1 s.2) top) top).k = top.k := by
  induction blocks generalizing top pushed with
  | nil => exact ⟨[], fun c hc => (nomatch hc), h, rfl⟩
  | cons block blocks ih =>
      rw [List.flatten_cons] at hnodup hnew
      obtain ⟨hblock, hrest, hdisjoint⟩ := List.nodup_append.mp hnodup
      set found := ads.survivors points (TinyTopK.threshold top) query (block.filter keep)
      have hsub : (found.map Prod.snd).Sublist (block.filter keep) :=
        AdsKernels.survivors_sublist _ _ _
      have hof : ∀ c ∈ found.map Prod.snd, c ∈ block ∧ keep c = true := fun c hc =>
        List.mem_filter.mp (hsub.mem hc)
      obtain ⟨htops, hk⟩ := tops_pushesUnique h (hsub.nodup (hblock.filter _)) fun c hc =>
        hnew c (List.mem_append_left _ (hof c hc).1) (hof c hc).2
      obtain ⟨more, hmore, hall, hlimit⟩ := ih htops hrest fun c hc hkeep hin => by
        rcases List.mem_append.mp hin with hin | hin
        · exact hdisjoint c (hof c (List.mem_reverse.mp hin)).1 c hc rfl
        · exact hnew c (List.mem_append_right _ hc) hkeep hin
      refine ⟨more ++ (found.map Prod.snd).reverse, fun c hc => ?_, ?_, hlimit.trans hk⟩
      · rw [List.flatten_cons]
        rcases List.mem_append.mp hc with hc | hc
        · exact ⟨List.mem_append_right _ (hmore c hc).1, (hmore c hc).2⟩
        · have hc := hof c (List.mem_reverse.mp hc)
          exact ⟨List.mem_append_left _ hc.1, hc.2⟩
      · rw [List.append_assoc]
        exact hall

/-- What a row of an executor holds: as many of the other rows as there is room for. -/
def adsRowSize (rows k : Nat) : Nat := min (max (min k (rows - 1)) 1) 32

abbrev OtherRow (rows row c : Nat) : Prop := c < rows ∧ c ≠ row

theorem computeLeafAdsamplingRow_filled {k : Nat} (hrow : row < points.length)
    (hrows : 1 < points.length) :
    TinyTopK.Filled (OtherRow points.length row) (adsRowSize points.length k)
      (ads.computeLeafAdsamplingRow points k (leafSeedExact k) row) := by
  set n := points.length with hn
  set seedExact := min (leafSeedExact k) (n - 1) with hseedExact
  have hseed : seedExact ≤ n - 1 := Nat.min_le_right _ _
  have henough : adsRowSize n k ≤ seedExact := by
    rw [hseedExact, adsRowSize, leafSeedExact]
    omega
  obtain ⟨hseeds, hk⟩ := TinyTopK.tops_pushes
    (fun c => ads.l2Sq (points.getD row []) (points.getD c []))
    (TinyTopK.tops_new (max (min k (n - 1)) 1)) (seedCandidates_nodup hrow hseed)
    fun c _ => List.not_mem_nil
  rw [List.append_nil] at hseeds
  have hflat : (chunks ADS_LEADER_BLOCK (List.range n)).flatten = List.range n :=
    chunks_flatten (by decide) _
  set blocks := chunks ADS_LEADER_BLOCK (List.range n) with hblocks
  have hnodup : blocks.flatten.Nodup := by
    rw [hflat]
    exact List.nodup_range
  have hnew : ∀ c ∈ blocks.flatten, leafAdsamplingActive row n seedExact c = true →
      c ∉ (seedCandidates n seedExact row).reverse := fun c _ hactive hin =>
    (not_seed_of_active hrow hseed hactive).2 (List.mem_reverse.mp hin)
  obtain ⟨more, hmore, htops, hlimit⟩ := tops_of_scan ads points (points.getD row []) hseeds
    hnodup hnew
  rw [hk, TinyTopK.new_k, Nat.max_eq_left (Nat.le_max_right _ 1)] at hlimit
  rw [AdsKernels.computeLeafAdsamplingRow, adsRowSize, ← hlimit]
  apply TinyTopK.filled_of_tops htops
  · intro c hc
    rcases List.mem_append.mp hc with hc | hc
    · obtain ⟨hin, hactive⟩ := hmore c hc
      rw [hflat] at hin
      exact ⟨List.mem_range.mp hin, (not_seed_of_active hrow hseed hactive).1⟩
    · exact mem_seedCandidates hrow hseed (List.mem_reverse.mp hc)
  · rw [List.length_append, List.length_reverse, seedCandidates_length, hlimit]
    exact henough.trans (Nat.le_add_left _ _)

/-! ## The wavefront's seeds -/

/-- The rows hold what was seeded with them, pair by pair. -/
structure SeededRows (n limit : Nat) (s : MutualSeed) : Prop where
  length : s.top.length = n
  symmetric : ∀ i c, (i, c) ∈ s.seeded → (c, i) ∈ s.seeded
  others : ∀ i c, (i, c) ∈ s.seeded → OtherRow n i c
  rows : ∀ i t, s.top[i]? = some t → t.k = limit ∧
    ∃ pushed : List Nat, t.Tops pushed ∧ ∀ c, c ∈ pushed ↔ (i, c) ∈ s.seeded

/-- A pair goes into both rows, unless it was a seed before. -/
theorem SeededRows.seedPair {limit : Nat} {s : MutualSeed} {c : Nat} (h : SeededRows n limit s)
    (ads : AdsKernels) (points : List (List F32)) (hrow : row < n) (hc : OtherRow n row c) :
    SeededRows n limit (ads.seedPair points s (row, c)) ∧
      (row, c) ∈ (ads.seedPair points s (row, c)).seeded ∧
      ∀ p ∈ s.seeded, p ∈ (ads.seedPair points s (row, c)).seeded := by
  obtain ⟨hcn, hne⟩ := hc
  simp only [AdsKernels.seedPair]
  set left := min row c with hleft
  set right := max row c with hright
  have hlr : left < right := by omega
  have hends : row = left ∧ c = right ∨ row = right ∧ c = left := by
    rcases le_total row c with hle | hle
    · exact .inl ⟨(min_eq_left hle).symm, (max_eq_right hle).symm⟩
    · exact .inr ⟨(max_eq_left hle).symm, (min_eq_right hle).symm⟩
  by_cases hold : (left, right) ∈ s.seeded
  · rw [if_pos (.inr hold)]
    refine ⟨h, ?_, fun p hp => hp⟩
    rcases hends with ⟨h₁, h₂⟩ | ⟨h₁, h₂⟩
    · rw [h₁, h₂]
      exact hold
    · rw [h₁, h₂]
      exact h.symmetric left right hold
  rw [if_neg (not_or.mpr ⟨hlr.ne, hold⟩)]
  have hback : (right, left) ∉ s.seeded := fun hin => hold (h.symmetric right left hin)
  set dist := ads.l2Sq (points.getD left []) (points.getD right [])
  refine ⟨⟨?_, ?_, ?_, ?_⟩, ?_, fun p hp => List.mem_cons_of_mem _ (List.mem_cons_of_mem _ hp)⟩
  · rw [List.length_modify, List.length_modify, h.length]
  · intro i j hij
    simp only [List.mem_cons, Prod.mk.injEq] at hij ⊢
    rcases hij with ⟨rfl, rfl⟩ | ⟨rfl, rfl⟩ | hij
    · exact .inr (.inl ⟨rfl, rfl⟩)
    · exact .inl ⟨rfl, rfl⟩
    · exact .inr (.inr (h.symmetric i j hij))
  · intro i j hij
    simp only [List.mem_cons, Prod.mk.injEq] at hij
    rcases hij with ⟨rfl, rfl⟩ | ⟨rfl, rfl⟩ | hij
    · exact ⟨max_lt hrow hcn, hlr.ne'⟩
    · exact ⟨(min_le_left row c).trans_lt hrow, hlr.ne⟩
    · exact h.others i j hij
  · intro i t ht
    simp only at ht
    by_cases hi : i = left
    · subst hi
      rw [List.getElem?_modify_ne _ _ hlr.ne', List.getElem?_modify_eq] at ht
      obtain ⟨t₀, ht₀, rfl⟩ := Option.map_eq_some_iff.mp ht
      obtain ⟨hk, pushed, htops, hiff⟩ := h.rows _ t₀ ht₀
      refine ⟨(TinyTopK.push_k dist).trans hk, right :: pushed,
        TinyTopK.tops_push htops dist fun hin => hold ((hiff right).mp hin), fun j => ?_⟩
      simp only [List.mem_cons, Prod.mk.injEq, true_and, hlr.ne, false_and, false_or, hiff]
    · by_cases hi' : i = right
      · subst hi'
        rw [List.getElem?_modify_eq, List.getElem?_modify_ne _ _ hlr.ne] at ht
        obtain ⟨t₀, ht₀, rfl⟩ := Option.map_eq_some_iff.mp ht
        obtain ⟨hk, pushed, htops, hiff⟩ := h.rows _ t₀ ht₀
        refine ⟨(TinyTopK.push_k dist).trans hk, left :: pushed,
          TinyTopK.tops_push htops dist fun hin => hback ((hiff left).mp hin), fun j => ?_⟩
        simp only [List.mem_cons, Prod.mk.injEq, true_and, hlr.ne', false_and, false_or, hiff]
      · rw [List.getElem?_modify_ne _ _ (Ne.symm hi'),
          List.getElem?_modify_ne _ _ (Ne.symm hi)] at ht
        obtain ⟨hk, pushed, htops, hiff⟩ := h.rows i t ht
        refine ⟨hk, pushed, htops, fun j => ?_⟩
        simp only [List.mem_cons, Prod.mk.injEq, hi, hi', false_and, false_or, hiff]
  · rcases hends with ⟨h₁, h₂⟩ | ⟨h₁, h₂⟩
    · rw [h₁, h₂]
      exact List.mem_cons_self
    · rw [h₁, h₂]
      exact List.mem_cons_of_mem _ List.mem_cons_self

theorem SeededRows.seedPairs {limit : Nat} {s : MutualSeed} (h : SeededRows n limit s)
    (ads : AdsKernels) (points : List (List F32)) {pairs : List (Nat × Nat)}
    (hpairs : ∀ p ∈ pairs, p.1 < n ∧ OtherRow n p.1 p.2) :
    SeededRows n limit (pairs.foldl (ads.seedPair points) s) ∧
      (∀ p ∈ pairs, p ∈ (pairs.foldl (ads.seedPair points) s).seeded) ∧
      ∀ p ∈ s.seeded, p ∈ (pairs.foldl (ads.seedPair points) s).seeded := by
  induction pairs generalizing s with
  | nil => exact ⟨h, fun p hp => (nomatch hp), fun p hp => hp⟩
  | cons pair pairs ih =>
      obtain ⟨hrow, hc⟩ := hpairs pair List.mem_cons_self
      obtain ⟨hrows, hin, hkept⟩ := h.seedPair ads points hrow hc
      rw [List.foldl_cons]
      obtain ⟨hall, hpaired, hmore⟩ := ih hrows fun p hp => hpairs p (List.mem_cons_of_mem pair hp)
      refine ⟨hall, fun p hp => ?_, fun p hp => hmore p (hkept p hp)⟩
      rcases List.mem_cons.mp hp with rfl | hp
      · exact hmore _ hin
      · exact hpaired p hp

/-- Every row is full of other rows. -/
structure RowsFilled (n size : Nat) (top : List StackTopK) : Prop where
  length : top.length = n
  filled : ∀ i t, top[i]? = some t → TinyTopK.Filled (OtherRow n i) size t

theorem seeded_rowsFilled {k : Nat} (hrows : 1 < points.length) :
    RowsFilled points.length (adsRowSize points.length k)
      (ads.initializeLeafWavefrontMutualSeed points (max (min k (points.length - 1)) 1)
        (min (leafSeedExact k) (points.length - 1))).top := by
  set n := points.length with hn
  set seedExact := min (leafSeedExact k) (n - 1) with hseedExact
  have hseed : seedExact ≤ n - 1 := Nat.min_le_right _ _
  have henough : adsRowSize n k ≤ seedExact := by
    rw [hseedExact, adsRowSize, leafSeedExact]
    omega
  have hstart : SeededRows n (adsRowSize n k)
      ⟨List.replicate n (TinyTopK.new (max (min k (n - 1)) 1)), []⟩ := by
    refine ⟨List.length_replicate, fun i c hin => (nomatch hin), fun i c hin => (nomatch hin), ?_⟩
    intro i t ht
    rw [List.getElem?_replicate] at ht
    split_ifs at ht
    cases ht
    refine ⟨?_, [], TinyTopK.tops_new _, fun c => by simp⟩
    rw [TinyTopK.new_k, Nat.max_eq_left (Nat.le_max_right _ 1), adsRowSize]
  have hpairs : ∀ p ∈ (List.range n).flatMap fun row =>
      (seedCandidates n seedExact row).map (row, ·), p.1 < n ∧ OtherRow n p.1 p.2 := by
    intro p hp
    obtain ⟨row, hrow, hp⟩ := List.mem_flatMap.mp hp
    obtain ⟨c, hc, rfl⟩ := List.mem_map.mp hp
    exact ⟨List.mem_range.mp hrow, mem_seedCandidates (List.mem_range.mp hrow) hseed hc⟩
  obtain ⟨hall, hpaired, -⟩ := hstart.seedPairs ads points hpairs
  refine ⟨hall.length, fun i t ht => ?_⟩
  obtain ⟨hk, pushed, htops, hiff⟩ := hall.rows i t ht
  have hi : i < n := (List.getElem?_eq_some_iff.mp ht).1.trans_eq hall.length
  -- all seeds of the row were pushed into it, by itself or by the other row of the pair
  have hseeds : seedCandidates n seedExact i ⊆ pushed := fun c hc =>
    (hiff c).mpr (hpaired (i, c) (List.mem_flatMap.mpr
      ⟨i, List.mem_range.mpr hi, List.mem_map_of_mem hc⟩))
  have hlen := (List.subperm_of_subset (seedCandidates_nodup hi hseed) hseeds).length_le
  rw [seedCandidates_length] at hlen
  have hfilled : TinyTopK.Filled (OtherRow n i) t.k t := TinyTopK.filled_of_tops htops
    (fun c hc => hall.others i c ((hiff c).mp hc)) (by rw [hk]; exact henough.trans hlen)
  rwa [hk] at hfilled

/-! ## The wavefront's scan -/

section

variable {size : Nat} {top : List StackTopK}

/-- What one row is given, it stays full with. -/
theorem RowsFilled.modify (h : RowsFilled n size top) (i : Nat) {f : StackTopK → StackTopK}
    (hf : ∀ t, TinyTopK.Filled (OtherRow n i) size t → TinyTopK.Filled (OtherRow n i) size (f t)) :
    RowsFilled n size (top.modify i f) := by
  refine ⟨by rw [List.length_modify, h.length], fun j t ht => ?_⟩
  by_cases hij : i = j
  · subst hij
    rw [List.getElem?_modify_eq] at ht
    obtain ⟨t₀, ht₀, rfl⟩ := Option.map_eq_some_iff.mp ht
    exact hf t₀ (h.filled i t₀ ht₀)
  · rw [List.getElem?_modify_ne _ _ hij] at ht
    exact h.filled j t ht

/-- Pairs of different rows are pushed both ways. -/
theorem RowsFilled.pushPairs {pairs : List (Nat × Nat × F32)} (h : RowsFilled n size top)
    (hpairs : ∀ p ∈ pairs, p.1 < n ∧ p.2.1 < n ∧ p.1 ≠ p.2.1) :
    RowsFilled n size (pairs.foldl (fun top (left, right, dist) =>
      (top.modify left (TinyTopK.push · dist right)).modify right (TinyTopK.push · dist left))
      top) := by
  refine List.foldlRecOn pairs _ h fun top htop pair hpair => ?_
  obtain ⟨left, right, dist⟩ := pair
  obtain ⟨hleft, hright, hne⟩ := hpairs _ hpair
  exact (htop.modify left fun t ht => ht.push dist ⟨hright, hne.symm⟩).modify right
    fun t ht => ht.push dist ⟨hleft, hne⟩

theorem RowsFilled.offdiagPair {seeded : List (Nat × Nat)} {leftBlock rightBlock : List Nat}
    (h : RowsFilled n size top) (hleft : ∀ i ∈ leftBlock, i < n) (hright : ∀ i ∈ rightBlock, i < n)
    (hdisjoint : List.Disjoint leftBlock rightBlock) :
    RowsFilled n size
      (ads.runLeafWavefrontOffdiagPair points seeded leftBlock rightBlock top) := by
  apply h.pushPairs
  intro p hp
  obtain ⟨i, hi, hp⟩ := List.mem_flatMap.mp hp
  obtain ⟨j, hj, hp⟩ := List.mem_filterMap.mp hp
  obtain ⟨d, -, rfl⟩ := Option.map_eq_some_iff.mp hp
  have hj := List.mem_of_mem_filter hj
  refine ⟨hleft i hi, hright j hj, fun heq => hdisjoint hi ?_⟩
  rw [show i = j from heq]
  exact hj

theorem RowsFilled.diagonalBlock {seeded : List (Nat × Nat)} {block : List Nat}
    (h : RowsFilled n size top) (hblock : ∀ i ∈ block, i < n) :
    RowsFilled n size (ads.runLeafWavefrontDiagonalBlock points seeded block top) := by
  refine List.foldlRecOn block _ h fun top htop row _ => htop.modify row fun t ht => ?_
  apply ht.pushes
  intro s hs
  obtain ⟨hin, hactive⟩ := List.mem_filter.mp (AdsKernels.mem_survivors hs)
  exact ⟨hblock s.2 hin, (of_decide_eq_true hactive).1⟩

end

/-- Two blocks of a list without repetitions do not meet. -/
theorem blocks_disjoint {blocks : List (List Nat)} (hnodup : blocks.flatten.Nodup)
    {left right : Nat} (hlt : left < right) : List.Disjoint (blocks.getD left []) (blocks.getD right []) := by
  rw [List.getD_eq_getElem?_getD, List.getD_eq_getElem?_getD]
  by_cases hright : right < blocks.length
  · rw [List.getElem?_eq_getElem (hlt.trans hright), List.getElem?_eq_getElem hright]
    exact List.pairwise_iff_getElem.mp (List.nodup_flatten.mp hnodup).2 left right _ hright hlt
  · rw [List.getElem?_eq_none (not_lt.mp hright)]
    exact List.disjoint_nil_right _

theorem computeLeafAdsamplingWavefront_filled {k : Nat} (hrows : 1 < points.length) :
    RowsFilled points.length (adsRowSize points.length k)
      (ads.computeLeafAdsamplingWavefront points k (leafSeedExact k)) := by
  set n := points.length with hn
  have hflat : (chunks ADS_LEADER_BLOCK (List.range n)).flatten = List.range n :=
    chunks_flatten (by decide) _
  set blocks := chunks ADS_LEADER_BLOCK (List.range n) with hblocks
  have hnodup : blocks.flatten.Nodup := hflat ▸ List.nodup_range
  have hblock : ∀ b, ∀ i ∈ blocks.getD b [], i < n := by
    intro b i hi
    rw [List.getD_eq_getElem?_getD] at hi
    cases hb : blocks[b]? with
    | none =>
        rw [hb] at hi
        cases hi
    | some block =>
        rw [hb] at hi
        have hin : i ∈ blocks.flatten := List.mem_flatten.mpr ⟨block, List.mem_of_getElem? hb, hi⟩
        rw [hflat] at hin
        exact List.mem_range.mp hin
  -- a wave goes over the pairs with earlier blocks, and then over the block itself
  refine List.foldlRecOn _ _ (seeded_rowsFilled hrows) fun top htop wave _ => ?_
  refine RowsFilled.diagonalBlock ?_ (hblock wave)
  refine List.foldlRecOn _ _ htop fun top htop left hleft => ?_
  exact htop.offdiagPair (hblock left) (hblock wave)
    (blocks_disjoint hnodup (List.mem_range.mp hleft))

theorem computeLeafAdsamplingRows_filled {k : Nat} (hrows : 1 < points.length) :
    RowsFilled points.length (adsRowSize points.length k)
      (ads.computeLeafAdsamplingRows points k (leafSeedExact k)) := by
  refine ⟨by rw [AdsKernels.computeLeafAdsamplingRows, List.length_map, List.length_range],
    fun i t ht => ?_⟩
  rw [AdsKernels.computeLeafAdsamplingRows, List.getElem?_map] at ht
  obtain ⟨row, hrow, rfl⟩ := Option.map_eq_some_iff.mp ht
  obtain ⟨hi, heq⟩ := List.getElem?_eq_some_iff.mp hrow
  rw [List.getElem_range] at heq
  rw [List.length_range] at hi
  subst heq
  exact computeLeafAdsamplingRow_filled hi hrows

end ForgeANN
