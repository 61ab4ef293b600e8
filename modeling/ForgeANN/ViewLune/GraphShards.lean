-- SUMMARY: Spill shards reduced in parallel to files of graph rows, and these files put together.
import ForgeANN.Graph.MemIndex
import ForgeANN.Lib.Except
import ForgeANN.Lib.PaddedNames
import Mathlib.Data.List.Sort

/-!
# Graph shards

Points are cut into ranges, one for each spill shard. The shards are reduced one
after the other, or in parallel into a file each; the files are then put
together in the order of their names.
-/
namespace ForgeANN

open Lib

/-! ## The two reducers -/

/-- What a `SpillingViewLuneRecorder` has of use here. `reduceRows shardIdx shardLen` loads the files
of a shard into an accumulator of so many rows, and gives the neighbors of each. -/
structure ViewLuneSpill where
  numPoints : Nat
  requestedShards : Nat
  reduceRows : Nat → Nat → AnnResult (Nat → List UInt32)

/-- The number of bytes behind the header and the greatest degree, beside what is written. -/
structure RawGraphFile where
  content : Bytes
  bytes : UInt64
  maxDegree : UInt32
deriving DecidableEq, Repr

/-- `write_raw_graph_row`. -/
def RawGraphFile.writeRawGraphRow (file : RawGraphFile) (neighbors : List UInt32) :
    RawGraphFile where
  content := file.content ++ encodeRow neighbors
  bytes := file.bytes + UInt64.ofNat ((neighbors.length + 1) * 4)
  maxDegree := max file.maxDegree (degreeOf neighbors)

/-- A file, with the sources of its rows. -/
structure ViewLuneRawGraphShard where
  path : List Nat
  sources : List Nat
  file : RawGraphFile
deriving DecidableEq, Repr

/-- The bytes of a file name. -/
def nameBytes (name : String) : List Nat := name.toList.map Char.toNat

/-- `format!("view_lune_graph_rows_{shard_idx:04}.bin")`. -/
def graphPath (shardIdx : Nat) : List Nat :=
  paddedName (nameBytes "view_lune_graph_rows_") 4 shardIdx (nameBytes ".bin")

namespace ViewLuneSpill

variable (spill : ViewLuneSpill)

def shardCount : Nat := min (max spill.requestedShards 1) (max spill.numPoints 1)

def shardRows : Nat := (spill.numPoints + spill.shardCount - 1) / spill.shardCount

/-- The shard that the records of a source are written to. -/
def shardIndex (source : Nat) : Option Nat :=
  if source < spill.numPoints then some (min (source / spill.shardRows) (spill.shardCount - 1))
  else none

def localSource (source shardIdx : Nat) : Nat := source - shardIdx * spill.shardRows

def shardStart (shardIdx : Nat) : Nat := shardIdx * spill.shardRows

def shardLen (shardIdx : Nat) : Nat :=
  min (spill.shardStart shardIdx + spill.shardRows) spill.numPoints - spill.shardStart shardIdx

/-- The calls of `on_row` for a shard. -/
def shardCalls (shardIdx : Nat) (rows : Nat → List UInt32) : List (Nat × List UInt32) :=
  (List.range (spill.shardLen shardIdx)).map fun i => (spill.shardStart shardIdx + i, rows i)

/-- The loop of `reduce_all_rows_with`, as the calls of `on_row`. -/
def reduceShards : List Nat → AnnResult (List (Nat × List UInt32))
  | [] => .ok []
  | shardIdx :: rest =>
      if spill.numPoints ≤ spill.shardStart shardIdx then .ok []
      else do
        let rows ← spill.reduceRows shardIdx (spill.shardLen shardIdx)
        let calls ← reduceShards rest
        .ok (spill.shardCalls shardIdx rows ++ calls)

/-- `reduce_all_rows_with`. -/
def reduceAllRows : AnnResult (List (Nat × List UInt32)) :=
  spill.reduceShards (List.range spill.shardCount)

/-- The file of some calls of `on_row`. -/
def graphShard (shardIdx : Nat) (calls : List (Nat × List UInt32)) : ViewLuneRawGraphShard where
  path := graphPath shardIdx
  sources := calls.map Prod.fst
  file := (calls.map Prod.snd).foldl RawGraphFile.writeRawGraphRow ⟨[], 0, 0⟩

def reduceShardToRawGraph (shardIdx : Nat) : AnnResult ViewLuneRawGraphShard := do
  let rows ← spill.reduceRows shardIdx (spill.shardLen shardIdx)
  .ok (graphShard shardIdx (spill.shardCalls shardIdx rows))

/-- `reduce_all_rows_to_raw_graph_shards_parallel`: collected in the order of the shards, whoever
has reduced them, and sorted by path. -/
def reduceAllRowsToRawGraphShardsParallel : AnnResult (List ViewLuneRawGraphShard) := do
  let results ← (List.range spill.shardCount).mapM spill.reduceShardToRawGraph
  .ok (results.insertionSort fun a b => a.path ≤ b.path)

end ViewLuneSpill

/-- `write_raw_graph_shards_to_mem_index`. -/
def writeRawGraphShardsToMemIndex (start : UInt32) (graphShards : List ViewLuneRawGraphShard) :
    AnnResult Bytes :=
  let rowBytes := (graphShards.map fun shard => shard.file.bytes).foldl (· + ·) 0
  if 2 ^ 64 ≤ 24 + rowBytes.toNat then .error (.index "ViewLune graph index size overflow")
  else
    let maxDegree := (graphShards.map fun shard => shard.file.maxDegree).foldl max 0
    .ok (memGraphHeader (24 + rowBytes) maxDegree start 0 ++
      graphShards.flatMap fun shard => shard.file.content)

def ViewLuneRawGraphShard.hasRows (shard : ViewLuneRawGraphShard) : Bool := !shard.sources.isEmpty

/-! ## Ranges -/

namespace ViewLuneSpill

variable {spill : ViewLuneSpill}

theorem shardCount_pos (spill : ViewLuneSpill) : 0 < spill.shardCount :=
  Nat.lt_min.mpr ⟨Nat.lt_of_lt_of_le Nat.one_pos (Nat.le_max_right ..),
    Nat.lt_of_lt_of_le Nat.one_pos (Nat.le_max_right ..)⟩

/-- The ranges reach to the last point. -/
theorem numPoints_le (spill : ViewLuneSpill) :
    spill.numPoints ≤ spill.shardCount * spill.shardRows := by
  have hpos := spill.shardCount_pos
  have hdiv := Nat.div_add_mod (spill.numPoints + spill.shardCount - 1) spill.shardCount
  have hmod := Nat.mod_lt (spill.numPoints + spill.shardCount - 1) hpos
  rw [← shardRows] at hdiv
  omega

theorem shardRows_pos {source : Nat} (h : source < spill.numPoints) : 0 < spill.shardRows := by
  have hle := spill.numPoints_le
  rcases Nat.eq_zero_or_pos spill.shardRows with hzero | hpos
  · rw [hzero, Nat.mul_zero] at hle
    omega
  · exact hpos

/-- The records of a source go to the shard whose range it is in. -/
theorem shardIndex_eq {shardIdx i : Nat} (hi : i < spill.shardLen shardIdx) :
    spill.shardIndex (spill.shardStart shardIdx + i) = some shardIdx ∧
      spill.localSource (spill.shardStart shardIdx + i) shardIdx = i := by
  have hstart : spill.shardStart shardIdx = shardIdx * spill.shardRows := rfl
  rw [shardLen] at hi
  have hrows : i < spill.shardRows := by omega
  have hlt : spill.shardStart shardIdx + i < spill.numPoints := by omega
  have hdiv : (spill.shardStart shardIdx + i) / spill.shardRows = shardIdx := by
    rw [hstart, Nat.mul_comm, Nat.mul_add_div (Nat.zero_lt_of_lt hrows),
      Nat.div_eq_of_lt hrows, Nat.add_zero]
  have hcount : shardIdx < spill.shardCount := by
    by_contra hge
    have hmul := Nat.mul_le_mul_right spill.shardRows (Nat.le_of_not_lt hge)
    have hle := spill.numPoints_le
    omega
  constructor
  · rw [shardIndex, if_pos hlt, hdiv, min_eq_left (Nat.le_sub_one_of_lt hcount)]
  · rw [localSource, hstart, Nat.add_sub_cancel_left]

/-- The sources of the first shards are the first points. -/
theorem sources_flatMap (n : Nat) : ((List.range n).flatMap fun shardIdx =>
    (List.range (spill.shardLen shardIdx)).map (spill.shardStart shardIdx + ·)) =
      List.range (min (n * spill.shardRows) spill.numPoints) := by
  induction n with
  | zero => rw [Nat.zero_mul, Nat.zero_min]; rfl
  | succ n ih =>
      rw [List.range_succ, List.flatMap_append, ih, List.flatMap_singleton, Nat.succ_mul]
      rcases Nat.le_total spill.numPoints (n * spill.shardRows) with hle | hle
      · have hnone : spill.shardLen n = 0 := by
          rw [shardLen, shardStart]
          omega
        rw [hnone, min_eq_right hle, min_eq_right (hle.trans (Nat.le_add_right ..))]
        exact List.append_nil _
      · have hlen : min (n * spill.shardRows + spill.shardRows) spill.numPoints =
            n * spill.shardRows + spill.shardLen n := by
          rw [shardLen, shardStart]
          omega
        rw [min_eq_left hle, hlen, List.range_add]
        rfl

/-! ## The reducers compared -/

variable {rows : Nat → Nat → List UInt32}

/-- What both reducers do where every shard can be loaded. -/
theorem reduceShards_eq (h : ∀ shardIdx < spill.shardCount,
      spill.reduceRows shardIdx (spill.shardLen shardIdx) = .ok (rows shardIdx))
    {shards : List Nat} (hshards : ∀ shardIdx ∈ shards, shardIdx < spill.shardCount)
    (hsorted : shards.Pairwise (· ≤ ·)) : spill.reduceShards shards =
      .ok (shards.flatMap fun shardIdx => spill.shardCalls shardIdx (rows shardIdx)) := by
  induction shards with
  | nil => rfl
  | cons shardIdx rest ih =>
      obtain ⟨hle, hrest⟩ := List.pairwise_cons.mp hsorted
      rw [reduceShards]
      split_ifs with hdone
      · have hnone : ∀ later ∈ shardIdx :: rest, spill.shardCalls later (rows later) = [] := by
          intro later hlater
          have hlater : shardIdx ≤ later := by
            rcases List.mem_cons.mp hlater with rfl | hlater
            · exact Nat.le_refl _
            · exact hle later hlater
          have hmul := Nat.mul_le_mul_right spill.shardRows hlater
          have hlen : spill.shardLen later = 0 := by
            rw [shardStart] at hdone
            rw [shardLen, shardStart]
            omega
          rw [shardCalls, hlen]
          rfl
        rw [List.flatMap_eq_nil_iff.mpr hnone]
      · rw [h shardIdx (hshards shardIdx List.mem_cons_self), ok_bind,
          ih (fun later hlater => hshards later (List.mem_cons_of_mem _ hlater)) hrest, ok_bind,
          List.flatMap_cons]

/-- The files in the order of the shards. -/
def shardFiles (spill : ViewLuneSpill) (rows : Nat → Nat → List UInt32) :
    List ViewLuneRawGraphShard :=
  (List.range spill.shardCount).map fun shardIdx =>
    graphShard shardIdx (spill.shardCalls shardIdx (rows shardIdx))

/-- What the calls of `on_row` are in the end. -/
def allCalls (spill : ViewLuneSpill) (rows : Nat → Nat → List UInt32) : List (Nat × List UInt32) :=
  (List.range spill.shardCount).flatMap fun shardIdx => spill.shardCalls shardIdx (rows shardIdx)

theorem exists_rows {shards : List ViewLuneRawGraphShard}
    (h : spill.reduceAllRowsToRawGraphShardsParallel = .ok shards) :
    ∃ rows : Nat → Nat → List UInt32, (∀ shardIdx < spill.shardCount,
        spill.reduceRows shardIdx (spill.shardLen shardIdx) = .ok (rows shardIdx)) ∧
      shards = (spill.shardFiles rows).insertionSort fun a b => a.path ≤ b.path := by
  obtain ⟨results, hresults, hsort⟩ := bind_eq_ok.mp h
  cases hsort
  have hloads : ∀ shardIdx < spill.shardCount, ∃ rows,
      spill.reduceRows shardIdx (spill.shardLen shardIdx) = .ok rows := by
    intro shardIdx hlt
    obtain ⟨shard, -, hshard⟩ :=
      exists_of_mem_forall₂ (forall₂_of_mapM hresults).flip (List.mem_range.mpr hlt)
    obtain ⟨rows, hrows, -⟩ := bind_eq_ok.mp hshard
    exact ⟨rows, hrows⟩
  choose! rows hrows using hloads
  refine ⟨rows, hrows, ?_⟩
  have hok : (List.range spill.shardCount).mapM spill.reduceShardToRawGraph =
      .ok (spill.shardFiles rows) := by
    apply mapM_eq_ok_map
    intro shardIdx hmem
    rw [reduceShardToRawGraph, hrows shardIdx (List.mem_range.mp hmem)]
    rfl
  rw [hok] at hresults
  cases hresults
  rfl

theorem shardCalls_sources (spill : ViewLuneSpill) (shardIdx : Nat) (rows : Nat → List UInt32) :
    (spill.shardCalls shardIdx rows).map Prod.fst =
      (List.range (spill.shardLen shardIdx)).map (spill.shardStart shardIdx + ·) := by
  rw [shardCalls, List.map_map]
  rfl

theorem allCalls_sources (spill : ViewLuneSpill) (rows : Nat → Nat → List UInt32) :
    (spill.allCalls rows).map Prod.fst = List.range spill.numPoints := by
  rw [allCalls, List.map_flatMap]
  simp only [shardCalls_sources]
  rw [sources_flatMap, min_eq_right spill.numPoints_le]

theorem shardFiles_sources (spill : ViewLuneSpill) (rows : Nat → Nat → List UInt32) :
    (spill.shardFiles rows).flatMap (·.sources) = List.range spill.numPoints := by
  rw [← allCalls_sources, allCalls, shardFiles, List.flatMap_map, List.map_flatMap]
  rfl

/-! ## The order of names -/

theorem graphPath_lt {i j : Nat} (h : i < j) (hj : j < 10000) : graphPath i < graphPath j :=
  paddedName_lt _ _ h hj

/-- One digit more than there is room for: the name is not in its place. -/
theorem graphPath_wide : graphPath 10000 < graphPath 1001 := by
  have hwide : zeroPadded 4 10000 = [1, 0, 0, 0, 0] := by
    rw [zeroPadded]
    norm_num
  have hnarrow : zeroPadded 4 1001 = [1, 0, 0, 1] := by
    rw [zeroPadded]
    norm_num
  rw [graphPath, graphPath, paddedName, paddedName, hwide, hnarrow]
  decide

theorem flatMap_filter_of_nil {α β : Type} {p : α → Bool} {f : α → List β} {l : List α}
    (h : ∀ a ∈ l, p a = false → f a = []) : (l.filter p).flatMap f = l.flatMap f := by
  induction l with
  | nil => rfl
  | cons a l ih =>
      have hrest := ih fun b hb => h b (List.mem_cons_of_mem _ hb)
      cases ha : p a with
      | true => rw [List.filter_cons_of_pos ha, List.flatMap_cons, List.flatMap_cons, hrest]
      | false =>
          rw [List.filter_cons_of_neg (by simp [ha]), List.flatMap_cons,
            h a List.mem_cons_self ha, hrest]
          rfl

theorem hasRows_graphShard (shardIdx : Nat) (rows : Nat → List UInt32) :
    (graphShard shardIdx (spill.shardCalls shardIdx rows)).hasRows = true ↔
      spill.shardStart shardIdx < spill.numPoints := by
  have hlen : spill.shardStart shardIdx < spill.numPoints ↔ 0 < spill.shardLen shardIdx := by
    constructor
    · intro hlt
      have hpos := shardRows_pos hlt
      rw [shardLen]
      omega
    · rw [shardLen]
      omega
  rw [ViewLuneRawGraphShard.hasRows, graphShard, shardCalls_sources, hlen, Bool.not_eq_true',
    List.isEmpty_eq_false_iff, Ne, List.map_eq_nil_iff, List.range_eq_nil, Nat.pos_iff_ne_zero]

/-- While the names are wide enough, the files with rows are sorted as their shards are. -/
theorem filter_sorted (hwide : spill.numPoints ≤ 10000 * spill.shardRows)
    (rows : Nat → Nat → List UInt32) :
    ((spill.shardFiles rows).insertionSort fun a b => a.path ≤ b.path).filter (·.hasRows) =
      (spill.shardFiles rows).filter (·.hasRows) := by
  have hnarrow : ∀ shardIdx, spill.shardStart shardIdx < spill.numPoints → shardIdx < 10000 := by
    intro shardIdx hlt
    by_contra hge
    have hmul := Nat.mul_le_mul_right spill.shardRows (Nat.le_of_not_lt hge)
    rw [shardStart] at hlt
    omega
  have hperm : ((spill.shardFiles rows).insertionSort fun a b => a.path ≤ b.path).Perm
      (spill.shardFiles rows) := List.perm_insertionSort _ _
  have hmem : ∀ shard ∈ (spill.shardFiles rows).filter (·.hasRows), ∃ shardIdx < 10000,
      shard = graphShard shardIdx (spill.shardCalls shardIdx (rows shardIdx)) := by
    intro shard hshard
    obtain ⟨hshard, hrows⟩ := List.mem_filter.mp hshard
    obtain ⟨shardIdx, -, rfl⟩ := List.mem_map.mp hshard
    exact ⟨shardIdx, hnarrow _ ((hasRows_graphShard _ _).mp hrows), rfl⟩
  have hanti : ∀ a b, a ∈ ((spill.shardFiles rows).insertionSort
        fun a b => a.path ≤ b.path).filter (·.hasRows) →
      b ∈ (spill.shardFiles rows).filter (·.hasRows) →
      a.path ≤ b.path → b.path ≤ a.path → a = b := by
    intro a b ha hb hab hba
    obtain ⟨i, hi, rfl⟩ := hmem a ((hperm.filter _).mem_iff.mp ha)
    obtain ⟨j, hj, rfl⟩ := hmem b hb
    rcases Nat.lt_trichotomy i j with hlt | rfl | hlt
    · exact absurd hba (not_le_of_gt (graphPath_lt hlt hj))
    · rfl
    · exact absurd hab (not_le_of_gt (graphPath_lt hlt hi))
  refine List.Perm.eq_of_pairwise hanti ?_ ?_ (hperm.filter _)
  · exact (List.pairwise_insertionSort _ _).filter _
  · rw [shardFiles, List.filter_map, List.pairwise_map]
    refine (List.pairwise_lt_range.filter _).imp_of_mem fun {i j} _ hj hlt => ?_
    have hrows := (List.mem_filter.mp hj).2
    exact le_of_lt (graphPath_lt hlt (hnarrow j ((hasRows_graphShard _ _).mp hrows)))

/-- What the files give one after the other does not depend on the files without rows. -/
theorem flatMap_sorted {β : Type} {f : ViewLuneRawGraphShard → List β}
    (hwide : spill.numPoints ≤ 10000 * spill.shardRows) (rows : Nat → Nat → List UInt32)
    (hnil : ∀ shard ∈ spill.shardFiles rows, shard.hasRows = false → f shard = []) :
    ((spill.shardFiles rows).insertionSort fun a b => a.path ≤ b.path).flatMap f =
      (spill.shardFiles rows).flatMap f := by
  have hperm : ((spill.shardFiles rows).insertionSort fun a b => a.path ≤ b.path).Perm
      (spill.shardFiles rows) := List.perm_insertionSort _ _
  rw [← flatMap_filter_of_nil hnil, ← filter_sorted hwide rows]
  exact (flatMap_filter_of_nil fun shard hshard => hnil shard (hperm.mem_iff.mp hshard)).symm

/-- Of two members of a list, one stands before the other. -/
theorem rel_or_rel {α : Type} {R : α → α → Prop} {l : List α} (h : l.Pairwise R) {a b : α}
    (ha : a ∈ l) (hb : b ∈ l) (hne : a ≠ b) : R a b ∨ R b a := by
  have hsymm : Std.Symm fun a b => R a b ∨ R b a := ⟨fun _ _ => Or.symm⟩
  exact (h.imp (S := fun a b => R a b ∨ R b a) Or.inl).forall ha hb hne

/-- Where a shard of five digits has rows, they come too early. -/
theorem sources_sorted_iff (rows : Nat → Nat → List UInt32) :
    ((spill.shardFiles rows).insertionSort fun a b => a.path ≤ b.path).flatMap (·.sources) =
        List.range spill.numPoints ↔ spill.numPoints ≤ 10000 * spill.shardRows := by
  constructor
  · intro hsources
    by_contra hnarrow
    have hlast : spill.shardStart 10000 < spill.numPoints := Nat.lt_of_not_le hnarrow
    have hpos := shardRows_pos hlast
    have hfile : ∀ shardIdx, spill.shardStart shardIdx < spill.numPoints →
        graphShard shardIdx (spill.shardCalls shardIdx (rows shardIdx)) ∈ spill.shardFiles rows ∧
          spill.shardStart shardIdx ∈
            (graphShard shardIdx (spill.shardCalls shardIdx (rows shardIdx))).sources := by
      intro shardIdx hlt
      have hcount : shardIdx < spill.shardCount := by
        by_contra hge
        have hmul := Nat.mul_le_mul_right spill.shardRows (Nat.le_of_not_lt hge)
        exact absurd (spill.numPoints_le.trans hmul) (Nat.not_le_of_lt hlt)
      refine ⟨List.mem_map_of_mem (List.mem_range.mpr hcount), ?_⟩
      have hlen : 0 < spill.shardLen shardIdx := by
        rw [shardLen]
        omega
      rw [graphShard, shardCalls_sources]
      exact List.mem_map.mpr ⟨0, List.mem_range.mpr hlen, Nat.add_zero _⟩
    have hearly : spill.shardStart 1001 < spill.shardStart 10000 :=
      Nat.mul_lt_mul_of_pos_right (by decide) hpos
    obtain ⟨hwide, hwideStart⟩ := hfile 10000 hlast
    obtain ⟨hnamed, hnamedStart⟩ := hfile 1001 (hearly.trans hlast)
    have hascending : (List.range spill.numPoints).Pairwise (· < ·) := List.pairwise_lt_range
    rw [← hsources, List.pairwise_flatMap] at hascending
    have hsorted := List.pairwise_insertionSort (fun a b : ViewLuneRawGraphShard => a.path ≤ b.path)
      (spill.shardFiles rows)
    have hne : graphShard 10000 (spill.shardCalls 10000 (rows 10000)) ≠
        graphShard 1001 (spill.shardCalls 1001 (rows 1001)) := by
      intro heq
      exact absurd (congrArg (·.path) heq) (ne_of_lt graphPath_wide)
    rcases rel_or_rel (hsorted.and hascending.2) ((List.mem_insertionSort _).mpr hwide)
      ((List.mem_insertionSort _).mpr hnamed) hne with ⟨-, hbefore⟩ | ⟨hpath, -⟩
    · exact absurd (hbefore _ hwideStart _ hnamedStart) (Nat.not_lt_of_lt hearly)
    · exact absurd hpath (not_le_of_gt graphPath_wide)
  · intro hwide
    rw [flatMap_sorted hwide, shardFiles_sources]
    intro shard _ hrows
    rwa [ViewLuneRawGraphShard.hasRows, Bool.not_eq_false', List.isEmpty_iff] at hrows

end ViewLuneSpill

/-! ## The file put together -/

namespace RawGraphFile

theorem foldl_writeRawGraphRow (rows : List (List UInt32)) :
    rows.foldl writeRawGraphRow ⟨[], 0, 0⟩ =
      ⟨encodeRows rows, UInt64.ofNat (encodeRows rows).length, maxDegreeOf rows⟩ := by
  induction rows using List.reverseRecOn with
  | nil => rfl
  | append_singleton rows row ih =>
      have hrows : encodeRows (rows ++ [row]) = encodeRows rows ++ encodeRow row := by
        rw [encodeRows, List.flatMap_append, List.flatMap_singleton, encodeRows]
      have hmax : maxDegreeOf (rows ++ [row]) = max (maxDegreeOf rows) (degreeOf row) :=
        List.foldl_append
      rw [List.foldl_append, ih, hrows, List.length_append, encodeRow_length, UInt64.ofNat_add, hmax]
      rfl

end RawGraphFile

section

variable {parts : List (List (List UInt32))}

theorem encodeRows_append (rows rows' : List (List UInt32)) :
    encodeRows (rows ++ rows') = encodeRows rows ++ encodeRows rows' := List.flatMap_append

theorem encodeRows_flatten (parts : List (List (List UInt32))) :
    encodeRows parts.flatten = parts.flatMap encodeRows := by
  induction parts with
  | nil => rfl
  | cons part parts ih => rw [List.flatten_cons, encodeRows_append, ih, List.flatMap_cons]

theorem add_right_comm_u64 (a b c : UInt64) : a + b + c = a + c + b := by
  rw [UInt64.add_assoc, UInt64.add_comm b, ← UInt64.add_assoc]

theorem foldl_bytes (bytes : UInt64) (parts : List (List (List UInt32))) :
    (parts.map fun part => UInt64.ofNat (encodeRows part).length).foldl (· + ·) bytes =
      bytes + UInt64.ofNat (encodeRows parts.flatten).length := by
  induction parts generalizing bytes with
  | nil => exact (UInt64.add_zero _).symm
  | cons part parts ih =>
      rw [List.map_cons, List.foldl_cons, ih, List.flatten_cons, encodeRows_append,
        List.length_append, UInt64.ofNat_add, UInt64.add_assoc]

theorem foldl_degree (rows : List (List UInt32)) (maxDegree : UInt32) :
    rows.foldl (fun maxDegree row => max maxDegree (degreeOf row)) maxDegree =
      max maxDegree (maxDegreeOf rows) := by
  induction rows generalizing maxDegree with
  | nil => exact (max_eq_left UInt32.zero_le).symm
  | cons row rows ih =>
      rw [maxDegreeOf, List.foldl_cons, List.foldl_cons, ih, ih, max_eq_right UInt32.zero_le,
        max_assoc]

theorem foldl_maxDegree (maxDegree : UInt32) (parts : List (List (List UInt32))) :
    (parts.map maxDegreeOf).foldl max maxDegree = max maxDegree (maxDegreeOf parts.flatten) := by
  induction parts generalizing maxDegree with
  | nil => exact (max_eq_left UInt32.zero_le).symm
  | cons part parts ih =>
      have hsplit : maxDegreeOf (part ++ parts.flatten) =
          max (maxDegreeOf part) (maxDegreeOf parts.flatten) := by
        rw [maxDegreeOf, List.foldl_append, foldl_degree]
        rfl
      rw [List.map_cons, List.foldl_cons, ih, List.flatten_cons, hsplit, max_assoc]

end

namespace ViewLuneSpill

variable {spill : ViewLuneSpill} {rows : Nat → Nat → List UInt32}

/-- The rows of the shards, shard by shard. -/
def parts (spill : ViewLuneSpill) (rows : Nat → Nat → List UInt32) : List (List (List UInt32)) :=
  (List.range spill.shardCount).map fun shardIdx =>
    (spill.shardCalls shardIdx (rows shardIdx)).map Prod.snd

theorem parts_flatten : (spill.parts rows).flatten = (spill.allCalls rows).map Prod.snd := by
  rw [parts, allCalls, List.map_flatMap, List.flatMap_def]

theorem graphShard_file (shardIdx : Nat) (calls : List (Nat × List UInt32)) :
    (graphShard shardIdx calls).file = ⟨encodeRows (calls.map Prod.snd),
      UInt64.ofNat (encodeRows (calls.map Prod.snd)).length, maxDegreeOf (calls.map Prod.snd)⟩ :=
  RawGraphFile.foldl_writeRawGraphRow _

theorem map_file {β : Type} (f : RawGraphFile → β) (g : List (List UInt32) → β)
    (h : ∀ part, f ⟨encodeRows part, UInt64.ofNat (encodeRows part).length, maxDegreeOf part⟩ =
      g part) :
    (spill.shardFiles rows).map (fun shard => f shard.file) = (spill.parts rows).map g := by
  rw [shardFiles, parts, List.map_map, List.map_map]
  refine List.map_congr_left fun shardIdx _ => ?_
  rw [Function.comp_apply, Function.comp_apply, graphShard_file, h]

/-- While the names are wide enough, the files put together are the graph file of all rows. -/
theorem memIndex_eq (hwide : spill.numPoints ≤ 10000 * spill.shardRows) {start : UInt32}
    {file : Bytes} (h : writeRawGraphShardsToMemIndex start
      ((spill.shardFiles rows).insertionSort fun a b => a.path ≤ b.path) = .ok file) :
    file = memGraphFile ((spill.allCalls rows).map Prod.snd) start 0 := by
  have hperm : ((spill.shardFiles rows).insertionSort fun a b => a.path ≤ b.path).Perm
      (spill.shardFiles rows) := List.perm_insertionSort _ _
  have hbytes : (((spill.shardFiles rows).insertionSort fun a b => a.path ≤ b.path).map
      fun shard => shard.file.bytes).foldl (· + ·) 0 =
        UInt64.ofNat (encodeRows ((spill.allCalls rows).map Prod.snd)).length := by
    rw [(hperm.map _).foldl_eq' fun x _ y _ z => add_right_comm_u64 z x y,
      map_file (·.bytes) (fun part => UInt64.ofNat (encodeRows part).length) fun _ => rfl,
      foldl_bytes, parts_flatten, UInt64.zero_add]
  have hmax : (((spill.shardFiles rows).insertionSort fun a b => a.path ≤ b.path).map
      fun shard => shard.file.maxDegree).foldl max 0 =
        maxDegreeOf ((spill.allCalls rows).map Prod.snd) := by
    rw [(hperm.map _).foldl_eq' fun x _ y _ z => max_right_comm z x y,
      map_file (·.maxDegree) maxDegreeOf fun _ => rfl, foldl_maxDegree, parts_flatten,
      max_eq_right UInt32.zero_le]
  have hcontent : (((spill.shardFiles rows).insertionSort fun a b => a.path ≤ b.path).flatMap
      fun shard => shard.file.content) = encodeRows ((spill.allCalls rows).map Prod.snd) := by
    rw [flatMap_sorted hwide, List.flatMap_def, map_file (·.content) encodeRows fun _ => rfl,
      ← List.flatMap_def, ← encodeRows_flatten, parts_flatten]
    intro shard hshard hrows
    obtain ⟨shardIdx, -, rfl⟩ := List.mem_map.mp hshard
    have hnone : spill.shardCalls shardIdx (rows shardIdx) = [] := by
      rw [ViewLuneRawGraphShard.hasRows, Bool.not_eq_false', List.isEmpty_iff] at hrows
      exact List.map_eq_nil_iff.mp hrows
    rw [hnone]
    rfl
  rw [writeRawGraphShardsToMemIndex] at h
  simp only [hbytes, hmax, hcontent] at h
  split_ifs at h
  cases h
  rw [memGraphFile_eq, indexSizeOf, UInt64.ofNat_add]
  rfl

/-- Where the parallel reduction succeeds, so does the serial one: it gives every point its row, in
order, reduced from the shard that the records of the point went to. The parallel one returns its
files in this order exactly where the shards with rows have at most four digits, and the file put
together is then the one that the writer makes of these rows. -/
theorem graphShards_refine_serial {shards : List ViewLuneRawGraphShard}
    (h : spill.reduceAllRowsToRawGraphShardsParallel = .ok shards) :
    ∃ calls, spill.reduceAllRows = .ok calls ∧
      calls.map Prod.fst = List.range spill.numPoints ∧
      (∀ call ∈ calls, ∃ shardIdx rows, spill.shardIndex call.1 = some shardIdx ∧
        spill.reduceRows shardIdx (spill.shardLen shardIdx) = .ok rows ∧
        call.2 = rows (spill.localSource call.1 shardIdx)) ∧
      (shards.flatMap (·.sources) = List.range spill.numPoints ↔
        spill.numPoints ≤ 10000 * spill.shardRows) ∧
      (spill.numPoints ≤ 10000 * spill.shardRows → ∀ start file,
        writeRawGraphShardsToMemIndex start shards = .ok file →
          file = memGraphFile (calls.map Prod.snd) start 0) := by
  obtain ⟨rows, hrows, rfl⟩ := exists_rows h
  refine ⟨spill.allCalls rows, ?_, allCalls_sources _ _, ?_, sources_sorted_iff _,
    fun hwide start file hfile => memIndex_eq hwide hfile⟩
  · exact reduceShards_eq hrows (fun shardIdx hmem => List.mem_range.mp hmem)
      List.pairwise_le_range
  · intro call hcall
    obtain ⟨shardIdx, hmem, hcall⟩ := List.mem_flatMap.mp hcall
    obtain ⟨i, hi, rfl⟩ := List.mem_map.mp hcall
    obtain ⟨hshard, hlocal⟩ := shardIndex_eq (List.mem_range.mp hi)
    exact ⟨shardIdx, rows shardIdx, hshard, hrows shardIdx (List.mem_range.mp hmem), by rw [hlocal]⟩

/-- Two shards, of two points and of one. -/
def threePoints : ViewLuneSpill where
  numPoints := 3
  requestedShards := 2
  reduceRows shardIdx _ := .ok fun i => [UInt32.ofNat (shardIdx + i)]

theorem graphShards_refine_serial_three : ∃ shards,
    threePoints.reduceAllRowsToRawGraphShardsParallel = .ok shards ∧
    ∃ calls, threePoints.reduceAllRows = .ok calls ∧
      calls.map Prod.fst = List.range threePoints.numPoints ∧
      (∀ call ∈ calls, ∃ shardIdx rows, threePoints.shardIndex call.1 = some shardIdx ∧
        threePoints.reduceRows shardIdx (threePoints.shardLen shardIdx) = .ok rows ∧
        call.2 = rows (threePoints.localSource call.1 shardIdx)) ∧
      (shards.flatMap (·.sources) = List.range threePoints.numPoints ↔
        threePoints.numPoints ≤ 10000 * threePoints.shardRows) ∧
      (threePoints.numPoints ≤ 10000 * threePoints.shardRows → ∀ start file,
        writeRawGraphShardsToMemIndex start shards = .ok file →
          file = memGraphFile (calls.map Prod.snd) start 0) := by
  have hshards : ∃ shards, threePoints.reduceAllRowsToRawGraphShardsParallel = .ok shards := ⟨_, rfl⟩
  obtain ⟨shards, h⟩ := hshards
  exact ⟨shards, h, graphShards_refine_serial h⟩

end ViewLuneSpill

end ForgeANN
