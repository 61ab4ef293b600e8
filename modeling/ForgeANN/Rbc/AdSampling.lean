-- SUMMARY: ADSampling's buffer of nearest candidates, and the assignment of points to leaders by it.
import ForgeANN.Common.Chunks
import ForgeANN.Common.FloatArith
import ForgeANN.Rbc.LeaderKernels

/-!
# ADSampling

Some candidates are seeds, with their full distances; the others are scanned in
blocks, dimension group by dimension group, and drop out when a partial distance
reaches a threshold drawn from what the buffer holds so far. The seeds alone fill
the buffer, whatever the scan lets through.
-/
namespace ForgeANN

open Lib

/-! ## The buffer -/

/-! `TinyTopK` has the entries of `StackTopK`, in the same order. It has room for one at least, and
a candidate it holds is not pushed again. Candidates are positions, below `2 ^ 32`. -/

namespace TinyTopK

def new (k : Nat) : StackTopK := ⟨[], min (max k 1) 32⟩

def push (top : StackTopK) (dist : F32) (idx : Nat) : StackTopK :=
  if idx ∈ top.buf.map Prod.snd then top else StackTopK.push top dist idx

def threshold (top : StackTopK) : F32 :=
  if top.buf.length < top.k then .maxValue
  else
    match top.buf with
    | [] => .maxValue
    | last :: _ => last.1

/-- `push_unique` looks for no other entry. -/
def pushUnique (top : StackTopK) (dist : F32) (idx : Nat) : StackTopK := StackTopK.push top dist idx

variable {top : StackTopK} {idx : Nat}

/-- The buffer is full, with different candidates of some kind. -/
structure Filled (Candidate : Nat → Prop) (size : Nat) (top : StackTopK) : Prop where
  distinct : (top.buf.map Prod.snd).Nodup
  known : ∀ id ∈ top.buf.map Prod.snd, Candidate id
  full : top.buf.length = size
  limit : top.k = size

theorem new_k (k : Nat) : (new k).k = min (max k 1) 32 := rfl

theorem push_k (dist : F32) : (push top dist idx).k = top.k := by
  rw [push]
  split_ifs
  · rfl
  · exact StackTopK.push_k dist idx

theorem tops_new (k : Nat) : (new k).Tops [] where
  distinct := List.nodup_nil
  known _ hid := nomatch hid
  full := (Nat.min_zero _).symm

/-- A buffer with as many candidates pushed as it has room for is full. -/
theorem filled_of_tops {Candidate : Nat → Prop} {pushed : List Nat} (h : top.Tops pushed)
    (hpushed : ∀ id ∈ pushed, Candidate id) (hlen : top.k ≤ pushed.length) :
    Filled Candidate top.k top where
  distinct := h.distinct
  known id hid := hpushed id (h.known id hid)
  full := h.full.trans (Nat.min_eq_left hlen)
  limit := rfl

theorem tops_push {pushed : List Nat} (h : top.Tops pushed) (dist : F32) (hidx : idx ∉ pushed) :
    (push top dist idx).Tops (idx :: pushed) := by
  rw [push, if_neg fun hin => hidx (h.known idx hin)]
  exact h.push dist hidx

theorem tops_pushes {pushed : List Nat} (dist : Nat → F32) {seeds : List Nat} (h : top.Tops pushed)
    (hseeds : seeds.Nodup) (hnew : ∀ c ∈ seeds, c ∉ pushed) :
    (seeds.foldl (fun top c => push top (dist c) c) top).Tops (seeds.reverse ++ pushed) ∧
      (seeds.foldl (fun top c => push top (dist c) c) top).k = top.k := by
  induction seeds generalizing top pushed with
  | nil => exact ⟨h, rfl⟩
  | cons c seeds ih =>
      obtain ⟨hc, hseeds⟩ := List.nodup_cons.mp hseeds
      rw [List.foldl_cons, List.reverse_cons, List.append_assoc, List.singleton_append]
      obtain ⟨htops, hk⟩ := ih (tops_push h (dist c) (hnew c List.mem_cons_self)) hseeds
        fun d hd hin => (List.mem_cons.mp hin).elim (fun heq => hc (heq ▸ hd))
          (hnew d (List.mem_cons_of_mem c hd))
      exact ⟨htops, hk.trans (push_k (dist c))⟩

theorem Filled.push {Candidate : Nat → Prop} {size : Nat} (h : Filled Candidate size top)
    (dist : F32) (hidx : Candidate idx) : Filled Candidate size (TinyTopK.push top dist idx) := by
  rw [TinyTopK.push]
  split_ifs with hin
  · exact h
  · have htops : top.Tops (top.buf.map Prod.snd) :=
      ⟨h.distinct, fun id hid => hid, by rw [List.length_map, h.full, h.limit, Nat.min_self]⟩
    have hpush := htops.push dist hin
    refine ⟨hpush.distinct, fun id hid => ?_, ?_, ?_⟩
    · rcases List.mem_cons.mp (hpush.known id hid) with rfl | hid
      · exact hidx
      · exact h.known id hid
    · rw [hpush.full, StackTopK.push_k, h.limit, List.length_cons, List.length_map, h.full]
      omega
    · rw [StackTopK.push_k, h.limit]

theorem Filled.pushes {Candidate : Nat → Prop} {size : Nat} {survivors : List (F32 × Nat)}
    (h : Filled Candidate size top) (hsurvivors : ∀ s ∈ survivors, Candidate s.2) :
    Filled Candidate size (survivors.foldl (fun top s => TinyTopK.push top s.1 s.2) top) := by
  exact List.foldlRecOn survivors _ h fun top htop s hs => htop.push s.1 (hsurvivors s hs)

end TinyTopK

/-! ## Leaders -/

def ADS_LEADER_BLOCK : Nat := 64
def ADS_ROOT_SEED_EXACT_M : Nat := 8
def ADS_DEPTH_SEED_EXACT_M : Nat := 8

/-- The vector instructions: of two points, their distance, and their distance unless it reaches the
threshold, scaled to the dimensions so far, after one of the groups of dimensions. -/
structure AdsKernels where
  l2Sq : List F32 → List F32 → F32
  distanceBelow : (threshold : F32) → List F32 → List F32 → Option F32

def adsamplingSeedIndices (candidateCount seedExact fanout : Nat) : List Nat :=
  List.range (min candidateCount (max (max seedExact fanout) 1))

namespace AdsKernels

variable (ads : AdsKernels)

/-- What the scan lets through of the candidates of a block. -/
def survivors (points : List (List F32)) (threshold : F32) (query : List F32) (active : List Nat) :
    List (F32 × Nat) :=
  active.filterMap fun c => (ads.distanceBelow threshold query (points.getD c [])).map (·, c)

/-- A point of `assign_point_tile_adsampling_layout`; a tile's points do not meet. -/
def assignPoint (leaders : List (List F32)) (fanout : Nat) (seedIndices : List Nat)
    (query : List F32) : List Nat :=
  let n := leaders.length
  let seeded := seedIndices.foldl
    (fun top lid => TinyTopK.push top (ads.l2Sq query (leaders.getD lid [])) lid)
    (TinyTopK.new (min fanout (max n 1)))
  let scanned := (chunks ADS_LEADER_BLOCK (List.range n)).foldl (fun top block =>
    let active := block.filter fun lid => lid ∉ seedIndices
    (ads.survivors leaders (TinyTopK.threshold top) query active).foldl
      (fun top s => TinyTopK.push top s.1 s.2) top) seeded
  scanned.ids

end AdsKernels

/-- A dataset with the vector instructions, and what the assignment contexts call for. -/
structure AdsAssignment where
  kernels : AdsKernels
  readPoint : UInt32 → AnnResult (List F32)
  shouldUseAdsamplingAssignment : (depth points leaders fanout : Nat) → Bool
  /-- Fails for a dimension of zero, and for an epsilon that is not a positive number. -/
  ratios : AnnResult Unit
  /-- The variable `FORGEANN_D0_ADS_SEED_EXACT`. -/
  rootSeedExact : Option Nat

namespace AdsAssignment

variable (ads : AdsAssignment)

def seedExact (depth fanout : Nat) : Nat :=
  if depth = 0 then max (max (ads.rootSeedExact.getD ADS_ROOT_SEED_EXACT_M) fanout) 1
  else max (max ADS_DEPTH_SEED_EXACT_M fanout) 1

/-- The chunks of points are visited in order. -/
def assignPointLeadersAdsampling (depth : Nat) (cur leaders : List UInt32) (localFanout : Nat) :
    AnnResult (List (List Nat)) :=
  if leaders = [] then .error (.index "ADSampling assignment requires at least one leader")
  else do
    let fanout := min (max (min localFanout leaders.length) 1) 32
    let leaderLayout ← leaders.mapM ads.readPoint
    let seedIndices :=
      adsamplingSeedIndices leaders.length (ads.seedExact depth fanout) fanout
    cur.mapM fun idx => do
      let query ← ads.readPoint idx
      ads.ratios
      .ok (ads.kernels.assignPoint leaderLayout fanout seedIndices query)

end AdsAssignment

/-! ## Full rows of leaders -/

variable {kernels : AdsKernels}

theorem AdsKernels.mem_survivors {points : List (List F32)} {threshold : F32} {query : List F32}
    {active : List Nat} {s : F32 × Nat} (h : s ∈ kernels.survivors points threshold query active) :
    s.2 ∈ active := by
  obtain ⟨c, hc, hs⟩ := List.mem_filterMap.mp h
  obtain ⟨d, -, rfl⟩ := Option.map_eq_some_iff.mp hs
  exact hc

/-- Blocks of candidates are pushed into a full buffer. -/
theorem filled_of_scan {Candidate : Nat → Prop} {size : Nat} {top : StackTopK}
    (kernels : AdsKernels) (points : List (List F32)) (query : List F32) {keep : Nat → Bool}
    {blocks : List (List Nat)}
    (h : TinyTopK.Filled Candidate size top)
    (hblocks : ∀ block ∈ blocks, ∀ c ∈ block.filter keep, Candidate c) :
    TinyTopK.Filled Candidate size (blocks.foldl (fun top block =>
      (kernels.survivors points (TinyTopK.threshold top) query (block.filter keep)).foldl
        (fun top s => TinyTopK.push top s.1 s.2) top) top) := by
  exact List.foldlRecOn blocks _ h fun top htop block hblock =>
    htop.pushes fun s hs => hblocks block hblock s.2 (AdsKernels.mem_survivors hs)

/-- The seeds fill the row of a point. -/
theorem assignPoint_fullFanout (kernels : AdsKernels) {leaders : List (List F32)} {fanout : Nat}
    (seedExact : Nat) (query : List F32) (hn : 0 < leaders.length) (hpos : 0 < fanout)
    (hfanout : fanout ≤ 32) :
    FullFanout leaders.length fanout (kernels.assignPoint leaders fanout
      (adsamplingSeedIndices leaders.length seedExact fanout) query) := by
  set seeds := adsamplingSeedIndices leaders.length seedExact fanout with hseeds
  have hlen : seeds.length = min leaders.length (max (max seedExact fanout) 1) := List.length_range
  have hseed : ∀ lid ∈ seeds, lid < leaders.length := fun lid hlid =>
    (List.mem_range.mp hlid).trans_le (Nat.min_le_left _ _)
  have hnodup : seeds.Nodup := List.nodup_range
  obtain ⟨htops, hk⟩ := TinyTopK.tops_pushes
    (fun lid => kernels.l2Sq query (leaders.getD lid []))
    (TinyTopK.tops_new (min fanout (max leaders.length 1))) hnodup fun c _ => List.not_mem_nil
  rw [TinyTopK.new_k] at hk
  have hroom : min (max (min fanout (max leaders.length 1)) 1) 32 = min fanout leaders.length := by
    omega
  have hseeded : TinyTopK.Filled (· < leaders.length) _ _ := TinyTopK.filled_of_tops htops
    (fun id hid => hseed id (by rwa [List.append_nil, List.mem_reverse] at hid))
    (by rw [hk, List.append_nil, List.length_reverse, hlen]; omega)
  rw [hk, hroom] at hseeded
  have hblocks : ∀ block ∈ chunks ADS_LEADER_BLOCK (List.range leaders.length),
      ∀ c ∈ block.filter fun lid => lid ∉ seeds, c < leaders.length := by
    intro block hblock c hc
    have hin : c ∈ (chunks ADS_LEADER_BLOCK (List.range leaders.length)).flatten :=
      List.mem_flatten.mpr ⟨block, hblock, List.mem_of_mem_filter hc⟩
    rw [chunks_flatten (by decide)] at hin
    exact List.mem_range.mp hin
  have hfilled := filled_of_scan kernels leaders query hseeded hblocks
  have hperm : ∀ top : StackTopK, top.ids.Perm (top.buf.map Prod.snd) := fun top =>
    (List.reverse_perm top.buf).map Prod.snd
  refine ⟨?_, fun lid hlid => ?_, ?_⟩
  · exact (hperm _).nodup_iff.mpr hfilled.distinct
  · exact hfilled.known lid ((hperm _).mem_iff.mp hlid)
  · rw [AdsKernels.assignPoint, (hperm _).length_eq, List.length_map, hfilled.full]

variable {ads : AdsAssignment} {cur leaders : List UInt32} {fanout depth : Nat}

/-- So every point gets its full fanout. -/
theorem assignPointLeadersAdsampling_fullyAssigns {assignment : List (List Nat)}
    (hpos : 0 < fanout) (hfanout : fanout ≤ 32)
    (h : ads.assignPointLeadersAdsampling depth cur leaders fanout = .ok assignment) :
    FullyAssigns cur.length leaders.length fanout assignment := by
  rw [AdsAssignment.assignPointLeadersAdsampling] at h
  split_ifs at h with hleaders
  have hn := List.length_pos_iff.mpr hleaders
  cases hlayout : leaders.mapM ads.readPoint with
  | error e =>
      rw [hlayout] at h
      cases h
  | ok layout =>
      rw [hlayout, ok_bind] at h
      have hlen := (forall₂_of_mapM hlayout).length_eq
      have hpoints := forall₂_of_mapM h
      set clamped := min (max (min fanout leaders.length) 1) 32 with hclamped
      have hsame : min clamped leaders.length = min fanout leaders.length := by omega
      apply fullyAssigns_of_forall hn hpos hpoints.length_eq.symm
      intro lids hlids
      obtain ⟨idx, -, hidx⟩ := exists_of_mem_forall₂ hpoints hlids
      cases hquery : ads.readPoint idx with
      | error e =>
          rw [hquery] at hidx
          cases hidx
      | ok query =>
          rw [hquery, ok_bind] at hidx
          cases hratios : ads.ratios with
          | error e =>
              rw [hratios] at hidx
              cases hidx
          | ok u =>
              rw [hratios, ok_bind] at hidx
              cases hidx
              have hsome : 0 < layout.length := hlen ▸ hn
              have hfull := assignPoint_fullFanout ads.kernels (ads.seedExact depth clamped) query
                hsome (by omega : 0 < clamped) (by omega)
              rw [← hlen] at hfull
              exact ⟨hfull.distinct, hfull.inRange, hfull.full.trans hsame⟩

/-- The context with this assignment; the fanouts it is called with are clamped. -/
def PartitionContext.withAdsampling {args : LeaderArgs} (ctx : PartitionContext args)
    (ads : AdsAssignment) : PartitionContext args :=
  { ctx with
    adsampling := fun depth cur leaders fanout =>
      if hfanout : 0 < fanout ∧ fanout ≤ 32 then
        if ads.shouldUseAdsamplingAssignment depth cur.length leaders.length fanout then
          some (match h : ads.assignPointLeadersAdsampling depth cur leaders fanout with
            | .ok lids =>
                .ok ⟨lids, assignPointLeadersAdsampling_fullyAssigns hfanout.1 hfanout.2 h⟩
            | .error e => .error e)
        else none
      else none }

end ForgeANN
