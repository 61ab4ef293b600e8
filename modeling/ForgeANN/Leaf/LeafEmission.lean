-- SUMMARY: The rows of a leaf that can be read, and what the loops over them hand to the sink.
import ForgeANN.Leaf.LeafPaths

/-!
# Rows and batches

Where the distances can be computed, a row is what a bounded buffer keeps of them.
The loops over the rows hand out edges only, or witnesses only, and together those
of all rows.
-/
namespace ForgeANN

open Lib

namespace DistArith

variable {D : Type} (ar : DistArith D) {k i n : Nat} {d : Nat → D}

/-- The nearest others of `i`, by distances that are all known. -/
def nearestOthers (k i n : Nat) (d : Nat → D) : List (Nat × D) :=
  (pushAllBounded ar.nearer ar.notNearer k
    (((List.range n).filter fun j => j ≠ i).map fun j => (j, d j))).reverse

/-- With room for `k` entries, a push finds a slot. -/
theorem push_eq_pushBounded {entries : List (Nat × D)} (hk : k ≤ 32) (hlen : entries.length ≤ k)
    (entry : Nat × D) : ar.push k entry.1 entry.2 entries =
      .ok (pushBounded ar.nearer ar.notNearer k entries entry) := by
  rw [push]
  split_ifs with hzero hfull
  · have hnil : entries = [] := List.eq_nil_of_length_eq_zero (by omega)
    rw [hnil, pushBounded, hzero]
    rfl
  · omega
  · rfl

theorem rowTopk_eq {dist : Nat → AnnResult D} (hk : k ≤ 32)
    (hdist : ∀ j < n, j ≠ i → dist j = .ok (d j)) :
    ar.rowTopk k i n dist = .ok (ar.nearestOthers k i n d) := by
  have hrun : ∀ (js : List Nat) (entries : List (Nat × D)), (∀ j ∈ js, j < n) →
      entries.length ≤ k →
      js.foldlM (fun entries j =>
        if j = i then .ok entries
        else do
          let d ← dist j
          ar.push k j d entries) entries =
        Except.ok (((js.filter fun j => j ≠ i).map fun j => (j, d j)).foldl
          (pushBounded ar.nearer ar.notNearer k) entries) := by
    intro js
    induction js with
    | nil => exact fun _ _ _ => rfl
    | cons j js ih =>
        intro entries hjs hlen
        have hrest : ∀ j' ∈ js, j' < n := fun j' hj' => hjs j' (List.mem_cons_of_mem j hj')
        rw [List.foldlM_cons]
        by_cases hj : j = i
        · rw [if_pos hj, List.filter_cons_of_neg (by simpa using hj)]
          exact ih entries hrest hlen
        · rw [if_neg hj, List.filter_cons_of_pos (by simpa using hj),
            hdist j (hjs j List.mem_cons_self) hj, ok_bind,
            ar.push_eq_pushBounded hk hlen (j, d j), ok_bind, List.map_cons, List.foldl_cons]
          refine ih _ hrest ?_
          rw [length_pushBounded hlen]
          exact Nat.min_le_left _ _
  rw [rowTopk, hrun _ [] (fun j hj => List.mem_range.mp hj) (Nat.zero_le k)]
  rfl

theorem mem_nearestOthers {entry : Nat × D} (h : entry ∈ ar.nearestOthers k i n d) :
    entry.1 < n ∧ entry = (entry.1, d entry.1) := by
  have hmem := mem_pushAllBounded (List.mem_reverse.mp h)
  obtain ⟨j, hj, rfl⟩ := List.mem_map.mp hmem
  exact ⟨List.mem_range.mp (List.mem_of_mem_filter hj), rfl⟩

theorem nearestOthers_length (hi : i < n) :
    (ar.nearestOthers k i n d).length = min k (n - 1) := by
  rw [nearestOthers, List.length_reverse, length_pushAllBounded, List.length_map,
    RowTopK.length_others hi]

end DistArith

/-! ## Hashes -/

theorem computeHash_ok {sketchP sketchC : List F32} {mBits : Nat} (hbits : mBits ≤ 16)
    (hp : mBits ≤ sketchP.length) (hc : mBits ≤ sketchC.length) :
    ∃ h, computeHash sketchP sketchC mBits = .ok h := by
  rw [computeHash, if_neg (by omega)]
  refine exists_foldlM_ok (fun i hi h => ?_) 0
  have hi := List.mem_range.mp hi
  rw [List.getElem?_eq_getElem (hi.trans_le hp), List.getElem?_eq_getElem (hi.trans_le hc)]
  exact ⟨_, rfl⟩

/-! ## Batches -/

namespace LeafFlush

variable {D : Type}

def edgesIn : LeafFlush D → List (LeafEdge D)
  | .edges batch => batch
  | .witnesses _ => []

def witnessesIn : LeafFlush D → List PendingLuneWitness
  | .edges _ => []
  | .witnesses batch => batch

/-- All edges that are handed to the sink. -/
def edgesOf (flushes : List (LeafFlush D)) : List (LeafEdge D) := flushes.flatMap edgesIn

def witnessesOf (flushes : List (LeafFlush D)) : List PendingLuneWitness :=
  flushes.flatMap witnessesIn

variable {flushes more : List (LeafFlush D)}

@[simp] theorem edgesOf_append : edgesOf (flushes ++ more) = edgesOf flushes ++ edgesOf more :=
  List.flatMap_append

@[simp] theorem witnessesOf_append :
    witnessesOf (flushes ++ more) = witnessesOf flushes ++ witnessesOf more :=
  List.flatMap_append

@[simp] theorem edgesOf_map_edges (batches : List (List (LeafEdge D))) :
    edgesOf (batches.map .edges) = batches.flatten := by
  rw [edgesOf, List.flatMap_map]
  exact List.flatMap_id'

@[simp] theorem edgesOf_map_witnesses (batches : List (List PendingLuneWitness)) :
    edgesOf (batches.map .witnesses : List (LeafFlush D)) = [] := by
  rw [edgesOf, List.flatMap_map]
  exact List.flatMap_eq_nil_iff.mpr fun _ _ => rfl

@[simp] theorem witnessesOf_map_edges (batches : List (List (LeafEdge D))) :
    witnessesOf (batches.map .edges) = [] := by
  rw [witnessesOf, List.flatMap_map]
  exact List.flatMap_eq_nil_iff.mpr fun _ _ => rfl

@[simp] theorem witnessesOf_map_witnesses (batches : List (List PendingLuneWitness)) :
    witnessesOf (batches.map .witnesses : List (LeafFlush D)) = batches.flatten := by
  rw [witnessesOf, List.flatMap_map]
  exact List.flatMap_id'

/-- No edge comes behind a witness. -/
def EdgesFirst (flushes : List (LeafFlush D)) : Prop :=
  flushes.Pairwise fun a b => a.witnessesIn = [] ∨ b.edgesIn = []

theorem edgesFirst_append : EdgesFirst (flushes ++ more) ↔
    EdgesFirst flushes ∧ EdgesFirst more ∧ (witnessesOf flushes = [] ∨ edgesOf more = []) := by
  have hcross : (∀ a ∈ flushes, ∀ b ∈ more, a.witnessesIn = [] ∨ b.edgesIn = []) ↔
      witnessesOf flushes = [] ∨ edgesOf more = [] := by
    rw [witnessesOf, edgesOf, List.flatMap_eq_nil_iff, List.flatMap_eq_nil_iff]
    constructor
    · intro h
      by_cases hall : ∀ b ∈ more, b.edgesIn = []
      · exact .inr hall
      · push Not at hall
        obtain ⟨b, hb, hne⟩ := hall
        exact .inl fun a ha => (h a ha b hb).resolve_right hne
    · rintro (h | h) a ha b hb
      · exact .inl (h a ha)
      · exact .inr (h b hb)
  rw [EdgesFirst, List.pairwise_append, hcross]
  rfl

theorem edgesFirst_of_no_witnesses (h : witnessesOf flushes = []) : EdgesFirst flushes :=
  List.pairwise_of_forall_mem_list fun a ha _ _ =>
    .inl (List.flatMap_eq_nil_iff.mp h a ha)

theorem edgesFirst_of_no_edges (h : edgesOf flushes = []) : EdgesFirst flushes :=
  List.pairwise_of_forall_mem_list fun _ _ b hb =>
    .inr (List.flatMap_eq_nil_iff.mp h b hb)

end LeafFlush

namespace LeafStore

open LeafFlush

section

variable {D α β : Type}

/-- A loop that hands out batches hands out nothing else; of what it goes over, it hands out all
but what is still pending. -/
theorem foldlM_buffer (flush : List α → LeafFlush D) (more : β → AnnResult (List α))
    (pending : List α) (l : List β) :
    ∃ (batches : List (List α)) (result : AnnResult (List α)), l.foldlM (fun pending b => do
        let new ← Emission.lift (more b)
        buffer flush pending new) pending = (⟨batches.map flush, result⟩ : LeafRun D (List α)) ∧
      ∀ given : β → List α, (∀ b ∈ l, more b = .ok (given b)) →
        ∃ rest, result = .ok rest ∧ batches.flatten ++ rest = pending ++ l.flatMap given := by
  induction l generalizing pending with
  | nil => exact ⟨[], .ok pending, rfl, fun _ _ => ⟨pending, rfl, by simp⟩⟩
  | cons b l ih =>
      rw [List.foldlM_cons]
      cases hmore : more b with
      | error e =>
          refine ⟨[], .error e, rfl, fun given hgiven => ?_⟩
          have hb := hgiven b List.mem_cons_self
          rw [hmore] at hb
          cases hb
      | ok new =>
          have hnew : ∀ given : β → List α, (∀ b' ∈ b :: l, more b' = .ok (given b')) →
              given b = new ∧ ∀ b' ∈ l, more b' = .ok (given b') := by
            intro given hgiven
            have hb := hgiven b List.mem_cons_self
            rw [hmore] at hb
            exact ⟨(Except.ok.inj hb).symm, fun b' hb' => hgiven b' (List.mem_cons_of_mem b hb')⟩
          rw [Emission.lift_ok, pure_bind, buffer]
          split_ifs with hfull
          · obtain ⟨batches, result, hrun, hgives⟩ := ih []
            refine ⟨(pending ++ new) :: batches, result, ?_, fun given hgiven => ?_⟩
            · rw [bind_assoc, Emission.emit_bind, pure_bind, hrun]
              rfl
            · obtain ⟨hb, hrest⟩ := hnew given hgiven
              obtain ⟨rest, hresult, hall⟩ := hgives given hrest
              refine ⟨rest, hresult, ?_⟩
              rw [List.flatten_cons, List.append_assoc, hall, List.nil_append, List.flatMap_cons, hb,
                List.append_assoc]
          · obtain ⟨batches, result, hrun, hgives⟩ := ih (pending ++ new)
            refine ⟨batches, result, ?_, fun given hgiven => ?_⟩
            · rw [pure_bind, hrun]
            · obtain ⟨hb, hrest⟩ := hnew given hgiven
              obtain ⟨rest, hresult, hall⟩ := hgives given hrest
              exact ⟨rest, hresult, by rw [hall, List.flatMap_cons, hb, List.append_assoc]⟩

/-- The same loop with what is pending handed out at the end. -/
theorem foldlM_buffer_emit (flush : List α → LeafFlush D) (more : β → AnnResult (List α))
    (l : List β) :
    ∃ (batches : List (List α)) (result : AnnResult Unit), (l.foldlM (fun pending b => do
        let new ← Emission.lift (more b)
        buffer flush pending new) [] >>= fun rest => Emission.emit [flush rest]) =
          (⟨batches.map flush, result⟩ : LeafRun D Unit) ∧
      ∀ given : β → List α, (∀ b ∈ l, more b = .ok (given b)) →
        result = .ok () ∧ batches.flatten = l.flatMap given := by
  obtain ⟨batches, result, hrun, hgives⟩ := foldlM_buffer flush more [] l
  rw [hrun]
  cases result with
  | error e =>
      refine ⟨batches, .error e, rfl, fun given hgiven => ?_⟩
      obtain ⟨rest, hrest, -⟩ := hgives given hgiven
      cases hrest
  | ok rest =>
      refine ⟨batches ++ [rest], .ok (), ?_, fun given hgiven => ?_⟩
      · rw [List.map_append]
        rfl
      · obtain ⟨rest', hrest, hall⟩ := hgives given hgiven
        cases hrest
        exact ⟨rfl, by rw [List.flatten_append, List.flatten_singleton, hall, List.nil_append]⟩

end

section

variable {D : Type} (src : LeafStore D) (params : LeafEmitParams) (leaf : List UInt32)
  (rows : List (List (Nat × D)))

theorem emitEdges_edges (cache : List (List F32)) :
    ∃ (batches : List (List (LeafEdge D))) (result : AnnResult Unit),
      emitEdges params leaf cache rows = ⟨batches.map .edges, result⟩ ∧
      ∀ given : List (Nat × D) × Nat → List (LeafEdge D),
        (∀ p ∈ rows.zipIdx, rowEdges params leaf cache p.2 p.1 = .ok (given p)) →
          result = .ok () ∧ batches.flatten = rows.zipIdx.flatMap given := by
  rw [emitEdges]
  exact foldlM_buffer_emit .edges
    (fun p : List (Nat × D) × Nat => rowEdges params leaf cache p.2 p.1) rows.zipIdx

/-- Between entries or between rows, only edges are handed out. -/
theorem emitRowTopkEdges_edges :
    ∃ (batches : List (List (LeafEdge D))) (result : AnnResult Unit),
      src.emitRowTopkEdges params leaf rows = ⟨batches.map .edges, result⟩ := by
  rw [emitRowTopkEdges]
  cases src.prefetch leaf with
  | error e => exact ⟨[], .error e, rfl⟩
  | ok cache =>
      rw [Emission.lift_ok, pure_bind]
      have hflat : rows.zipIdx.foldlM (fun edges p =>
          p.1.zipIdx.foldlM (fun edges q => do
            let more ← Emission.lift (pairEdges params leaf cache p.2 q.2 q.1)
            (buffer .edges edges more : LeafRun D _)) edges) [] =
          (rows.zipIdx.flatMap fun p => p.1.zipIdx.map fun q => (p.2, q)).foldlM (fun edges p => do
            let more ← Emission.lift (pairEdges params leaf cache p.1 p.2.2 p.2.1)
            (buffer .edges edges more : LeafRun D _)) [] := by
        rw [foldlM_flatMap]
        simp only [List.foldlM_map]
      obtain ⟨batches, result, hrun, -⟩ := foldlM_buffer_emit (D := D) .edges
        (fun p : Nat × (Nat × D) × Nat => pairEdges params leaf cache p.1 p.2.2 p.2.1)
        (rows.zipIdx.flatMap fun p => p.1.zipIdx.map fun q => (p.2, q))
      refine ⟨batches, result, Eq.trans ?_ hrun⟩
      rw [← hflat]

/-- The witnesses of all rows, if the sink wants them. -/
theorem emitLuneWitnesses_witnesses (wants : Bool) (dist : Nat → Nat → D) :
    ∃ batches : List (List PendingLuneWitness),
      src.emitLuneWitnesses leaf wants dist rows = ⟨batches.map .witnesses, .ok ()⟩ ∧
      batches.flatten = if wants then
        rows.zipIdx.flatMap fun p => src.rowWitnesses leaf dist p.2 p.1 else [] := by
  cases wants with
  | false => exact ⟨[], rfl, rfl⟩
  | true =>
      obtain ⟨batches, result, hrun, hgives⟩ := foldlM_buffer_emit (D := D) .witnesses
        (fun p : List (Nat × D) × Nat => .ok (src.rowWitnesses leaf dist p.2 p.1)) rows.zipIdx
      obtain ⟨rfl, hall⟩ := hgives _ fun _ _ => rfl
      refine ⟨batches, ?_, hall⟩
      rw [← hrun]
      rfl

end

end LeafStore

end ForgeANN
