-- SUMMARY: Pending edges and witnesses, and the best one of each run that names the same points.
import ForgeANN.Lib.Greedy
import ForgeANN.Spill.Record
import ForgeANN.ViewLune.Candidate
import ForgeANN.ViewLune.Witness

/-!
# Edges and witnesses that are written

A batch is sorted, and what names the same points is merged: of edges the
smallest distance counts, of witnesses the best one.
-/
namespace ForgeANN

open Lib

def PENDING_EDGE_MIRROR : UInt8 := 2

structure PendingLuneWitness where
  src : UInt32
  pivot : UInt32
  victim : UInt32
  marginQ16 : UInt16
  pivotRank : UInt8
  victimRank : UInt8
deriving DecidableEq, Repr

/-! ## Edges -/

/-- `(edge.p, edge.c)`. -/
def PendingEdge.ends (edge : PendingEdge) : Nat ×ₗ UInt32 := toLex (edge.p, edge.c)

/-- The edge is a direct one or a mirror. -/
def PendingEdge.isCandidate (edge : PendingEdge) : Bool :=
  edge.flags &&& PENDING_EDGE_DIRECT ≠ 0 ∨ edge.flags &&& PENDING_EDGE_MIRROR ≠ 0

def sortEdges (edges : List PendingEdge) : List PendingEdge :=
  edges.insertionSort fun a b => a.ends ≤ b.ends

/-- The edges between the same two points. -/
def edgeRuns (edges : List PendingEdge) : List (GreedyRun PendingEdge (Nat ×ₗ UInt32)) :=
  keyRuns PendingEdge.ends (sortEdges edges)

/-- `dist2` and `valid` with one more edge. -/
def mergeEdge (merged : F32 × Bool) (edge : PendingEdge) : F32 × Bool :=
  if edge.isCandidate then (merged.1.min edge.dist, true) else merged

/-- What a run of edges between the same two points offers, if it does. -/
def mergedDistance (edges : List PendingEdge) : Option F32 :=
  let merged := edges.foldl mergeEdge (F32.infinity, false)
  if merged.2 then some merged.1 else none

/-- The candidates that the edges offer to a source. -/
def candidateUpdates (edges : List PendingEdge) (source : Nat) : List ViewLuneCandidate :=
  ((edgeRuns edges).filter fun run => run.first.p = source).filterMap fun run =>
    (mergedDistance run.items).map fun dist2 => ⟨run.first.c, dist2⟩

/-- The distances that the edges offer to a source. -/
def edgeOffers (edges : List PendingEdge) (source : Nat) : List (UInt32 × F32) :=
  (edges.filter fun edge => edge.p = source ∧ edge.isCandidate).map fun edge =>
    (edge.c, edge.dist.capped)

/-! ## Witnesses -/

def witnessRankKey (pivotRank : UInt8) (marginQ16 : UInt16) (victimRank : UInt8) : UInt32 :=
  (pivotRank.toUInt32 <<< 24) ||| ((65535 - marginQ16).toUInt32 <<< 8) ||| victimRank.toUInt32

namespace PendingLuneWitness

def retentionKey (witness : PendingLuneWitness) : UInt32 :=
  witnessRankKey (max witness.pivotRank 1) witness.marginQ16 (max witness.victimRank 1)

/-- As it is stored. -/
def stored (witness : PendingLuneWitness) : RuntimeLuneWitness :=
  ⟨witness.pivot, witness.retentionKey⟩

/-- `(witness.src, witness.victim, witness.pivot)`. -/
def points (witness : PendingLuneWitness) : UInt32 ×ₗ (UInt32 ×ₗ UInt32) :=
  toLex (witness.src, toLex (witness.victim, witness.pivot))

end PendingLuneWitness

def sortPendingWitnesses (witnesses : List PendingLuneWitness) : List PendingLuneWitness :=
  witnesses.insertionSort fun a b => a.points ≤ b.points

/-- The witnesses of the same source, victim and pivot. -/
def witnessRuns (witnesses : List PendingLuneWitness) :
    List (GreedyRun PendingLuneWitness (UInt32 ×ₗ (UInt32 ×ₗ UInt32))) :=
  keyRuns PendingLuneWitness.points (sortPendingWitnesses witnesses)

/-- The best of a run as it is stored: `witness_retention_cmp(&next, &witness).is_lt()`. -/
def bestStored (run : GreedyRun PendingLuneWitness (UInt32 ×ₗ (UInt32 ×ₗ UInt32))) :
    RuntimeLuneWitness :=
  run.more.foldl
    (fun witness next =>
      if next.stored.retentionKey < witness.retentionKey then next.stored else witness)
    run.first.stored

/-- The witnesses that are written for a source, with their victims. -/
def witnessUpdates (witnesses : List PendingLuneWitness) (source : Nat) :
    List (UInt32 × RuntimeLuneWitness) :=
  ((witnessRuns witnesses).filter fun run => run.first.src.toNat = source).map fun run =>
    (run.first.victim, bestStored run)

/-- What the witnesses offer to a victim of a source. -/
def witnessOffers (witnesses : List PendingLuneWitness) (source : Nat) (victim : UInt32) :
    List (UInt32 × UInt32) :=
  (witnesses.filter fun witness => witness.src.toNat = source ∧ witness.victim = victim).map
    fun witness => witness.stored.entry

theorem candidateUpdates_nil (source : Nat) : candidateUpdates [] source = [] := by
  rw [candidateUpdates, edgeRuns, keyRuns, sortEdges, List.insertionSort_nil, greedyRuns]
  rfl

/-- An edge by itself is offered as it is. -/
theorem candidateUpdates_singleton (edge : PendingEdge) (source : Nat) :
    candidateUpdates [edge] source =
      if edge.p = source ∧ edge.isCandidate then [⟨edge.c, edge.dist.capped⟩] else [] := by
  have hruns : edgeRuns [edge] = [⟨edge, [], edge.ends⟩] := greedyRuns_singleton rfl
  have hmerged : mergedDistance [edge] = if edge.isCandidate then some edge.dist.capped else none := by
    rw [mergedDistance, List.foldl_cons, List.foldl_nil, mergeEdge]
    cases edge.isCandidate with
    | false => rfl
    | true => rfl
  rw [candidateUpdates, hruns]
  by_cases hp : edge.p = source
  · rw [List.filter_cons_of_pos (by simpa using hp)]
    simp only [List.filter_nil, List.filterMap_cons, GreedyRun.items, hmerged, hp, true_and]
    split_ifs <;> rfl
  · rw [List.filter_cons_of_neg (by simpa using hp), if_neg fun h => hp h.1]
    rfl

theorem witnessUpdates_nil (source : Nat) : witnessUpdates [] source = [] := by
  rw [witnessUpdates, witnessRuns, keyRuns, sortPendingWitnesses, List.insertionSort_nil, greedyRuns]
  rfl

/-! ## What is offered -/

section

variable {edge : PendingEdge} {edges : List PendingEdge} {source : Nat} {c : UInt32}
  {witness : PendingLuneWitness} {witnesses : List PendingLuneWitness} {victim : UInt32}

theorem sortEdges_perm (edges : List PendingEdge) : (sortEdges edges).Perm edges :=
  List.perm_insertionSort _ edges

theorem sortPendingWitnesses_perm (witnesses : List PendingLuneWitness) :
    (sortPendingWitnesses witnesses).Perm witnesses :=
  List.perm_insertionSort _ witnesses

/-- What has been merged says what was offered. -/
structure MergedOffers (c : UInt32) (merged : F32 × Bool) (offered : UInt32 → WithTop F32) :
    Prop where
  number : merged.1.isNaN = false
  none : merged.2 = false → merged.1 = F32.infinity ∧ offered = ⊤
  some : merged.2 = true → offered = lowest [(c, merged.1)]

theorem MergedOffers.step {merged : F32 × Bool} {offered : UInt32 → WithTop F32}
    (h : MergedOffers c merged offered) (hedge : edge.p = source ∧ edge.c = c) :
    MergedOffers c (mergeEdge merged edge) (offered ⊓ lowest (edgeOffers [edge] source)) := by
  cases hcandidate : edge.isCandidate with
  | false =>
      rw [mergeEdge, if_neg (by rw [hcandidate]; exact Bool.false_ne_true), edgeOffers,
        List.filter_cons_of_neg (by simp [hcandidate])]
      change MergedOffers c merged (offered ⊓ ⊤)
      rwa [inf_top_eq]
  | true =>
      rw [mergeEdge, if_pos hcandidate, edgeOffers,
        List.filter_cons_of_pos (by simp [hcandidate, hedge.1]), F32.min_eq_inf_capped h.number]
      change MergedOffers c _ (offered ⊓ lowest [(edge.c, edge.dist.capped)])
      rw [hedge.2]
      refine ⟨F32.isNaN_inf h.number (F32.isNaN_capped _), fun hfalse => Bool.noConfusion hfalse,
        fun _ => ?_⟩
      cases hmerged : merged.2 with
      | false =>
          obtain ⟨hinf, htop⟩ := h.none hmerged
          rw [hinf, htop, top_inf_eq, inf_eq_right.mpr (F32.le_infinity (F32.isNaN_capped _))]
      | true => rw [h.some hmerged, lowest_singleton_inf]

theorem MergedOffers.foldl {merged : F32 × Bool} {offered : UInt32 → WithTop F32}
    (h : MergedOffers c merged offered) (hedges : ∀ edge ∈ edges, edge.p = source ∧ edge.c = c) :
    MergedOffers c (edges.foldl mergeEdge merged) (offered ⊓ lowest (edgeOffers edges source)) := by
  induction edges generalizing merged offered with
  | nil =>
      change MergedOffers c merged (offered ⊓ ⊤)
      rwa [inf_top_eq]
  | cons edge edges ih =>
      have happend : edgeOffers (edge :: edges) source =
          edgeOffers [edge] source ++ edgeOffers edges source := by
        rw [edgeOffers, edgeOffers, edgeOffers, ← List.map_append, ← List.filter_append]
        rfl
      rw [List.foldl_cons, happend, lowest_append, ← inf_assoc]
      exact ih (h.step (hedges edge List.mem_cons_self)) fun e he => hedges e (.tail _ he)

/-- What a run of edges to one point is merged to. -/
theorem lowest_edgeOffers_of_run (hedges : ∀ edge ∈ edges, edge.p = source ∧ edge.c = c) :
    lowest (edgeOffers edges source) =
      lowest ((mergedDistance edges).map fun dist2 => (c, dist2)).toList := by
  have hstart : MergedOffers c (F32.infinity, false) ⊤ :=
    ⟨F32.isNaN_infinity, fun _ => ⟨rfl, rfl⟩, fun h => Bool.noConfusion h⟩
  have hmerged := hstart.foldl hedges
  rw [top_inf_eq] at hmerged
  rw [mergedDistance]
  split_ifs with hvalid
  · exact hmerged.some hvalid
  · exact (hmerged.none (by simpa using hvalid)).2

theorem mergedDistance_number {dist2 : F32} (hedges : ∀ edge ∈ edges, edge.p = source ∧ edge.c = c)
    (h : mergedDistance edges = some dist2) : dist2.isNaN = false := by
  have hstart : MergedOffers c (F32.infinity, false) ⊤ :=
    ⟨F32.isNaN_infinity, fun _ => ⟨rfl, rfl⟩, fun h => Bool.noConfusion h⟩
  have hmerged := hstart.foldl hedges
  rw [mergedDistance] at h
  split_ifs at h
  rw [← Option.some.inj h]
  exact hmerged.number

theorem edgeOffers_append (edges more : List PendingEdge) (source : Nat) :
    edgeOffers (edges ++ more) source = edgeOffers edges source ++ edgeOffers more source := by
  rw [edgeOffers, List.filter_append, List.map_append]
  rfl

theorem edgeOffers_perm {more : List PendingEdge} (h : edges.Perm more) (source : Nat) :
    (edgeOffers edges source).Perm (edgeOffers more source) :=
  (h.filter _).map _

theorem edgeOffers_of_ne (h : ∀ edge ∈ edges, edge.p ≠ source) : edgeOffers edges source = [] := by
  rw [edgeOffers, List.filter_eq_nil_iff.mpr]
  · rfl
  · intro edge hedge hboth
    exact h edge hedge (of_decide_eq_true hboth).1

/-- The edges of a run are between the same two points. -/
theorem ends_of_mem_edgeRuns {run : GreedyRun PendingEdge (Nat ×ₗ UInt32)} (h : run ∈ edgeRuns edges)
    (hedge : edge ∈ run.items) : edge.p = run.first.p ∧ edge.c = run.first.c := by
  have hkey : edge.ends = run.first.ends :=
    (key_of_mem_keyRuns h hedge).trans (key_of_mem_keyRuns h List.mem_cons_self).symm
  exact Prod.mk.inj (toLex.injective hkey)

theorem flatMap_edgeRuns (edges : List PendingEdge) :
    ((edgeRuns edges).flatMap GreedyRun.items).Perm edges := by
  rw [edgeRuns, flatMap_keyRuns]
  exact sortEdges_perm edges

/-- The candidates that are merged from the edges offer what the edges do. -/
theorem lowest_candidateUpdates (edges : List PendingEdge) (source : Nat) :
    lowest ((candidateUpdates edges source).map ViewLuneCandidate.entry) =
      lowest (edgeOffers edges source) := by
  rw [← lowest_perm (edgeOffers_perm (flatMap_edgeRuns edges) source), candidateUpdates]
  have hruns : ∀ run ∈ edgeRuns edges, ∀ edge ∈ run.items,
      edge.p = run.first.p ∧ edge.c = run.first.c := fun run hrun edge => ends_of_mem_edgeRuns hrun
  generalize edgeRuns edges = runs at hruns
  induction runs with
  | nil => rfl
  | cons run runs ih =>
      have hrun := hruns run List.mem_cons_self
      have htail := ih fun run hrun => hruns run (.tail _ hrun)
      rw [List.flatMap_cons, edgeOffers_append, lowest_append, ← htail]
      by_cases hsource : run.first.p = source
      · rw [List.filter_cons_of_pos (by simpa using hsource),
          lowest_edgeOffers_of_run fun edge hedge => ⟨(hrun edge hedge).1.trans hsource,
            (hrun edge hedge).2⟩]
        cases hmerged : mergedDistance run.items with
        | none =>
            rw [List.filterMap_cons_none (by rw [hmerged]; rfl)]
            exact (top_inf_eq _).symm
        | some dist2 =>
            rw [List.filterMap_cons_some (by rw [hmerged]; rfl), List.map_cons, lowest_cons]
            rfl
      · rw [List.filter_cons_of_neg (by simpa using hsource), edgeOffers_of_ne]
        · exact (top_inf_eq _).symm
        · exact fun edge hedge => (hrun edge hedge).1 ▸ hsource

theorem candidateUpdates_number {update : ViewLuneCandidate}
    (h : update ∈ candidateUpdates edges source) : update.dist2.isNaN = false := by
  obtain ⟨run, hrun, hsome⟩ := List.mem_filterMap.mp h
  obtain ⟨dist2, hmerged, rfl⟩ := Option.map_eq_some_iff.mp hsome
  have hends : ∀ edge ∈ run.items, edge.p = run.first.p ∧ edge.c = run.first.c :=
    fun edge hedge => ends_of_mem_edgeRuns (List.mem_filter.mp hrun).1 hedge
  exact mergedDistance_number hends hmerged

/-! ## The best witness of a run -/

/-- The witnesses of a run have the same points. -/
theorem points_of_mem_witnessRuns
    {run : GreedyRun PendingLuneWitness (UInt32 ×ₗ (UInt32 ×ₗ UInt32))}
    (h : run ∈ witnessRuns witnesses) (hwitness : witness ∈ run.items) :
    witness.src = run.first.src ∧ witness.victim = run.first.victim ∧
      witness.pivot = run.first.pivot := by
  have hkey : witness.points = run.first.points :=
    (key_of_mem_keyRuns h hwitness).trans (key_of_mem_keyRuns h List.mem_cons_self).symm
  obtain ⟨hsrc, hrest⟩ := Prod.mk.inj (toLex.injective hkey)
  obtain ⟨hvictim, hpivot⟩ := Prod.mk.inj (toLex.injective hrest)
  exact ⟨hsrc, hvictim, hpivot⟩

theorem flatMap_witnessRuns (witnesses : List PendingLuneWitness) :
    ((witnessRuns witnesses).flatMap GreedyRun.items).Perm witnesses := by
  rw [witnessRuns, flatMap_keyRuns]
  exact sortPendingWitnesses_perm witnesses

/-- The best of two witnesses for one pivot offers what both do. -/
theorem lowest_better {a b : RuntimeLuneWitness} (h : b.pivot = a.pivot) :
    lowest [(if b.retentionKey < a.retentionKey then b else a).entry] =
      lowest [a.entry] ⊓ lowest [b.entry] := by
  have hentry : b.entry = (a.pivot, b.rankKey) := congrArg (fun p => (p, b.rankKey)) h
  have hlt : b.retentionKey < a.retentionKey ↔ b.rankKey < a.rankKey := by
    rw [RuntimeLuneWitness.retentionKey, RuntimeLuneWitness.retentionKey, h,
      Prod.Lex.toLex_lt_toLex]
    simp only [lt_self_iff_false, and_false, or_false]
  have hboth : lowest [a.entry] ⊓ lowest [b.entry] = lowest [(a.pivot, a.rankKey ⊓ b.rankKey)] := by
    rw [hentry]
    exact lowest_singleton_inf a.pivot a.rankKey b.rankKey
  rw [hboth]
  split_ifs with hbetter
  · rw [hentry, inf_eq_right.mpr (hlt.mp hbetter).le]
  · rw [inf_eq_left.mpr (not_lt.mp fun h => hbetter (hlt.mpr h))]
    rfl

/-- What a run is merged to. -/
theorem bestStored_spec {run : GreedyRun PendingLuneWitness (UInt32 ×ₗ (UInt32 ×ₗ UInt32))}
    (hrun : ∀ witness ∈ run.items, witness.pivot = run.first.pivot) :
    (bestStored run).pivot = run.first.pivot ∧
      lowest [(bestStored run).entry] =
        lowest (run.items.map fun witness => witness.stored.entry) := by
  obtain ⟨first, more, state⟩ := run
  rw [bestStored, GreedyRun.items]
  rw [GreedyRun.items] at hrun
  dsimp only at hrun ⊢
  have hpivot : ∀ next ∈ more, next.pivot = first.pivot := fun next h => hrun next (.tail _ h)
  clear hrun
  rw [List.map_cons]
  have hfirst : first.stored.pivot = first.pivot := rfl
  generalize first.stored = best at hfirst
  induction more generalizing best with
  | nil =>
      exact ⟨hfirst, rfl⟩
  | cons next more ih =>
      have hnext : next.stored.pivot = first.pivot := hpivot next List.mem_cons_self
      rw [List.foldl_cons, List.map_cons, lowest_cons best.entry (next.stored.entry :: _),
        lowest_cons next.stored.entry, ← inf_assoc, ← lowest_better (hnext.trans hfirst.symm),
        ← lowest_cons _ (more.map fun witness => witness.stored.entry)]
      apply ih (fun next h => hpivot next (.tail _ h))
      split_ifs
      · exact hnext
      · exact hfirst

theorem witnessOffers_perm {more : List PendingLuneWitness} (h : witnesses.Perm more)
    (source : Nat) (victim : UInt32) :
    (witnessOffers witnesses source victim).Perm (witnessOffers more source victim) :=
  (h.filter _).map _

theorem witnessOffers_append (witnesses more : List PendingLuneWitness) (source : Nat)
    (victim : UInt32) : witnessOffers (witnesses ++ more) source victim =
      witnessOffers witnesses source victim ++ witnessOffers more source victim := by
  rw [witnessOffers, List.filter_append, List.map_append]
  rfl

/-- The witnesses that are merged offer to each victim what was offered. -/
theorem lowest_witnessUpdates (witnesses : List PendingLuneWitness) (source : Nat)
    (victim : UInt32) :
    lowest (((witnessUpdates witnesses source).filter fun update => update.1 = victim).map
      fun update => update.2.entry) = lowest (witnessOffers witnesses source victim) := by
  rw [← lowest_perm (witnessOffers_perm (flatMap_witnessRuns witnesses) source victim),
    witnessUpdates]
  have hruns : ∀ run ∈ witnessRuns witnesses, ∀ witness ∈ run.items,
      witness.src = run.first.src ∧ witness.victim = run.first.victim ∧
        witness.pivot = run.first.pivot := fun run hrun _ => points_of_mem_witnessRuns hrun
  generalize witnessRuns witnesses = runs at hruns
  induction runs with
  | nil => rfl
  | cons run runs ih =>
      have hrun := hruns run List.mem_cons_self
      have htail := ih fun run hrun => hruns run (.tail _ hrun)
      rw [List.flatMap_cons, witnessOffers_append, lowest_append, ← htail]
      by_cases hown : run.first.src.toNat = source ∧ run.first.victim = victim
      · have hall : witnessOffers run.items source victim =
            run.items.map fun witness => witness.stored.entry := by
          rw [witnessOffers, List.filter_eq_self.mpr]
          intro witness hwitness
          obtain ⟨hsrc, hvictim, -⟩ := hrun witness hwitness
          exact decide_eq_true (by rw [hsrc, hvictim]; exact hown)
        rw [List.filter_cons_of_pos (by simpa using hown.1), List.map_cons,
          List.filter_cons_of_pos (by simpa using hown.2), List.map_cons, lowest_cons, hall,
          ← (bestStored_spec fun witness hwitness => (hrun witness hwitness).2.2).2]
      · have hnone : witnessOffers run.items source victim = [] := by
          rw [witnessOffers, List.filter_eq_nil_iff.mpr]
          · rfl
          · intro witness hwitness hboth
            obtain ⟨hsrc, hvictim, -⟩ := hrun witness hwitness
            rw [hsrc, hvictim] at hboth
            exact hown (of_decide_eq_true hboth)
        rw [hnone, lowest_nil, top_inf_eq]
        by_cases hsource : run.first.src.toNat = source
        · rw [List.filter_cons_of_pos (by simpa using hsource), List.map_cons,
            List.filter_cons_of_neg (by simpa using fun h => hown ⟨hsource, h⟩)]
        · rw [List.filter_cons_of_neg (by simpa using hsource)]

end
end ForgeANN
