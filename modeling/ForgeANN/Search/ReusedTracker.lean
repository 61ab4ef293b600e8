-- SUMMARY: Searches with one tracker: each of them does not see what those before have left in it.
import ForgeANN.Search.BeamSearch

/-!
# Searches with a reused tracker

A search only asks whether a mark is of its own generation, and after `reset` none
is. So it goes the same way with any two trackers of one size.
-/
namespace ForgeANN

open Lib

/-! ## Sequences of searches -/

/-- A search of a query, with the tracker it leaves behind. -/
abbrev TrackedSearch (κ : Type) := κ → VisitTracker → AnnResult (Option (List UInt32 × VisitTracker))

/-- One tracker for all queries. -/
def searchReusing {κ : Type} (search : TrackedSearch κ) :
    List κ → VisitTracker → AnnResult (Option (List (List UInt32)))
  | [], _ => .ok (some [])
  | query :: queries, visited => do
      match ← search query visited with
      | none => .ok none
      | some (result, visited) => do
          let results ← searchReusing search queries visited
          .ok (results.map (result :: ·))

/-- A new tracker for each query. -/
def searchFresh {κ : Type} (search : TrackedSearch κ) (size : Nat) :
    List κ → AnnResult (Option (List (List UInt32)))
  | [] => .ok (some [])
  | query :: queries => do
      match ← search query (VisitTracker.new size) with
      | none => .ok none
      | some (result, _) => do
          let results ← searchFresh search size queries
          .ok (results.map (result :: ·))

/-- With any two trackers of the size the result is the same, and the tracker keeps its size. -/
def TrackerBlind {κ : Type} (search : TrackedSearch κ) (size : Nat) : Prop :=
  ∀ query visited visited', visited.marks.length = size → visited'.marks.length = size →
    Alike (Option.Rel fun found found' => found.1 = found'.1 ∧ found.2.marks.length = size ∧
      found'.2.marks.length = size) (search query visited) (search query visited')

theorem searchReusing_eq_fresh {κ : Type} {search : TrackedSearch κ} {size : Nat}
    (h : TrackerBlind search size) (queries : List κ) {visited : VisitTracker}
    (hsize : visited.marks.length = size) :
    searchReusing search queries visited = searchFresh search size queries := by
  apply Alike.eq
  induction queries generalizing visited with
  | nil => exact .ok rfl
  | cons query queries ih =>
      rw [searchReusing, searchFresh]
      refine (h query visited _ hsize (VisitTracker.new_length size)).bind fun found found' hfound => ?_
      cases hfound with
      | none => exact .ok rfl
      | @some found found' hsame =>
          obtain ⟨hresult, hlen, -⟩ := hsame
          refine (ih hlen).bind fun results results' hresults => .ok ?_
          rw [hresult, hresults]

/-! ## The beam search -/

/-- The marks of this generation are the same, however they are told. -/
structure SameSeen (size : Nat) (visited visited' : VisitTracker) : Prop where
  length : visited.marks.length = size
  length' : visited'.marks.length = size
  seen : ∀ i, visited.Seen i ↔ visited'.Seen i

structure SameState {heaps : SearchHeaps} (size : Nat) (state state' : SearchState heaps) : Prop where
  candidates : state.candidates = state'.candidates
  best : state.best = state'.best
  visited : SameSeen size state.visited state'.visited

section

variable {size idx : Nat} {visited visited' : VisitTracker}

theorem SameSeen.reset (h : visited.marks.length = size) (h' : visited'.marks.length = size) :
    SameSeen size visited.reset visited'.reset where
  length := (VisitTracker.reset_length _).trans h
  length' := (VisitTracker.reset_length _).trans h'
  seen i := iff_of_false (VisitTracker.not_seen_reset _ i) (VisitTracker.not_seen_reset _ i)

theorem SameSeen.marked (h : SameSeen size visited visited') (hidx : idx < size) :
    SameSeen size (visited.marked idx) (visited'.marked idx) where
  length := (VisitTracker.marked_length _ _).trans h.length
  length' := (VisitTracker.marked_length _ _).trans h.length'
  seen i := by
    rw [VisitTracker.seen_marked (h.length ▸ hidx), VisitTracker.seen_marked (h.length' ▸ hidx),
      h.seen i]

theorem SameSeen.mark (h : SameSeen size visited visited') (idx : Nat) :
    Alike (SameSeen size) (visited.mark idx) (visited'.mark idx) := by
  rw [VisitTracker.mark, VisitTracker.mark, h.length, h.length']
  split_ifs with hidx
  · exact .ok (h.marked hidx)
  · exact .error _

theorem SameSeen.markIfNew (h : SameSeen size visited visited') (idx : Nat) :
    Alike (fun found found' => found.1 = found'.1 ∧ SameSeen size found.2 found'.2)
      (visited.markIfNew idx) (visited'.markIfNew idx) := by
  rcases Nat.lt_or_ge idx size with hlt | hge
  · rw [VisitTracker.markIfNew_eq (h.length ▸ hlt), VisitTracker.markIfNew_eq (h.length' ▸ hlt)]
    refine .ok ⟨?_, h.marked hlt⟩
    exact congrArg (!·) (decide_eq_decide.mpr (h.seen idx))
  · rw [VisitTracker.markIfNew_error (h.length ▸ hge), VisitTracker.markIfNew_error (h.length' ▸ hge)]
    exact .error _

end

section

variable {heaps : SearchHeaps} {size : Nat} {state state' : SearchState heaps} (query : List F32)
  (data : MmapF32Data) (graph : List (List UInt32)) (lEff : Nat)

theorem SameState.visitNeighbor (h : SameState size state state') (nbr : UInt32) :
    Alike (SameState size) (visitNeighbor query data graph lEff state nbr)
      (visitNeighbor query data graph lEff state' nbr) := by
  rw [ForgeANN.visitNeighbor, ForgeANN.visitNeighbor]
  split_ifs with hrange
  · exact .ok h
  · refine (h.visited.markIfNew nbr.toNat).bind fun found found' hfound => ?_
    obtain ⟨hnew, hvisited⟩ := hfound
    dsimp only
    rw [hnew]
    split_ifs
    · refine (Alike.refl (fun _ => rfl) (data.row nbr.toNat)).bind fun row row' hrow => .ok ?_
      exact ⟨by rw [h.candidates, hrow], by rw [h.best, hrow], hvisited⟩
    · exact .ok ⟨h.candidates, h.best, hvisited⟩

theorem SameState.searchLoop (fuel : Nat) (h : SameState size state state') :
    Alike (Option.Rel (SameState size)) (searchLoop query data graph lEff fuel state)
      (searchLoop query data graph lEff fuel state') := by
  induction fuel generalizing state state' with
  | zero => exact .ok .none
  | succ fuel ih =>
      rw [ForgeANN.searchLoop, ForgeANN.searchLoop, h.candidates, h.best]
      cases heaps.candidates.pop state'.candidates with
      | none => exact .ok (.some h)
      | some popped =>
          obtain ⟨⟨cd, cid⟩, rest⟩ := popped
          have hrest : @SameState heaps size ⟨rest, state'.best, state.visited⟩
              ⟨rest, state'.best, state'.visited⟩ := ⟨rfl, rfl, h.visited⟩
          dsimp only
          split_ifs
          · exact .ok (.some hrest)
          · cases graph[cid.toNat]? with
            | none => exact .error _
            | some neighbors =>
                exact (Alike.foldlM (fun s s' nbr hs => hs.visitNeighbor query data graph lEff nbr)
                  neighbors hrest).bind fun s s' hs => ih hs

end

/-- A search is blind for what its tracker has been used for. -/
theorem trackerBlind_searchOne (heaps : SearchHeaps) (fuel : Nat) (query : List F32)
    (data : MmapF32Data) (graph : List (List UInt32)) (start : UInt32) (k l : Nat) {size : Nat}
    {visited visited' : VisitTracker} (h : visited.marks.length = size)
    (h' : visited'.marks.length = size) :
    Alike (Option.Rel fun found found' => found.1 = found'.1 ∧ found.2.marks.length = size ∧
        found'.2.marks.length = size)
      (searchOne heaps fuel query data graph start k l visited)
      (searchOne heaps fuel query data graph start k l visited') := by
  rw [searchOne, searchOne]
  refine ((SameSeen.reset h h').mark start.toNat).bind fun marked marked' hmarked => ?_
  refine (Alike.refl (fun _ => rfl) (data.row start.toNat)).bind fun row row' hrow => ?_
  subst hrow
  dsimp only
  split_ifs
  · exact .error _
  · have hstart : @SameState heaps size
        ⟨heaps.candidates.push heaps.candidates.new (l2Distance query row, start),
          heaps.best.push heaps.best.new (l2Distance query row, start), marked⟩
        ⟨heaps.candidates.push heaps.candidates.new (l2Distance query row, start),
          heaps.best.push heaps.best.new (l2Distance query row, start), marked'⟩ :=
      ⟨rfl, rfl, hmarked⟩
    refine (hstart.searchLoop query data graph _ fuel).bind fun final final' hfinal => .ok ?_
    cases hfinal with
    | none => exact .none
    | some hsame =>
        exact .some ⟨congrArg (fun best => nearestIds k (heaps.best.intoIter best)) hsame.best,
          hsame.visited.length, hsame.visited.length'⟩

end ForgeANN
