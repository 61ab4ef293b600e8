-- SUMMARY: Workers that write edges into the spine overlay rows, each row under its lock: which votes a row has taken.
import ForgeANN.Common.Basic
import ForgeANN.Lib.Except
import ForgeANN.Lib.Pool
import ForgeANN.Lib.SortDedup
import ForgeANN.Lib.Table
import ForgeANN.Spill.Record
import ForgeANN.SpineOverlay.Row
import ForgeANN.SpineOverlay.Select
import ForgeANN.ViewLune.Pending
import Mathlib.Data.Prod.Lex

/-!
# The spine overlay accumulator

A direct edge is a direct vote in the row of its source and a reciprocal vote in
the row of its destination. A call sorts its votes by row and destination and
inserts them row by row; calls on different threads take turns at every row.
-/
namespace ForgeANN

open Lib

structure RuntimeSpineOverlayAccumulator where
  rows : List RuntimeSpineOverlayRow
  capacity : Nat
  records : Nat
  directRecords : Nat
  mirrorRecords : Nat
deriving DecidableEq, Repr

/-- A vote, with the row it goes to. -/
abbrev RowVote := Nat × RuntimeOverlayUpdate

namespace RuntimeSpineOverlayAccumulator

def runtimeOverlayCapacity (options : SpineOverlayPruneOptions) : Nat :=
  min (min (max (options.overlayBudget * 8) RUNTIME_OVERLAY_MAX_SLOTS) RUNTIME_OVERLAY_MAX_SLOTS)
    (max options.maxDegree 1)

/-- With options that have passed `validate_spine_overlay_options`. -/
def create (numPoints : Nat) (options : SpineOverlayPruneOptions) :
    RuntimeSpineOverlayAccumulator where
  rows := List.replicate numPoints []
  capacity := runtimeOverlayCapacity options
  records := 0
  directRecords := 0
  mirrorRecords := 0

/-- One vote under the lock of its row. -/
def insertVote (acc : RuntimeSpineOverlayAccumulator) (vote : RowVote) :
    RuntimeSpineOverlayAccumulator :=
  { acc with rows := acc.rows.modify vote.1 fun row => row.insert vote.2 acc.capacity }

def count (acc : RuntimeSpineOverlayAccumulator) (edges : List PendingEdge) :
    RuntimeSpineOverlayAccumulator :=
  { acc with
    records := acc.records + edges.length
    directRecords := acc.directRecords +
      edges.countP fun edge => decide (edge.flags &&& PENDING_EDGE_DIRECT ≠ 0)
    mirrorRecords := acc.mirrorRecords +
      edges.countP fun edge => decide (edge.flags &&& PENDING_EDGE_MIRROR ≠ 0) }

end RuntimeSpineOverlayAccumulator

/-- The votes of an edge, for the rows there are. -/
def edgeVotes (numRows : Nat) (viewFamily : UInt32) (edge : PendingEdge) : AnnResult (List RowVote) :=
  if edge.flags &&& PENDING_EDGE_DIRECT = 0 then .ok []
  else
    let own : List RowVote :=
      if edge.p < numRows then
        [(edge.p, ⟨edge.c, edge.dist, viewFamily, max edge.localRank 1, true, false⟩)]
      else []
    if edge.c.toNat < numRows then
      if edge.p < 2 ^ 32 then
        .ok (own ++ [(edge.c.toNat,
          ⟨UInt32.ofNat edge.p, edge.dist, viewFamily, max edge.localRank 1, false, true⟩)])
      else
        .error (.index
          s!"SpineOverlay runtime accumulator supports only u32 source ids, got {edge.p}")
    else .ok own

/-- The votes of a call, in the order of its edges. -/
def callVotes (numRows : Nat) (viewFamily : UInt32) (edges : List PendingEdge) :
    AnnResult (List RowVote) :=
  (edges.mapM (edgeVotes numRows viewFamily)).map List.flatten

def rowVoteKey (vote : RowVote) : Nat ×ₗ UInt32 := toLex (vote.1, vote.2.dst)

/-- How `sort_unstable_by_key` leaves votes for the same destination of the same row. -/
abbrev RowVoteSort := UnstableSort fun a b : RowVote => rowVoteKey a ≤ rowVoteKey b

/-- Where a worker is in `write_edges`. -/
inductive OverlayWriter where
  | idle
  | inserting (votes : List RowVote) (edges : List PendingEdge)
  /-- A call has failed, before any row was changed. -/
  | failed (err : AnnError)
deriving DecidableEq

inductive OverlayMove where
  | writeEdges (viewFamily : UInt32) (edges : List PendingEdge)
  /-- All votes for the next row, under its lock. -/
  | insertRow
  | count
deriving DecidableEq

def overlayWriterStep (sort : RowVoteSort) :
    Program RuntimeSpineOverlayAccumulator OverlayWriter OverlayMove := fun acc writer move =>
  match writer, move with
  | .idle, .writeEdges viewFamily edges =>
      if edges = [] then some (acc, .idle, [])
      else
        match callVotes acc.rows.length viewFamily edges with
        | .error err => some (acc, .failed err, [])
        | .ok votes => some (acc, .inserting (sort.sort votes) edges, [])
  | .inserting (vote :: votes) edges, .insertRow =>
      let own := (vote :: votes).takeWhile fun other => other.1 = vote.1
      let rest := (vote :: votes).dropWhile fun other => other.1 = vote.1
      some (own.foldl .insertVote acc, .inserting rest edges, [])
  | .inserting [] edges, .count => some (acc.count edges, .idle, [])
  | _, _ => none

/-- Idle workers around a new accumulator. -/
def overlayWriters (numPoints : Nat) (options : SpineOverlayPruneOptions) (workers : Nat) :
    Pool RuntimeSpineOverlayAccumulator OverlayWriter where
  shared := .create numPoints options
  threads := List.replicate workers .idle

/-! ## Votes cast and votes taken -/

/-- The votes that a step casts. -/
def castVotes (numRows : Nat) (a : Nat × OverlayMove) : List RowVote :=
  match a.2 with
  | .writeEdges viewFamily edges => (callVotes numRows viewFamily edges).toOption.getD []
  | _ => []

/-- The votes that a worker has still to insert. -/
def OverlayWriter.waiting : OverlayWriter → List RowVote
  | .inserting votes _ => votes
  | _ => []

/-- The votes for one row. -/
def votesOf (row : Nat) (votes : List RowVote) : List RuntimeOverlayUpdate :=
  (votes.filter fun vote => vote.1 = row).map Prod.snd

variable {sort : RowVoteSort} {acc acc' : RuntimeSpineOverlayAccumulator}
  {writer writer' : OverlayWriter} {move : OverlayMove} {new : List OverlayWriter}
  {numPoints workers : Nat} {options : SpineOverlayPruneOptions}
  {pool next : Pool RuntimeSpineOverlayAccumulator OverlayWriter} {as : List (Nat × OverlayMove)}
  {a : Nat × OverlayMove}

/-- What a step does: it takes some of the votes that its worker had or casts now. -/
structure Takes (move : OverlayMove) (acc acc' : RuntimeSpineOverlayAccumulator)
    (writer writer' : OverlayWriter) (taken : List RowVote) : Prop where
  capacity : acc'.capacity = acc.capacity
  rows : acc'.rows = (taken.foldl .insertVote acc).rows
  votes : (taken ++ writer'.waiting).Perm (writer.waiting ++ castVotes acc.rows.length (0, move))

theorem foldl_insertVote (votes : List RowVote) (acc : RuntimeSpineOverlayAccumulator) :
    (votes.foldl .insertVote acc).capacity = acc.capacity ∧
      (votes.foldl .insertVote acc).rows = votes.foldl
        (fun rows vote => rows.modify vote.1 fun row => row.insert vote.2 acc.capacity) acc.rows := by
  induction votes generalizing acc with
  | nil => exact ⟨rfl, rfl⟩
  | cons vote votes ih => exact ih (acc.insertVote vote)

theorem overlayWriterStep_takes
    (h : overlayWriterStep sort acc writer move = some (acc', writer', new)) :
    new = [] ∧ ∃ taken, Takes move acc acc' writer writer' taken := by
  unfold overlayWriterStep at h
  split at h
  · rename_i viewFamily edges
    split_ifs at h with hnil
    · cases h
      subst hnil
      exact ⟨rfl, [], rfl, rfl, .refl _⟩
    · cases hvotes : callVotes acc.rows.length viewFamily edges with
      | error err =>
          rw [hvotes] at h
          cases h
          refine ⟨rfl, [], rfl, rfl, ?_⟩
          simp only [castVotes, hvotes]
          exact .refl _
      | ok votes =>
          rw [hvotes] at h
          cases h
          refine ⟨rfl, [], rfl, rfl, ?_⟩
          simp only [castVotes, hvotes]
          exact sort.perm votes
  · rename_i vote votes edges
    cases h
    refine ⟨rfl, _, (foldl_insertVote _ acc).1, rfl, ?_⟩
    simp only [OverlayWriter.waiting, castVotes, List.takeWhile_append_dropWhile, List.append_nil]
    exact .refl _
  · cases h
    exact ⟨rfl, [], rfl, rfl, .refl _⟩
  · cases h

/-! ## Runs -/

/-- The votes `taken` have gone into the rows, and of those that were cast the workers have the
others. -/
structure VotesTaken (numPoints capacity : Nat) (cast taken : List RowVote)
    (pool : Pool RuntimeSpineOverlayAccumulator OverlayWriter) : Prop where
  capacity_eq : pool.shared.capacity = capacity
  rows : pool.shared.rows = taken.foldl
    (fun rows vote => rows.modify vote.1 fun row => RuntimeSpineOverlayRow.insert row vote.2 capacity)
    (List.replicate numPoints [])
  votes : (taken ++ pool.threads.flatMap OverlayWriter.waiting).Perm cast

theorem VotesTaken.length {capacity : Nat} {cast taken : List RowVote}
    (h : VotesTaken numPoints capacity cast taken pool) : pool.shared.rows.length = numPoints := by
  rw [h.rows, foldl_modify, List.length_mapIdx, List.length_replicate]

theorem votesTaken_overlayWriters (numPoints : Nat) (options : SpineOverlayPruneOptions)
    (workers : Nat) :
    VotesTaken numPoints (RuntimeSpineOverlayAccumulator.runtimeOverlayCapacity options) [] []
      (overlayWriters numPoints options workers) where
  capacity_eq := rfl
  rows := rfl
  votes := by
    have hnil : (List.replicate workers OverlayWriter.idle).flatMap OverlayWriter.waiting = [] :=
      List.flatMap_eq_nil_iff.mpr fun writer hwriter => by
        rw [List.eq_of_mem_replicate hwriter]
        rfl
    exact .of_eq hnil

theorem VotesTaken.step {capacity : Nat} {cast taken : List RowVote}
    (h : VotesTaken numPoints capacity cast taken pool)
    (hstep : Pool.step (overlayWriterStep sort) pool a = some next) :
    ∃ taken', VotesTaken numPoints capacity (cast ++ castVotes numPoints a) taken' next := by
  obtain ⟨writer, acc', writer', new, hwriter, hprog, rfl⟩ := Pool.step_eq_some.mp hstep
  obtain ⟨rfl, own, htakes⟩ := overlayWriterStep_takes hprog
  refine ⟨taken ++ own, htakes.capacity.trans h.capacity_eq, ?_, ?_⟩
  · simp only
    rw [htakes.rows, (foldl_insertVote own pool.shared).2, h.rows, h.capacity_eq, List.foldl_append]
  · have hwaiting : ((pool.threads.set a.1 writer').flatMap OverlayWriter.waiting ++
        writer.waiting).Perm (pool.threads.flatMap OverlayWriter.waiting ++ writer'.waiting) :=
      Pool.flatMap_set_perm _ hwriter
    have hvotes := h.votes
    have hown := htakes.votes
    rw [h.length] at hown
    have hcast : castVotes numPoints (0, a.2) = castVotes numPoints a := rfl
    simp only [List.append_nil]
    rw [List.perm_iff_count] at hwaiting hvotes hown ⊢
    intro vote
    have hcount := hwaiting vote
    have hcount' := hvotes vote
    have hcount'' := hown vote
    simp only [List.count_append, hcast] at hcount hcount' hcount'' ⊢
    omega

theorem VotesTaken.run {capacity : Nat} {cast taken : List RowVote}
    (h : VotesTaken numPoints capacity cast taken pool)
    (hr : Run (Pool.step (overlayWriterStep sort)) pool as next) :
    ∃ taken', VotesTaken numPoints capacity (cast ++ as.flatMap (castVotes numPoints)) taken' next := by
  induction hr generalizing cast taken with
  | nil => exact ⟨taken, by simpa using h⟩
  | cons hstep _ ih =>
      obtain ⟨taken', h'⟩ := h.step hstep
      obtain ⟨taken'', h''⟩ := ih h'
      exact ⟨taken'', by simpa using h''⟩

/-- A row is what its own votes have made of it. -/
theorem VotesTaken.row {capacity i : Nat} {cast taken : List RowVote} {row : RuntimeSpineOverlayRow}
    (h : VotesTaken numPoints capacity cast taken pool) (hrow : pool.shared.rows[i]? = some row) :
    row = RuntimeSpineOverlayRow.after capacity (votesOf i taken) := by
  rw [h.rows, foldl_modify, List.getElem?_mapIdx, List.getElem?_replicate] at hrow
  split_ifs at hrow
  · rw [RuntimeSpineOverlayRow.after, votesOf, List.foldl_map]
    exact (Option.some.inj hrow).symm
  · cases hrow

theorem votesOf_append (i : Nat) (votes more : List RowVote) :
    votesOf i (votes ++ more) = votesOf i votes ++ votesOf i more := by
  rw [votesOf, List.filter_append, List.map_append]
  rfl

/-! ## What a candidate counts -/

/-- A candidate is the record of the votes: its support is the number of bits of the families that
voted directly for it, in every order, and its rank mass is the same in every order if and only if
direct votes with one bit weigh the same. -/
structure CountsFamilies (votes : List RuntimeOverlayUpdate) (candidate : RuntimeOverlayCandidate) :
    Prop where
  record : candidate = .recorded candidate.dst votes
  support : candidate.familySupport =
    ((directFamilies candidate.dst votes).image familyPlace).card
  families : candidate.familySupport = (directFamilies candidate.dst votes).card ↔
    Set.InjOn familyPlace (directFamilies candidate.dst votes)
  support_order : ∀ votes' : List RuntimeOverlayUpdate, votes'.Perm votes →
    (RuntimeOverlayCandidate.recorded candidate.dst votes').familySupport = candidate.familySupport
  rankMass_order : (∀ votes' : List RuntimeOverlayUpdate, votes'.Perm votes →
    (RuntimeOverlayCandidate.recorded candidate.dst votes').rankMass = candidate.rankMass) ↔
      SameWeights candidate.dst votes

theorem familySupport_of_record {votes : List RuntimeOverlayUpdate}
    {candidate : RuntimeOverlayCandidate} (h : candidate = .recorded candidate.dst votes) :
    candidate.familySupport = ((directFamilies candidate.dst votes).image familyPlace).card := by
  have hsupport := recorded_familySupport candidate.dst votes
  rwa [← h] at hsupport

theorem countsFamilies_of_record {votes : List RuntimeOverlayUpdate}
    {candidate : RuntimeOverlayCandidate} (h : candidate = .recorded candidate.dst votes) :
    CountsFamilies votes candidate where
  record := h
  support := familySupport_of_record h
  families := by
    rw [familySupport_of_record h]
    exact Finset.card_image_iff
  support_order votes' hperm := by
    rw [familySupport_of_record h, recorded_familySupport, directFamilies_perm hperm]
  rankMass_order := by
    have hmass := recorded_rankMass_perm_iff candidate.dst votes
    rwa [← h] at hmass

/-- Workers write edges, in whatever order their calls come to the rows. What row `i` has taken are
the votes cast for it, apart from those that wait in calls under way. Each candidate counts the
families of the votes since the one that it was let in with; of all votes for it, as long as there
are no more destinations than slots. -/
theorem overlayWriters_count
    (hr : Run (Pool.step (overlayWriterStep sort)) (overlayWriters numPoints options workers) as pool)
    (i : Nat) (row : RuntimeSpineOverlayRow) (hrow : pool.shared.rows[i]? = some row) :
    ∃ taken : List RuntimeOverlayUpdate,
      (taken ++ votesOf i (pool.threads.flatMap OverlayWriter.waiting)).Perm
        (votesOf i (as.flatMap (castVotes numPoints))) ∧
      (∀ candidate ∈ row, ∃ earlier vote later, taken = earlier ++ vote :: later ∧
        vote.dst = candidate.dst ∧
        (∀ other ∈ RuntimeSpineOverlayRow.after pool.shared.capacity earlier,
          other.dst ≠ candidate.dst) ∧
        CountsFamilies (vote :: later) candidate) ∧
      ((destinations taken).card ≤ pool.shared.capacity →
        (row.map RuntimeOverlayCandidate.dst).toFinset = destinations taken ∧
          ∀ candidate ∈ row, CountsFamilies taken candidate) := by
  obtain ⟨taken, h⟩ := (votesTaken_overlayWriters numPoints options workers).run hr
  have hcapacity : pool.shared.capacity ≤ RUNTIME_OVERLAY_MAX_SLOTS := by
    rw [h.capacity_eq, RuntimeSpineOverlayAccumulator.runtimeOverlayCapacity]
    omega
  obtain rfl := h.row hrow
  rw [← h.capacity_eq] at *
  refine ⟨votesOf i taken, ?_, fun candidate hcandidate => ?_, fun hfew => ⟨?_, ?_⟩⟩
  · rw [← votesOf_append]
    exact (h.votes.filter _).map _
  · obtain ⟨earlier, vote, later, heq, hdst, hnone, hrecord⟩ :=
      (keepsRecords_after _ _).since candidate hcandidate
    exact ⟨earlier, vote, later, heq, hdst,
      fun other hother hsame => hnone (hsame ▸ List.mem_map_of_mem hother),
      countsFamilies_of_record hrecord⟩
  · exact dsts_after (by omega)
  · exact fun candidate hcandidate => countsFamilies_of_record (record_of_few (by omega) hcandidate)

/-- One worker writes a direct edge from point 0 and comes back. -/
def writeDirect (dst : UInt32) (dist : UInt32) (family : UInt32) (localRank : UInt8) :
    List (Nat × OverlayMove) :=
  [(0, .writeEdges family [⟨0, dst, 0, ⟨dist⟩, false, localRank, PENDING_EDGE_DIRECT⟩]),
    (0, .insertRow), (0, .count)]

/-- The worker alone, with what its votes have come to. -/
def overlayOutcome (options : SpineOverlayPruneOptions) (as : List (Nat × OverlayMove)) :
    Option (List RuntimeSpineOverlayRow × List OverlayWriter) :=
  (follow (Pool.step (overlayWriterStep (.byKey rowVoteKey))) (overlayWriters 1 options 1) as).map
    fun pool => (pool.shared.rows, pool.threads)

/-- Two families with bits of their own vote for one destination. -/
theorem overlayWriters_count_two : ∃ pool row, ∃ taken : List RuntimeOverlayUpdate,
    Run (Pool.step (overlayWriterStep (.byKey rowVoteKey))) (overlayWriters 1 ⟨3, 1⟩ 1)
      (writeDirect 5 0x3f800000 0 1 ++ writeDirect 5 0x3f800000 1 2) pool ∧
    pool.shared.rows[0]? = some row ∧
    row.map (fun candidate => (candidate.familySupport, candidate.rankMass)) = [(2, 9)] ∧
    ∀ candidate ∈ row, ∃ earlier vote later, taken = earlier ++ vote :: later ∧
      CountsFamilies (vote :: later) candidate := by
  have hfollow : (overlayOutcome ⟨3, 1⟩
      (writeDirect 5 0x3f800000 0 1 ++ writeDirect 5 0x3f800000 1 2)).map (fun outcome =>
        outcome.1.map fun row => row.map fun candidate =>
          (candidate.familySupport, candidate.rankMass)) = some [[(2, 9)]] := by
    decide +kernel
  obtain ⟨outcome, houtcome, hrows⟩ := Option.map_eq_some_iff.mp hfollow
  obtain ⟨pool, hr, rfl⟩ := exists_run_of_follow houtcome
  obtain ⟨row, hrow, hmap⟩ := List.map_eq_singleton_iff.mp hrows
  have hrow' : pool.shared.rows[0]? = some row := by
    have : pool.shared.rows = [row] := hrow
    rw [this]
    rfl
  obtain ⟨taken, -, hcounts, -⟩ := overlayWriters_count hr 0 row hrow'
  refine ⟨pool, row, taken, hr, hrow', hmap, fun candidate hcandidate => ?_⟩
  obtain ⟨earlier, vote, later, heq, -, -, hcount⟩ := hcounts candidate hcandidate
  exact ⟨earlier, vote, later, heq, hcount⟩

/-- The worker comes back from its calls, with one candidate in the row. -/
def LeavesCandidate (options : SpineOverlayPruneOptions) (as : List (Nat × OverlayMove))
    (candidate : RuntimeOverlayCandidate) : Prop :=
  ∃ pool, Run (Pool.step (overlayWriterStep (.byKey rowVoteKey))) (overlayWriters 1 options 1) as
    pool ∧ (pool.shared.rows, pool.threads) = ([[candidate]], [.idle])

theorem leavesCandidate_of_outcome {as : List (Nat × OverlayMove)}
    {candidate : RuntimeOverlayCandidate}
    (h : overlayOutcome options as = some ([[candidate]], [.idle])) :
    LeavesCandidate options as candidate := exists_run_of_follow h

/-- The votes for the row. -/
def heard (as : List (Nat × OverlayMove)) : List RuntimeOverlayUpdate :=
  votesOf 0 (as.flatMap (castVotes 1))

/-- Two families share a bit and are counted as one; a family that votes twice is weighed by its
first vote; and a destination that has lost its slot begins anew. -/
theorem overlayWriters_miscount :
    (∃ as candidate, LeavesCandidate ⟨3, 1⟩ as candidate ∧
      candidate.familySupport ≠ (directFamilies candidate.dst (heard as)).card) ∧
    (∃ as as' candidate candidate', LeavesCandidate ⟨3, 1⟩ as candidate ∧
      LeavesCandidate ⟨3, 1⟩ as' candidate' ∧ (heard as').Perm (heard as) ∧
      candidate'.dst = candidate.dst ∧ candidate'.rankMass ≠ candidate.rankMass) ∧
    (∃ as as' candidate candidate', LeavesCandidate ⟨1, 1⟩ as candidate ∧
      LeavesCandidate ⟨1, 1⟩ as' candidate' ∧ (heard as').Perm (heard as) ∧
      candidate'.dst = candidate.dst ∧ candidate'.familySupport ≠ candidate.familySupport) := by
  refine ⟨?_, ?_, ?_⟩
  · refine ⟨writeDirect 5 0x3f800000 0 1 ++ writeDirect 5 0x3f800000 37 1,
      ⟨5, ⟨0x3f800000⟩, 1, 0, 6, 1, 1, 0⟩, leavesCandidate_of_outcome ?_, ?_⟩ <;> decide +kernel
  · refine ⟨writeDirect 5 0x3f800000 0 1 ++ writeDirect 5 0x3f800000 0 2,
      writeDirect 5 0x3f800000 0 2 ++ writeDirect 5 0x3f800000 0 1,
      ⟨5, ⟨0x3f800000⟩, 1, 0, 6, 1, 1, 0⟩, ⟨5, ⟨0x3f800000⟩, 1, 0, 3, 2, 1, 0⟩,
      leavesCandidate_of_outcome ?_, leavesCandidate_of_outcome ?_, ?_, rfl, ?_⟩ <;> decide +kernel
  · refine ⟨writeDirect 5 0x3f800000 0 4 ++ writeDirect 5 0x3f000000 1 1 ++
        writeDirect 6 0x3f800000 0 1,
      writeDirect 5 0x3f800000 0 4 ++ writeDirect 6 0x3f800000 0 1 ++
        writeDirect 5 0x3f000000 1 1,
      ⟨5, ⟨0x3f000000⟩, 2, 0, 7, 1, 5, 0⟩, ⟨5, ⟨0x3f000000⟩, 1, 0, 6, 1, 4, 0⟩,
      leavesCandidate_of_outcome ?_, leavesCandidate_of_outcome ?_, ?_, rfl, ?_⟩ <;> decide +kernel

end ForgeANN
