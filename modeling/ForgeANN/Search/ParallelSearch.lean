-- SUMMARY: The parallel search: queries cut into chunks, a thread and a tracker for each, and one slot for every result.
import ForgeANN.Common.Chunks
import ForgeANN.Lib.Pool
import ForgeANN.Search.LocalOptimum
import ForgeANN.Search.ReusedTracker

/-!
# The parallel search

The chunk is rounded up by adding the number of threads first. That sum can wrap,
and a chunk of zero queries leaves every slot empty.
-/
namespace ForgeANN

open Lib

/-! ## The searches of the driver -/

/-- A query on its own. -/
structure SearchRequest where
  query : List F32
  start : UInt32
  k : Nat
  l : Nat

def searchRequest (heaps : SearchHeaps) (fuel : Nat) (data : MmapF32Data)
    (graph : List (List UInt32)) : TrackedSearch SearchRequest := fun request =>
  searchOne heaps fuel request.query data graph request.start request.k request.l

/-- What the driver searches with. -/
structure SearchBatch where
  heaps : SearchHeaps
  fuel : Nat
  queries : List F32
  data : MmapF32Data
  dim : Nat
  graph : List (List UInt32)
  starts : List UInt32
  k : Nat
  l : Nat

/-- A thread of the search: the queries it has still to do, and its tracker. -/
structure SearchWorker where
  next : Nat
  stop : Nat
  visited : VisitTracker

/-- The results so far, and whether a thread has panicked. -/
structure SearchSlots where
  slots : List (Option (List UInt32))
  panicked : Bool

namespace SearchBatch

variable (batch : SearchBatch)

def searchQuery : TrackedSearch Nat := fun qi visited => do
  let query ← indexRange batch.queries (wrap (qi * batch.dim)) (wrap ((qi + 1) * batch.dim))
  match batch.starts[qi]? with
  | none => .error (.panic "index out of bounds")
  | some start =>
      searchOne batch.heaps batch.fuel query batch.data batch.graph start batch.k batch.l visited

/-- The loop of `main` for one thread. -/
def sequentialSearch (numQueries : Nat) : AnnResult (Option (List (List UInt32))) :=
  searchReusing batch.searchQuery (List.range numQueries) (VisitTracker.new batch.graph.length)

/-- `for qi in lo..hi`, query by query. A search without end takes no step. -/
def searchWorker : Program SearchSlots SearchWorker Unit := fun shared worker _ =>
  if worker.next < worker.stop then
    match batch.searchQuery worker.next worker.visited with
    | .error _ => some ({ shared with panicked := true }, { worker with next := worker.stop }, [])
    | .ok none => none
    | .ok (some (result, visited)) =>
        some ({ shared with slots := shared.slots.set worker.next (some result) },
          { worker with next := worker.next + 1, visited }, [])
  else none

end SearchBatch

/-- `(num_queries + num_threads - 1) / num_threads`. -/
def searchChunk (numQueries numThreads : Nat) : Nat :=
  wrap (wrap (numQueries + numThreads) + (2 ^ 64 - 1)) / numThreads

def spawnSearch (size numQueries chunk tid : Nat) : Option SearchWorker :=
  let lo := wrap (tid * chunk)
  let hi := min (wrap (lo + chunk)) numQueries
  if hi ≤ lo then none else some ⟨lo, hi, VisitTracker.new size⟩

/-- The threads of the scope, before any of them has done a query. -/
def spawnedSearches (size numQueries numThreads : Nat) : Pool SearchSlots SearchWorker where
  shared := ⟨List.replicate numQueries none, false⟩
  threads := (List.range numThreads).filterMap
    (spawnSearch size numQueries (searchChunk numQueries numThreads))

/-- `o.unwrap()`. -/
def unwrapSlot : Option (List UInt32) → AnnResult (List UInt32)
  | none => .error (.panic "called Option::unwrap() on a None value")
  | some result => .ok result

/-- What is made of the slots when all threads have been joined. -/
def joinedResults (shared : SearchSlots) : AnnResult (List (List UInt32)) :=
  if shared.panicked then .error (.panic "a scoped thread panicked")
  else shared.slots.mapM unwrapSlot

/-- What `parallel_search` can come to, with slots of `slotBytes` bytes. -/
inductive ParallelSearch (batch : SearchBatch) (numQueries numThreads slotBytes : Nat) :
    AnnResult (List (List UInt32)) → Prop
  | overflow (h : 2 ^ 63 ≤ numQueries * slotBytes) :
      ParallelSearch batch numQueries numThreads slotBytes (.error (.panic "capacity overflow"))
  | joined {as pool} (h : numQueries * slotBytes < 2 ^ 63)
      (hrun : Run (Pool.step batch.searchWorker)
        (spawnedSearches batch.graph.length numQueries numThreads) as pool)
      (hdone : ∀ worker ∈ pool.threads, worker.stop ≤ worker.next) :
      ParallelSearch batch numQueries numThreads slotBytes (joinedResults pool.shared)

/-- All interleavings come to the results, and none of them goes on for ever or gets stuck. -/
structure ParallelReturns (batch : SearchBatch) (numQueries numThreads slotBytes : Nat)
    (results : List (List UInt32)) : Prop where
  returns : ∀ outcome,
    ParallelSearch batch numQueries numThreads slotBytes outcome ↔ outcome = .ok results
  bounded : ∃ bound, ∀ as pool, Run (Pool.step batch.searchWorker)
    (spawnedSearches batch.graph.length numQueries numThreads) as pool → as.length ≤ bound
  ends : ∀ as pool, Run (Pool.step batch.searchWorker)
    (spawnedSearches batch.graph.length numQueries numThreads) as pool →
      ∃ bs last, Run (Pool.step batch.searchWorker) pool bs last ∧
        ∀ worker ∈ last.threads, worker.stop ≤ worker.next

/-! ## Results with a new tracker each -/

/-- The queries have these results, each with a tracker of its own. -/
theorem forall₂_of_searchFresh {κ : Type} {search : TrackedSearch κ} {size : Nat} {queries : List κ}
    {results : List (List UInt32)} (h : searchFresh search size queries = .ok (some results)) :
    List.Forall₂ (fun query result => ∃ after, search query (VisitTracker.new size) =
      .ok (some (result, after))) queries results := by
  induction queries generalizing results with
  | nil =>
      cases h
      exact .nil
  | cons query queries ih =>
      rw [searchFresh] at h
      cases hsearch : search query (VisitTracker.new size) with
      | error err => rw [hsearch] at h; cases h
      | ok found =>
          rw [hsearch, ok_bind] at h
          cases found with
          | none => cases h
          | some found =>
              obtain ⟨result, after⟩ := found
              dsimp only at h
              cases hrest : searchFresh search size queries with
              | error err => rw [hrest] at h; cases h
              | ok more =>
                  rw [hrest, ok_bind] at h
                  cases more with
                  | none => cases h
                  | some more =>
                      cases h
                      exact .cons ⟨after, hsearch⟩ (ih hrest)

theorem trackerBlind_searchRequest (heaps : SearchHeaps) (fuel : Nat) (data : MmapF32Data)
    (graph : List (List UInt32)) (size : Nat) :
    TrackerBlind (searchRequest heaps fuel data graph) size := fun request _ _ h h' =>
  trackerBlind_searchOne heaps fuel request.query data graph request.start request.k request.l h h'

theorem SearchBatch.trackerBlind_searchQuery (batch : SearchBatch) (size : Nat) :
    TrackerBlind batch.searchQuery size := by
  intro qi visited visited' h h'
  rw [searchQuery, searchQuery]
  refine (Alike.refl (fun _ => rfl) _).bind fun query query' hquery => ?_
  subst hquery
  cases batch.starts[qi]? with
  | none => exact .error _
  | some start => exact trackerBlind_searchOne _ _ query _ _ start _ _ h h'

/-- The results of the queries, whatever their trackers have been used for. -/
structure SearchAnswers (batch : SearchBatch) (numQueries : Nat) (results : List (List UInt32)) : Prop where
  length : results.length = numQueries
  found : ∀ q < numQueries, ∀ visited, visited.marks.length = batch.graph.length →
    ∃ result after, results[q]? = some result ∧
      batch.searchQuery q visited = .ok (some (result, after)) ∧
      after.marks.length = batch.graph.length

theorem answers_of_sequential {batch : SearchBatch} {numQueries : Nat} {results : List (List UInt32)}
    (h : batch.sequentialSearch numQueries = .ok (some results)) : SearchAnswers batch numQueries results := by
  rw [SearchBatch.sequentialSearch, searchReusing_eq_fresh (batch.trackerBlind_searchQuery _) _
    (VisitTracker.new_length _)] at h
  have hall := forall₂_of_searchFresh h
  refine ⟨hall.length_eq.symm.trans List.length_range, fun q hq visited hvisited => ?_⟩
  have hlt : q < results.length := by rwa [hall.length_eq.symm, List.length_range]
  obtain ⟨after, hnew⟩ := (List.forall₂_iff_get.mp hall).2 q (by rwa [List.length_range]) hlt
  simp only [List.get_eq_getElem, List.getElem_range] at hnew
  have halike := batch.trackerBlind_searchQuery batch.graph.length q _ visited
    (VisitTracker.new_length _) hvisited
  rw [hnew] at halike
  generalize batch.searchQuery q visited = outcome at halike ⊢
  cases halike with
  | ok hrel =>
      cases hrel with
      | some hsame =>
          obtain ⟨hresult, -, hsize⟩ := hsame
          refine ⟨_, _, List.getElem?_eq_getElem hlt, ?_, hsize⟩
          exact congrArg (fun result => Except.ok (some (result, _))) hresult.symm

/-! ## Runs of the threads -/

section

variable {batch : SearchBatch} {numQueries numThreads slotBytes : Nat}
  {results : List (List UInt32)} {pool next : Pool SearchSlots SearchWorker}

/-- Every slot has its result, or a thread has still to fill it. -/
structure SlotsCovered (batch : SearchBatch) (numQueries : Nat) (results : List (List UInt32))
    (pool : Pool SearchSlots SearchWorker) : Prop where
  calm : pool.shared.panicked = false
  length : pool.shared.slots.length = numQueries
  workers : ∀ worker ∈ pool.threads,
    worker.visited.marks.length = batch.graph.length ∧ worker.stop ≤ numQueries
  slots : ∀ q < numQueries, pool.shared.slots[q]? = some results[q]? ∨
    ∃ worker ∈ pool.threads, worker.next ≤ q ∧ q < worker.stop

/-- What a thread does that has a query left. -/
theorem searchWorker_eq (h : SearchAnswers batch numQueries results) (shared : SearchSlots)
    {worker : SearchWorker} (hsize : worker.visited.marks.length = batch.graph.length)
    (hstop : worker.stop ≤ numQueries) (hlt : worker.next < worker.stop) :
    ∃ result after, results[worker.next]? = some result ∧
      after.marks.length = batch.graph.length ∧
      batch.searchWorker shared worker () =
        some (⟨shared.slots.set worker.next (some result), shared.panicked⟩,
          ⟨worker.next + 1, worker.stop, after⟩, []) := by
  obtain ⟨result, after, hresult, hsearch, hafter⟩ :=
    h.found worker.next (by omega) worker.visited hsize
  refine ⟨result, after, hresult, hafter, ?_⟩
  rw [SearchBatch.searchWorker, if_pos hlt, hsearch]

/-- A thread whose queries are done stays where it is. -/
theorem next_lt_of_searchWorker {shared shared' : SearchSlots} {worker worker' : SearchWorker}
    {new : List SearchWorker}
    (h : batch.searchWorker shared worker () = some (shared', worker', new)) :
    worker.next < worker.stop := by
  rw [SearchBatch.searchWorker] at h
  split_ifs at h with hlt
  exact hlt

theorem SlotsCovered.step (hanswers : SearchAnswers batch numQueries results)
    (h : SlotsCovered batch numQueries results pool) {a : Nat × Unit}
    (hstep : Pool.step batch.searchWorker pool a = some next) :
    SlotsCovered batch numQueries results next := by
  obtain ⟨worker, shared, worker', new, hget, hprog, rfl⟩ := Pool.step_eq_some.mp hstep
  have hmem := List.mem_of_getElem? hget
  obtain ⟨hsize, hstop⟩ := h.workers worker hmem
  have hlt := next_lt_of_searchWorker hprog
  obtain ⟨result, after, hresult, hafter, heq⟩ :=
    searchWorker_eq hanswers pool.shared hsize hstop hlt
  rw [heq] at hprog
  obtain ⟨rfl, rfl, rfl⟩ : _ ∧ _ ∧ _ := by simpa using hprog
  rw [List.append_nil]
  refine ⟨h.calm, List.length_set.trans h.length, ?_, ?_⟩
  · intro other hother
    rcases List.mem_or_eq_of_mem_set hother with hold | rfl
    · exact h.workers other hold
    · exact ⟨hafter, hstop⟩
  · intro q hq
    dsimp only
    by_cases hself : q = worker.next
    · subst hself
      refine .inl ?_
      rw [List.getElem?_set_self (by rw [h.length]; omega), hresult]
    · rw [List.getElem?_set_ne (Ne.symm hself)]
      rcases h.slots q hq with hfilled | ⟨other, hother, hle, hless⟩
      · exact .inl hfilled
      · have hstay : other = worker ∨
            other ∈ pool.threads.set a.1 ⟨worker.next + 1, worker.stop, after⟩ :=
          Pool.eq_or_mem_set hget hother
        rcases hstay with rfl | hstill
        · exact .inr ⟨_, Pool.mem_set_self hget, by dsimp only; omega, hless⟩
        · exact .inr ⟨other, hstill, hle, hless⟩

/-- With all threads done the slots are the results. -/
theorem SlotsCovered.joined (hanswers : SearchAnswers batch numQueries results)
    (h : SlotsCovered batch numQueries results pool)
    (hdone : ∀ worker ∈ pool.threads, worker.stop ≤ worker.next) :
    joinedResults pool.shared = .ok results := by
  have hslots : pool.shared.slots = results.map some := by
    apply List.ext_getElem?
    intro q
    rcases Nat.lt_or_ge q numQueries with hlt | hge
    · rcases h.slots q hlt with hfilled | ⟨worker, hworker, hle, hless⟩
      · rw [hfilled, List.getElem?_map, List.getElem?_eq_getElem (hanswers.length ▸ hlt)]
        rfl
      · have := hdone worker hworker
        omega
    · rw [List.getElem?_eq_none (h.length ▸ hge), List.getElem?_eq_none (by
        rw [List.length_map, hanswers.length]
        exact hge)]
  have hunwrap : (results.map some).mapM unwrapSlot = .ok (results.map id) :=
    (mapM_map_congr fun _ _ => rfl).trans (mapM_eq_ok_map (f := Except.ok) fun _ _ => rfl)
  rw [joinedResults, h.calm, if_neg Bool.false_ne_true, hslots, hunwrap, List.map_id]

/-- From every state the threads can do what they have left, one after the other. -/
theorem SlotsCovered.ends (hanswers : SearchAnswers batch numQueries results)
    (h : SlotsCovered batch numQueries results pool) :
    ∃ as last, Run (Pool.step batch.searchWorker) pool as last ∧
      ∀ worker ∈ last.threads, worker.stop ≤ worker.next := by
  have hsolo : ∀ left, ∀ shared, ∀ worker : SearchWorker, worker.stop - worker.next = left →
      worker.visited.marks.length = batch.graph.length → worker.stop ≤ numQueries →
      ∃ ms shared' worker', Run (soloStep batch.searchWorker) (shared, worker) ms (shared', worker') ∧
        worker'.stop ≤ worker'.next := by
    intro left
    induction left with
    | zero => exact fun shared worker hleft _ _ => ⟨[], shared, worker, .nil _, by omega⟩
    | succ left ih =>
        intro shared worker hleft hsize hstop
        obtain ⟨result, after, -, hafter, heq⟩ :=
          searchWorker_eq hanswers shared hsize hstop (by omega)
        obtain ⟨ms, shared', worker', hrun, hend⟩ :=
          ih ⟨shared.slots.set worker.next (some result), shared.panicked⟩
            ⟨worker.next + 1, worker.stop, after⟩ (by dsimp only; omega) hafter hstop
        refine ⟨() :: ms, shared', worker', .cons ?_ hrun, hend⟩
        rw [soloStep, heq]
  obtain ⟨as, last, hrun, -, -, -, hend⟩ := Pool.run_all (p := pool) (C := fun _ => True)
    (E := fun worker => worker.stop ≤ worker.next) trivial fun shared _ worker hworker => by
      obtain ⟨hsize, hstop⟩ := h.workers worker hworker
      obtain ⟨ms, shared', worker', hrun, hend⟩ := hsolo _ shared worker rfl hsize hstop
      exact ⟨ms, shared', worker', hrun, trivial, hend⟩
  exact ⟨as, last, hrun, hend⟩

/-- Every step does a query. -/
theorem total_step_lt (hanswers : SearchAnswers batch numQueries results)
    (h : SlotsCovered batch numQueries results pool) {a : Nat × Unit}
    (hstep : Pool.step batch.searchWorker pool a = some next) :
    next.total (fun worker => worker.stop - worker.next) <
      pool.total (fun worker => worker.stop - worker.next) := by
  obtain ⟨worker, shared, worker', new, hget, hprog, rfl⟩ := Pool.step_eq_some.mp hstep
  obtain ⟨hsize, hstop⟩ := h.workers worker (List.mem_of_getElem? hget)
  have hlt := next_lt_of_searchWorker hprog
  obtain ⟨result, after, -, -, heq⟩ :=
    searchWorker_eq hanswers pool.shared hsize hstop hlt
  rw [heq] at hprog
  obtain ⟨rfl, rfl, rfl⟩ : _ ∧ _ ∧ _ := by simpa using hprog
  have htotal : ((pool.threads.set a.1 ⟨worker.next + 1, worker.stop, after⟩).map
      fun worker => worker.stop - worker.next).sum + _ = _ := Pool.sum_map_set hget
  rw [Pool.total, Pool.total, List.append_nil]
  dsimp only at htotal ⊢
  omega

end

/-! ## The chunks -/

section

variable {numQueries numThreads slotBytes size q : Nat}

theorem searchChunk_eq (hthreads : 0 < numThreads) (h : numQueries + numThreads ≤ 2 ^ 64) :
    searchChunk numQueries numThreads = (numQueries + numThreads - 1) / numThreads := by
  have hwrap : wrap (wrap (numQueries + numThreads) + (2 ^ 64 - 1)) = numQueries + numThreads - 1 := by
    rw [wrap, wrap]
    omega
  rw [searchChunk, hwrap]

/-- A sum that wraps is below the number of threads. -/
theorem searchChunk_eq_zero (hqueries : numQueries < 2 ^ 64) (hthreads : numThreads < 2 ^ 64)
    (h : 2 ^ 64 < numQueries + numThreads) : searchChunk numQueries numThreads = 0 := by
  have hwrap : wrap (wrap (numQueries + numThreads) + (2 ^ 64 - 1)) < numThreads := by
    rw [wrap, wrap]
    omega
  exact Nat.div_eq_of_lt hwrap

/-- Every query is in the chunk of some thread. -/
theorem exists_spawned (hthreads : 0 < numThreads) (h : numQueries + numThreads ≤ 2 ^ 64)
    (hq : q < numQueries) :
    ∃ worker ∈ (spawnedSearches size numQueries numThreads).threads,
      worker.next ≤ q ∧ q < worker.stop := by
  generalize hchunk : searchChunk numQueries numThreads = chunk
  have heq := hchunk.symm.trans (searchChunk_eq hthreads h)
  have hdiv := Nat.div_add_mod (numQueries + numThreads - 1) numThreads
  have hmod := Nat.mod_lt (numQueries + numThreads - 1) hthreads
  rw [← heq] at hdiv
  have hpos : 0 < chunk := by
    rcases Nat.eq_zero_or_pos chunk with hzero | hpos
    · rw [hzero, Nat.mul_zero] at hdiv
      omega
    · exact hpos
  have htid : q / chunk < numThreads := by
    apply Nat.div_lt_of_lt_mul
    rw [Nat.mul_comm]
    omega
  have hlow : q / chunk * chunk ≤ q := Nat.div_mul_le_self q chunk
  have hhigh : q < q / chunk * chunk + chunk := Nat.lt_div_mul_add hpos
  have hbound : (q / chunk + 1) * chunk ≤ numThreads * chunk := Nat.mul_le_mul_right _ htid
  rw [Nat.succ_mul] at hbound
  refine ⟨⟨q / chunk * chunk, min (q / chunk * chunk + chunk) numQueries, VisitTracker.new size⟩,
    List.mem_filterMap.mpr ⟨q / chunk, List.mem_range.mpr htid, ?_⟩, hlow, ?_⟩
  · have hlo : wrap (q / chunk * chunk) = q / chunk * chunk := wrap_of_lt (by omega)
    have hhi : wrap (q / chunk * chunk + chunk) = q / chunk * chunk + chunk := wrap_of_lt (by omega)
    rw [hchunk, spawnSearch, hlo, hhi, if_neg (by omega)]
  · dsimp only
    omega

theorem spawned_covered {batch : SearchBatch} {results : List (List UInt32)}
    (hthreads : 0 < numThreads) (h : numQueries + numThreads ≤ 2 ^ 64) :
    SlotsCovered batch numQueries results
      (spawnedSearches batch.graph.length numQueries numThreads) where
  calm := rfl
  length := List.length_replicate
  workers worker hworker := by
    obtain ⟨tid, -, hspawn⟩ := List.mem_filterMap.mp hworker
    rw [spawnSearch] at hspawn
    split_ifs at hspawn
    cases hspawn
    exact ⟨VisitTracker.new_length _, Nat.min_le_right _ _⟩
  slots q hq := .inr (exists_spawned hthreads h hq)

/-- With no queries in a chunk there are no threads, and no slot is filled. -/
theorem panics_of_wrap {batch : SearchBatch} (hqueries : numQueries < 2 ^ 64)
    (hthreads : numThreads < 2 ^ 64) (h : 2 ^ 64 < numQueries + numThreads)
    (hbytes : numQueries * slotBytes < 2 ^ 63) :
    ParallelSearch batch numQueries numThreads slotBytes
      (.error (.panic "called Option::unwrap() on a None value")) := by
  have hnone : (spawnedSearches batch.graph.length numQueries numThreads).threads = [] := by
    rw [spawnedSearches, searchChunk_eq_zero hqueries hthreads h, List.filterMap_eq_nil_iff]
    intro tid _
    rw [spawnSearch, Nat.mul_zero, wrap_of_lt (by decide), wrap_of_lt (by decide), if_pos (by omega)]
  have hjoined : joinedResults (spawnedSearches batch.graph.length numQueries numThreads).shared =
      .error (.panic "called Option::unwrap() on a None value") := by
    obtain ⟨count, rfl⟩ : ∃ count, numQueries = count + 1 := ⟨numQueries - 1, by omega⟩
    rw [joinedResults, spawnedSearches, if_neg Bool.false_ne_true, List.replicate_succ,
      List.mapM_cons]
    rfl
  rw [← hjoined]
  exact .joined hbytes (.nil _) (by simp [hnone])

end

/-- A search with a reused tracker finds what it finds with a new one, for every sequence of
queries. The parallel search returns the results of the sequential one, in every interleaving of
its threads, if and only if the sum of queries and threads does not wrap and the slots can be
allocated. -/
theorem parallelSearch_returns_iff (batch : SearchBatch) (numQueries numThreads slotBytes : Nat)
    (hthreads : 0 < numThreads) (hthreadsMax : numThreads < 2 ^ 64) (hqueries : numQueries < 2 ^ 64)
    (results : List (List UInt32))
    (hsequential : batch.sequentialSearch numQueries = .ok (some results)) :
    (∀ heaps fuel data graph (requests : List SearchRequest) (visited : VisitTracker),
      visited.marks.length = graph.length →
      searchReusing (searchRequest heaps fuel data graph) requests visited =
        searchFresh (searchRequest heaps fuel data graph) graph.length requests) ∧
    (ParallelReturns batch numQueries numThreads slotBytes results ↔
      numQueries + numThreads ≤ 2 ^ 64 ∧ numQueries * slotBytes < 2 ^ 63) := by
  refine ⟨fun heaps fuel data graph requests visited => searchReusing_eq_fresh
    (trackerBlind_searchRequest heaps fuel data graph graph.length) requests, ?_, ?_⟩
  · intro h
    have hbytes : numQueries * slotBytes < 2 ^ 63 := by
      by_contra hlarge
      cases (h.returns _).mp (.overflow (Nat.le_of_not_lt hlarge))
    refine ⟨?_, hbytes⟩
    by_contra hwrap
    cases (h.returns _).mp (panics_of_wrap hqueries hthreadsMax (Nat.lt_of_not_le hwrap) hbytes)
  · rintro ⟨hsum, hbytes⟩
    have hanswers := answers_of_sequential hsequential
    have hinit : SlotsCovered batch numQueries results _ := spawned_covered hthreads hsum
    have hstep : ∀ pool a next, SlotsCovered batch numQueries results pool →
        Pool.step batch.searchWorker pool a = some next →
        SlotsCovered batch numQueries results next := fun _ _ _ h => h.step hanswers
    refine ⟨fun outcome => ⟨?_, ?_⟩, ⟨Pool.total (fun worker => worker.stop - worker.next)
      (spawnedSearches batch.graph.length numQueries numThreads), fun as pool hrun => ?_⟩,
      fun as pool hrun => ?_⟩
    · rintro (hover | ⟨-, hrun, hdone⟩)
      · omega
      · exact (hrun.invariant hinit hstep).joined hanswers hdone
    · rintro rfl
      obtain ⟨as, last, hrun, hdone⟩ := hinit.ends hanswers
      have hlast := hrun.invariant hinit hstep
      rw [← hlast.joined hanswers hdone]
      exact .joined hbytes hrun hdone
    · have hle := hrun.length_add_le hstep (fun _ _ _ h => total_step_lt hanswers h) hinit
      exact Nat.le_of_add_right_le hle
    · exact (hrun.invariant hinit hstep).ends hanswers

/-- One point, and queries that start there. -/
def onePointBatch (numQueries : Nat) : SearchBatch where
  heaps := listHeaps
  fuel := 2
  queries := []
  data := pointsWithoutValues 1
  dim := 0
  graph := [[]]
  starts := List.replicate numQueries 0
  k := 1
  l := 1

theorem onePointBatch_searchQuery {numQueries q : Nat} (hq : q < numQueries)
    {visited : VisitTracker} (h : visited.marks.length = 1) :
    (onePointBatch numQueries).searchQuery q visited =
      .ok (some ([0], visited.reset.marked 0)) := by
  have hmark : visited.reset.mark 0 = .ok (visited.reset.marked 0) :=
    VisitTracker.mark_eq (by rw [VisitTracker.reset_length, h]; decide)
  have hrow : (pointsWithoutValues 1).row 0 = .ok ((pointsWithoutValues 1).values 0) :=
    MmapF32Data.row_eq (by decide)
  have hrange : indexRange ([] : List F32) (wrap (q * 0)) (wrap ((q + 1) * 0)) = .ok [] := rfl
  have hstart : (List.replicate numQueries (0 : UInt32))[q]? = some 0 := by simp [hq]
  have hzero : (0 : UInt32).toNat = 0 := rfl
  have hnearest : nearestIds 1 [(F32.zero, 0)] = [0] := by simp [nearestIds]
  rw [SearchBatch.searchQuery, onePointBatch]
  dsimp only
  rw [hrange, ok_bind, hstart]
  dsimp only
  rw [searchOne, hzero, hmark, ok_bind, hrow, ok_bind, if_neg (by decide), ← hnearest]
  rfl

theorem onePointBatch_sequential (numQueries : Nat) :
    (onePointBatch numQueries).sequentialSearch numQueries =
      .ok (some ((List.range numQueries).map fun _ => [0])) := by
  have hall : ∀ queries : List Nat, (∀ q ∈ queries, q < numQueries) →
      ∀ visited : VisitTracker, visited.marks.length = 1 →
        searchReusing (onePointBatch numQueries).searchQuery queries visited =
          .ok (some (queries.map fun _ => [0])) := by
    intro queries
    induction queries with
    | nil => exact fun _ _ _ => rfl
    | cons q queries ih =>
        intro hq visited h
        have hafter : (visited.reset.marked 0).marks.length = 1 := by
          rw [VisitTracker.marked_length, VisitTracker.reset_length, h]
        rw [searchReusing, onePointBatch_searchQuery (hq q List.mem_cons_self) h, ok_bind]
        dsimp only
        rw [ih (fun p hp => hq p (List.mem_cons_of_mem q hp)) _ hafter, ok_bind]
        rfl
  exact hall _ (fun q hq => List.mem_range.mp hq) _ (VisitTracker.new_length 1)

/-- Four queries, two with each tracker; and requests one after the other with one tracker. -/
theorem parallelSearch_returns_iff_two :
    (∀ requests : List SearchRequest,
      searchReusing (searchRequest listHeaps 2 (pointsWithoutValues 1) [[]]) requests
          (VisitTracker.new 1) =
        searchFresh (searchRequest listHeaps 2 (pointsWithoutValues 1) [[]]) 1 requests) ∧
    ParallelReturns (onePointBatch 4) 4 2 40 [[0], [0], [0], [0]] := by
  obtain ⟨hreusing, hreturns⟩ := parallelSearch_returns_iff (onePointBatch 4) 4 2 40 (by decide)
    (by decide) (by decide) [[0], [0], [0], [0]] (onePointBatch_sequential 4)
  exact ⟨fun requests => hreusing listHeaps 2 (pointsWithoutValues 1) [[]] requests
    (VisitTracker.new 1) (VisitTracker.new_length 1), hreturns.mpr ⟨by decide, by decide⟩⟩

/-- Two queries and 2^64 - 1 threads: no thread has a query to do, and the first slot is empty. -/
theorem parallelSearch_wraps :
    (onePointBatch 2).sequentialSearch 2 = .ok (some [[0], [0]]) ∧
      ParallelSearch (onePointBatch 2) 2 (2 ^ 64 - 1) 40
        (.error (.panic "called Option::unwrap() on a None value")) ∧
      ¬ ParallelReturns (onePointBatch 2) 2 (2 ^ 64 - 1) 40 [[0], [0]] := by
  have hpanic : ParallelSearch (onePointBatch 2) 2 (2 ^ 64 - 1) 40
      (.error (.panic "called Option::unwrap() on a None value")) :=
    panics_of_wrap (by decide) (by decide) (by decide) (by decide)
  refine ⟨onePointBatch_sequential 2, hpanic, fun h => ?_⟩
  cases (h.returns _).mp hpanic

end ForgeANN
