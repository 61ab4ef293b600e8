-- SUMMARY: What a step of the point pipeline does, and what a batch asks of the budget.
import ForgeANN.Lib.Pool
import ForgeANN.Points.Pipeline
import Mathlib.Tactic.Linarith

/-!
# Moves of the point pipeline

A batch asks for at most its worker's share of the budget, and all but the last
ask for the same. A step moves one thread; it may give bytes back, and then one
of the workers that wait is woken.
-/
namespace ForgeANN

open Lib

namespace PointPipeline

/-! ## What a batch asks for -/

namespace Call

variable (call : Call)

/-- What a full batch asks for. -/
def fullBytes : Nat := max (call.effectiveBatchPoints * call.dim * 4) 1

theorem rowBytes_pos : 0 < call.rowBytes := Nat.lt_of_lt_of_le Nat.one_pos (Nat.le_max_right ..)

theorem ioThreads_pos : 0 < call.ioThreads := Nat.lt_of_lt_of_le Nat.one_pos (Nat.le_max_right ..)

theorem effectiveBatchPoints_pos : 0 < call.effectiveBatchPoints :=
  Nat.lt_min.mpr ⟨Nat.lt_of_lt_of_le Nat.one_pos (Nat.le_max_right ..),
    Nat.lt_of_lt_of_le Nat.one_pos (Nat.le_max_right ..)⟩

theorem bytes_pos (seq : Nat) : 0 < call.bytes seq :=
  Nat.lt_of_lt_of_le Nat.one_pos (Nat.le_max_right ..)

theorem fullBytes_pos : 0 < call.fullBytes := Nat.lt_of_lt_of_le Nat.one_pos (Nat.le_max_right ..)

theorem chunk_length_le (seq : Nat) : (call.chunk seq).length ≤ call.effectiveBatchPoints := by
  rw [chunk]
  cases hchunk : call.chunkIds[seq]? with
  | none => exact Nat.zero_le _
  | some part => exact (mem_chunks (List.mem_of_getElem? hchunk)).2

theorem bytes_le (seq : Nat) : call.bytes seq ≤ call.fullBytes := by
  have h := Nat.mul_le_mul_right (call.dim * 4) (call.chunk_length_le seq)
  rw [← Nat.mul_assoc, ← Nat.mul_assoc] at h
  rw [bytes, fullBytes]
  omega

/-- All batches but the last are full. -/
theorem bytes_eq {seq : Nat} (h : seq + 1 < call.batchCount) : call.bytes seq = call.fullBytes := by
  have hseq : seq < call.chunkIds.length := Nat.lt_of_succ_lt h
  have hget : call.chunkIds[seq]? = some call.chunkIds[seq] := List.getElem?_eq_getElem hseq
  rw [bytes, fullBytes, chunk, hget, Option.getD_some, length_of_chunks hget h]

/-- The budget has a full batch for each worker. -/
theorem fullBytes_mul_le : call.fullBytes * call.ioThreads ≤ call.capacity := by
  have hrow := call.rowBytes_pos
  have hthreads := call.ioThreads_pos
  have hbudget : call.rowBytes * call.ioThreads ≤ call.budgetBytes := Nat.le_max_right ..
  have hshare : 1 ≤ call.budgetBytes / call.rowBytes / call.ioThreads := by
    rw [Nat.div_div_eq_div_mul]
    exact (Nat.one_le_div_iff (Nat.mul_pos hrow hthreads)).mpr hbudget
  have hpoints : call.effectiveBatchPoints ≤ call.budgetBytes / call.rowBytes / call.ioThreads := by
    refine Nat.le_trans (Nat.min_le_right ..) ?_
    rw [maxPointsByBudget, Nat.max_eq_left hshare]
  have hfull : call.fullBytes ≤ call.effectiveBatchPoints * call.rowBytes := by
    have hdim : call.dim * 4 ≤ call.rowBytes := Nat.le_max_left ..
    have hmul := Nat.mul_le_mul_left call.effectiveBatchPoints hdim
    have hone := Nat.mul_le_mul call.effectiveBatchPoints_pos hrow
    rw [← Nat.mul_assoc] at hmul
    rw [fullBytes]
    omega
  calc call.fullBytes * call.ioThreads
      ≤ call.effectiveBatchPoints * call.rowBytes * call.ioThreads := Nat.mul_le_mul_right _ hfull
    _ = call.effectiveBatchPoints * call.ioThreads * call.rowBytes := Nat.mul_right_comm ..
    _ ≤ call.budgetBytes / call.rowBytes / call.ioThreads * call.ioThreads * call.rowBytes :=
        Nat.mul_le_mul_right _ (Nat.mul_le_mul_right _ hpoints)
    _ ≤ call.budgetBytes / call.rowBytes * call.rowBytes :=
        Nat.mul_le_mul_right _ (Nat.div_mul_le_self ..)
    _ ≤ call.budgetBytes := Nat.div_mul_le_self ..
    _ ≤ call.capacity := Nat.le_max_left ..

theorem bytes_le_capacity (seq : Nat) : call.bytes seq ≤ call.capacity :=
  calc call.bytes seq ≤ call.fullBytes := call.bytes_le seq
    _ ≤ call.fullBytes * call.ioThreads := Nat.le_mul_of_pos_right _ call.ioThreads_pos
    _ ≤ call.capacity := call.fullBytes_mul_le

end Call

/-! ## Moves -/

variable {κ ρ : Type}

/-- What giving bytes back does. -/
inductive Releases (s : State κ ρ) (bytes : Nat) : State κ ρ → Prop
  | alone (h : ∀ seq, .parked seq ∉ s.workers) : Releases s bytes { s with used := s.used - bytes }
  | wakes {j seq : Nat} (hj : s.workers[j]? = some (.parked seq)) :
      Releases s bytes ({ s with used := s.used - bytes }.setWorker j (.woken seq))

/-- The batch a worker is about to ask the budget for. -/
def WorkerPc.asks : WorkerPc ρ → Option Nat
  | .acquiring seq | .woken seq => some seq
  | _ => none

/-- What a step can do. -/
inductive Move (call : Call) (reader : Reader κ ρ) (s : State κ ρ) : Action → State κ ρ → Prop
  | produce (hseq : s.nextJob < call.batchCount) (hroom : s.jobs.length < call.queueDepth) :
      Move call reader s .produce
        { s with jobs := s.jobs ++ [s.nextJob], nextJob := s.nextJob + 1 }
  | take {j seq : Nat} {jobs : List Nat} (hj : s.workers[j]? = some .receiving)
      (hjobs : s.jobs = seq :: jobs) :
      Move call reader s (.worker j) ({ s with jobs }.setWorker j (.acquiring seq))
  | stop {j : Nat} (hj : s.workers[j]? = some .receiving) (hjobs : s.jobs = [])
      (hend : call.batchCount ≤ s.nextJob) : Move call reader s (.worker j) (s.setWorker j .stopped)
  | park {j seq : Nat} {pc : WorkerPc ρ} (hj : s.workers[j]? = some pc) (hpc : pc.asks = some seq)
      (hfull : call.capacity < s.used + call.bytes seq) :
      Move call reader s (.worker j) (s.setWorker j (.parked seq))
  | acquire {j seq : Nat} {pc : WorkerPc ρ} (hj : s.workers[j]? = some pc)
      (hpc : pc.asks = some seq) (hfits : s.used + call.bytes seq ≤ call.capacity) :
      Move call reader s (.worker j) ({ s with used := s.used + call.bytes seq }.setWorker j
        (.reading seq (reader.start (call.chunk seq))))
  | read {j seq : Nat} {r r' : ρ} {cache : κ} (hj : s.workers[j]? = some (.reading seq r))
      (hread : reader.step s.cache r = (cache, .inl r')) :
      Move call reader s (.worker j) ({ s with cache }.setWorker j (.reading seq r'))
  | loaded {j seq : Nat} {r : ρ} {cache : κ} {data : List F32}
      (hj : s.workers[j]? = some (.reading seq r))
      (hread : reader.step s.cache r = (cache, .inr data)) :
      Move call reader s (.worker j) ({ s with cache }.setWorker j (.sending (.ok (seq, data))))
  | send {j : Nat} {result : AnnResult (Nat × List F32)}
      (hj : s.workers[j]? = some (.sending result)) (hroom : s.ready.length < call.queueDepth) :
      Move call reader s (.worker j)
        ({ s with ready := s.ready ++ [result] }.setWorker j .receiving)
  | fault {j seq : Nat} {r : ρ} {err : AnnError} {wake : Option Nat} {t : State κ ρ}
      (hj : s.workers[j]? = some (.reading seq r))
      (hrelease : Releases (s.setWorker j (.sending (.error err))) (call.bytes seq) t) :
      Move call reader s (.fault j err wake) t
  | finish {wake : Option Nat} (hc : s.consumer = .receiving call.batchCount) :
      Move call reader s (.consumer wake) { s with consumer := .finished (.ok ()) }
  | consume {expected : Nat} {data : List F32} {pending : Pending (List F32)} {wake : Option Nat}
      {t : State κ ρ}
      (hc : s.consumer = .receiving expected) (hne : expected ≠ call.batchCount)
      (htake : s.pending.take? expected = some (data, pending))
      (hrelease : Releases { s with
        pending
        consumed := s.consumed ++ [data]
        consumer := .receiving (expected + 1) } (call.bytes expected) t) :
      Move call reader s (.consumer wake) t
  | receive {expected seq : Nat} {data : List F32} {ready : List (AnnResult (Nat × List F32))}
      {wake : Option Nat} (hc : s.consumer = .receiving expected) (hne : expected ≠ call.batchCount)
      (htake : s.pending.take? expected = none) (hready : s.ready = .ok (seq, data) :: ready) :
      Move call reader s (.consumer wake) { s with ready, pending := s.pending.put seq data }
  | receiveError {expected : Nat} {err : AnnError} {ready : List (AnnResult (Nat × List F32))}
      {wake : Option Nat} (hc : s.consumer = .receiving expected)
      (htake : s.pending.take? expected = none) (hready : s.ready = .error err :: ready) :
      Move call reader s (.consumer wake) { s with ready, consumer := .dropping err }
  | ended {expected : Nat} {wake : Option Nat} (hc : s.consumer = .receiving expected)
      (hne : expected ≠ call.batchCount) (htake : s.pending.take? expected = none)
      (hready : s.ready = []) (hall : ∀ pc ∈ s.workers, pc.isStopped = true) :
      Move call reader s (.consumer wake) { s with consumer := .dropping workersEnded }
  | fails {expected : Nat} {err : AnnError} {data : List F32} {pending : Pending (List F32)}
      {wake : Option Nat} {t : State κ ρ} (hc : s.consumer = .receiving expected)
      (htake : s.pending.take? expected = some (data, pending))
      (hrelease : Releases { s with pending, consumer := .dropping err } (call.bytes expected) t) :
      Move call reader s (.consumeFails err wake) t
  | drop {err : AnnError} {seq : Nat} {data : List F32} {pending : Pending (List F32)}
      {wake : Option Nat} {t : State κ ρ} (hc : s.consumer = .dropping err)
      (hpending : s.pending = (seq, data) :: pending)
      (hrelease : Releases { s with pending } (call.bytes seq) t) :
      Move call reader s (.consumer wake) t
  | dropped {err : AnnError} {wake : Option Nat} (hc : s.consumer = .dropping err)
      (hpending : s.pending = []) :
      Move call reader s (.consumer wake) { s with consumer := .finished (.error err) }
  | join {result : AnnResult Unit} (hc : s.consumer = .finished result) (hreturned : s.returned = none)
      (hall : ∀ pc ∈ s.workers, pc.isStopped = true) (hend : call.batchCount ≤ s.nextJob) :
      Move call reader s .join { s with
        ready := []
        used := s.used - ((readySeqs s.ready).map call.bytes).sum
        returned := some result }

variable {call : Call} {reader : Reader κ ρ} {s t : State κ ρ} {a : Action}

theorem WorkerPc.not_parked_of_any {workers : List (WorkerPc ρ)}
    (h : ¬ workers.any WorkerPc.isParked) (seq : Nat) : .parked seq ∉ workers :=
  fun hmem => h (List.any_eq_true.mpr ⟨.parked seq, hmem, rfl⟩)

theorem releases_of_release {bytes : Nat} {wake : Option Nat}
    (h : s.release bytes wake = some t) : Releases s bytes t := by
  cases wake with
  | some j =>
      simp only [State.release] at h
      split at h
      · rename_i seq hj
        cases h
        exact .wakes hj
      · cases h
  | none =>
      simp only [State.release] at h
      split_ifs at h with hany
      cases h
      exact .alone (WorkerPc.not_parked_of_any hany)

/-- Bytes can always be given back. -/
theorem exists_release (s : State κ ρ) (bytes : Nat) :
    ∃ wake t, s.release bytes wake = some t := by
  by_cases hany : s.workers.any WorkerPc.isParked
  · obtain ⟨pc, hmem, hparked⟩ := List.any_eq_true.mp hany
    obtain ⟨j, hj⟩ := List.mem_iff_getElem?.mp hmem
    cases pc with
    | parked seq =>
        refine ⟨some j, { s with used := s.used - bytes }.setWorker j (.woken seq), ?_⟩
        simp only [State.release, hj]
    | receiving | acquiring | woken | reading | sending | stopped => cases hparked
  · refine ⟨none, { s with used := s.used - bytes }, ?_⟩
    simp only [State.release, if_neg hany]

theorem move_acquire {j seq : Nat} {pc : WorkerPc ρ} (hj : s.workers[j]? = some pc)
    (hpc : pc.asks = some seq) :
    Move call reader s (.worker j) (s.acquire call reader j seq) := by
  rw [State.acquire]
  split_ifs with hfull
  · exact .park hj hpc hfull
  · exact .acquire hj hpc (Nat.le_of_not_lt hfull)

theorem move_workerStep {j : Nat} (hs : workerStep call reader s j = some t) :
    Move call reader s (.worker j) t := by
  rw [workerStep] at hs
  split at hs
  · rename_i hj
    split at hs
    · rename_i seq jobs hjobs
      cases hs
      exact .take hj hjobs
    · rename_i hjobs
      split_ifs at hs with hend
      cases hs
      exact .stop hj hjobs (Nat.le_of_not_lt hend)
  · rename_i seq hj
    rw [if_neg (Nat.not_lt.mpr (call.bytes_le_capacity seq))] at hs
    cases hs
    exact move_acquire hj rfl
  · rename_i seq hj
    cases hs
    exact move_acquire hj rfl
  · rename_i seq r hj
    split at hs
    · rename_i cache r' hread
      cases hs
      exact .read hj hread
    · rename_i cache data hread
      cases hs
      exact .loaded hj hread
  · rename_i result hj
    split_ifs at hs with hroom
    cases hs
    exact .send hj hroom
  · cases hs

theorem move_consumerStep {wake : Option Nat} (hs : consumerStep call s wake = some t) :
    Move call reader s (.consumer wake) t := by
  rw [consumerStep] at hs
  split at hs
  · rename_i expected hc
    by_cases hend : expected = call.batchCount
    · rw [if_pos hend] at hs
      cases hs
      exact .finish (hend ▸ hc)
    · rw [if_neg hend] at hs
      split at hs
      · rename_i data pending htake
        exact .consume hc hend htake (releases_of_release hs)
      · rename_i htake
        split at hs
        · rename_i seq data ready hready
          cases hs
          exact .receive hc hend htake hready
        · rename_i err ready hready
          cases hs
          exact .receiveError hc htake hready
        · rename_i hready
          split_ifs at hs with hall
          cases hs
          exact .ended hc hend htake hready (List.all_eq_true.mp hall)
  · rename_i err hc
    split at hs
    · rename_i seq data pending hpending
      exact .drop hc hpending (releases_of_release hs)
    · rename_i hpending
      cases hs
      exact .dropped hc hpending
  · cases hs

theorem move_of_step (hs : step call reader s a = some t) : Move call reader s a t := by
  cases a with
  | produce =>
      simp only [step] at hs
      split_ifs at hs with hready
      cases hs
      exact .produce hready.1 hready.2
  | worker j => exact move_workerStep hs
  | fault j err wake =>
      simp only [step, faultStep] at hs
      split at hs
      · rename_i seq r hj
        exact .fault hj (releases_of_release hs)
      · cases hs
  | consumer wake => exact move_consumerStep hs
  | consumeFails err wake =>
      simp only [step, consumeFailsStep] at hs
      split at hs
      · rename_i expected hc
        split at hs
        · rename_i data pending htake
          exact .fails hc htake (releases_of_release hs)
        · cases hs
      · cases hs
  | join =>
      simp only [step, joinStep] at hs
      split at hs
      · rename_i result hc hreturned
        split_ifs at hs with hready
        cases hs
        exact .join hc hreturned (List.all_eq_true.mp hready.1) hready.2
      · cases hs

end PointPipeline

end ForgeANN
