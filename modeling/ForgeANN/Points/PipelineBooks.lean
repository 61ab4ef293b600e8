-- SUMMARY: Where each batch of the point pipeline is, and the bytes of the permits that are out.
import ForgeANN.Lib.Ledger
import ForgeANN.Points.PipelineMoves

/-!
# Books of the point pipeline

A batch either waits for its permit, in a channel or with a worker, or has it,
with a worker, in the other channel or with the consumer. The budget counts the
bytes of the permits.
-/
namespace ForgeANN

open Lib

namespace PointPipeline

variable {κ ρ : Type} {call : Call} {reader : Reader κ ρ} {s t : State κ ρ} {a : Action}

/-! ## Where the batches are -/

def WorkerPc.waits : WorkerPc ρ → List Nat
  | .acquiring seq | .parked seq | .woken seq => [seq]
  | _ => []

def WorkerPc.holds : WorkerPc ρ → List Nat
  | .reading seq _ => [seq]
  | .sending result => readySeqs [result]
  | _ => []

/-- The batches that have no permit yet. -/
def State.waiting (call : Call) (s : State κ ρ) : List Nat :=
  List.range' s.nextJob (call.batchCount - s.nextJob) ++ (s.jobs ++ s.workers.flatMap WorkerPc.waits)

/-- The batches that have their permit. -/
def State.permits (s : State κ ρ) : List Nat :=
  s.workers.flatMap WorkerPc.holds ++ (readySeqs s.ready ++ s.pending.map Prod.fst)

@[simp] theorem readySeqs_nil : readySeqs [] = [] := rfl

theorem readySeqs_append (l l' : List (AnnResult (Nat × List F32))) :
    readySeqs (l ++ l') = readySeqs l ++ readySeqs l' := List.filterMap_append

@[simp] theorem readySeqs_ok (seq : Nat) (data : List F32)
    (ready : List (AnnResult (Nat × List F32))) :
    readySeqs (.ok (seq, data) :: ready) = seq :: readySeqs ready := rfl

@[simp] theorem readySeqs_error (err : AnnError) (ready : List (AnnResult (Nat × List F32))) :
    readySeqs (.error err :: ready) = readySeqs ready := rfl

theorem count_waiting (x : Nat) : (s.waiting call).count x =
    (List.range' s.nextJob (call.batchCount - s.nextJob)).count x +
      (s.jobs.count x + (s.workers.flatMap WorkerPc.waits).count x) := by
  rw [State.waiting, List.count_append, List.count_append]

theorem count_permits (x : Nat) : s.permits.count x = (s.workers.flatMap WorkerPc.holds).count x +
    ((readySeqs s.ready).count x + (s.pending.map Prod.fst).count x) := by
  rw [State.permits, List.count_append, List.count_append]

theorem mem_waiting (call : Call) {pc : WorkerPc ρ} {seq : Nat} (hpc : pc ∈ s.workers) (hseq : seq ∈ pc.waits) :
    seq ∈ s.waiting call :=
  List.mem_append_right _ (List.mem_append_right _ (List.mem_flatMap.mpr ⟨pc, hpc, hseq⟩))

/-- What a worker's change adds and takes away. -/
theorem count_workers (f : WorkerPc ρ → List Nat) {j : Nat} {pc : WorkerPc ρ} (pc' : WorkerPc ρ)
    (hj : s.workers[j]? = some pc) (x : Nat) :
    ((s.workers.set j pc').flatMap f).count x + (f pc).count x =
      (s.workers.flatMap f).count x + (f pc').count x := by
  have hperm : ((s.workers.set j pc').flatMap f ++ f pc).Perm (s.workers.flatMap f ++ f pc') :=
    Pool.flatMap_set_perm f hj
  have h := hperm.count_eq x
  rwa [List.count_append, List.count_append] at h

/-- Only the workers change. -/
theorem flatMap_workers_perm (f : WorkerPc ρ → List Nat) {j : Nat} {pc : WorkerPc ρ}
    (pc' : WorkerPc ρ) (hj : s.workers[j]? = some pc) (hf : f pc' = f pc) :
    (s.workers.flatMap f).Perm ((s.workers.set j pc').flatMap f) := by
  rw [List.perm_iff_count]
  intro x
  have hx := count_workers f pc' hj x
  rw [hf] at hx
  omega

/-! ## Giving bytes back -/

namespace Releases

variable {bytes : Nat}

theorem nextJob (h : Releases s bytes t) : t.nextJob = s.nextJob := by cases h <;> rfl
theorem jobs (h : Releases s bytes t) : t.jobs = s.jobs := by cases h <;> rfl
theorem ready (h : Releases s bytes t) : t.ready = s.ready := by cases h <;> rfl
theorem used (h : Releases s bytes t) : t.used = s.used - bytes := by cases h <;> rfl
theorem cache (h : Releases s bytes t) : t.cache = s.cache := by cases h <;> rfl
theorem pending (h : Releases s bytes t) : t.pending = s.pending := by cases h <;> rfl
theorem consumer (h : Releases s bytes t) : t.consumer = s.consumer := by cases h <;> rfl
theorem consumed (h : Releases s bytes t) : t.consumed = s.consumed := by cases h <;> rfl
theorem returned (h : Releases s bytes t) : t.returned = s.returned := by cases h <;> rfl

theorem length_workers (h : Releases s bytes t) : t.workers.length = s.workers.length := by
  cases h with
  | alone => rfl
  | wakes => exact List.length_set

/-- Woken or not, a worker keeps its batch. -/
theorem flatMap_workers (h : Releases s bytes t) {f : WorkerPc ρ → List Nat}
    (hf : ∀ seq, f (.woken seq) = f (.parked seq)) :
    (s.workers.flatMap f).Perm (t.workers.flatMap f) := by
  cases h with
  | alone => exact .refl _
  | wakes hj => exact flatMap_workers_perm f _ hj (hf _)

theorem waiting (h : Releases s bytes t) : (s.waiting call).Perm (t.waiting call) := by
  rw [State.waiting, State.waiting, h.nextJob, h.jobs]
  exact ((h.flatMap_workers fun _ => rfl).append_left _).append_left _

theorem permits (h : Releases s bytes t) : s.permits.Perm t.permits := by
  rw [State.permits, State.permits, h.ready, h.pending]
  exact (h.flatMap_workers fun _ => rfl).append_right _

end Releases

/-! ## What a step does to the books -/

theorem Move.length_workers (h : Move call reader s a t) : t.workers.length = s.workers.length := by
  cases h with
  | produce | finish | receive | receiveError | ended | dropped | join => rfl
  | take | stop | park | acquire | read | loaded | send => exact List.length_set
  | fault hj hrelease => exact hrelease.length_workers.trans List.length_set
  | consume hc hne htake hrelease => exact hrelease.length_workers
  | fails hc htake hrelease => exact hrelease.length_workers
  | drop hc hdrop hrelease => exact hrelease.length_workers

/-- Permits are acquired one by one and given back. -/
inductive Booked (call : Call) (s t : State κ ρ) : Prop
  | same (hwaiting : (s.waiting call).Perm (t.waiting call)) (hpermits : s.permits.Perm t.permits)
      (hused : t.used = s.used)
  | acquired {seq : Nat} (hwaiting : (s.waiting call).Perm (seq :: t.waiting call))
      (hpermits : t.permits.Perm (seq :: s.permits)) (hused : t.used = s.used + call.bytes seq)
      (hfits : t.used ≤ call.capacity)
  | released (gone : List Nat) (hwaiting : (s.waiting call).Perm (t.waiting call))
      (hpermits : s.permits.Perm (gone ++ t.permits))
      (hused : t.used = s.used - weigh call.bytes gone)

/-- A worker goes on with its batch, or without one. -/
theorem booked_setWorker {j : Nat} {pc pc' : WorkerPc ρ} {cache : κ} (hj : s.workers[j]? = some pc)
    (hwaits : pc'.waits = pc.waits) (hholds : pc'.holds = pc.holds) :
    Booked call s ({ s with cache }.setWorker j pc') :=
  .same (((flatMap_workers_perm WorkerPc.waits pc' hj hwaits).append_left _).append_left _)
    ((flatMap_workers_perm WorkerPc.holds pc' hj hholds).append_right _) rfl

/-- A permit is given back. -/
theorem Releases.booked {u : State κ ρ} {seq : Nat} (h : Releases u (call.bytes seq) t)
    (hwaiting : (s.waiting call).Perm (u.waiting call))
    (hpermits : s.permits.Perm (seq :: u.permits)) (hused : u.used = s.used) :
    Booked call s t := by
  refine .released [seq] (hwaiting.trans h.waiting) ?_ ?_
  · exact hpermits.trans (h.permits.cons seq)
  · rw [h.used, hused, weigh_cons, weigh_nil, Nat.add_zero]

/-- A batch leaves the consumer's map. -/
theorem permits_pending {u : State κ ρ} {seq : Nat} {data : List F32}
    (h : s.pending.Perm ((seq, data) :: u.pending)) (hworkers : u.workers = s.workers)
    (hready : u.ready = s.ready) : s.permits.Perm (seq :: u.permits) := by
  rw [List.perm_iff_count]
  intro x
  have hx := (h.map Prod.fst).count_eq x
  simp only [List.map_cons, List.count_cons] at hx
  rw [List.count_cons, count_permits, count_permits, hworkers, hready]
  omega

theorem WorkerPc.asks_eq {pc : WorkerPc ρ} {seq : Nat} (h : pc.asks = some seq) :
    pc.waits = [seq] ∧ pc.holds = [] := by
  cases pc with
  | acquiring other | woken other =>
      cases h
      exact ⟨rfl, rfl⟩
  | receiving | parked | reading | sending | stopped => cases h

theorem pending_nodup (h : s.permits.Nodup) : (s.pending.map Prod.fst).Nodup :=
  (List.nodup_append.mp (List.nodup_append.mp h).2.1).2.1

theorem booked_produce (hseq : s.nextJob < call.batchCount) :
    Booked call s { s with jobs := s.jobs ++ [s.nextJob], nextJob := s.nextJob + 1 } := by
  refine .same ?_ (.refl _) rfl
  rw [List.perm_iff_count]
  intro x
  have hcount : call.batchCount - s.nextJob = call.batchCount - (s.nextJob + 1) + 1 := by omega
  rw [count_waiting, count_waiting, hcount, List.range'_succ, List.count_cons]
  simp only [List.count_append, List.count_cons, List.count_nil]
  omega

theorem booked_take {j seq : Nat} {jobs : List Nat} (hj : s.workers[j]? = some .receiving)
    (hjobs : s.jobs = seq :: jobs) :
    Booked call s ({ s with jobs }.setWorker j (.acquiring seq)) := by
  refine .same ?_
    ((flatMap_workers_perm WorkerPc.holds (.acquiring seq) hj rfl).append_right _) rfl
  rw [List.perm_iff_count]
  intro x
  have hx := count_workers WorkerPc.waits (.acquiring seq) hj x
  rw [count_waiting, count_waiting, hjobs, List.count_cons]
  simp only [WorkerPc.waits, List.count_cons, List.count_nil] at hx
  simp only [State.setWorker]
  omega

theorem booked_acquire {j seq : Nat} {pc : WorkerPc ρ} {r : ρ} (hj : s.workers[j]? = some pc)
    (hpc : pc.asks = some seq) (hfits : s.used + call.bytes seq ≤ call.capacity) :
    Booked call s ({ s with used := s.used + call.bytes seq }.setWorker j (.reading seq r)) := by
  obtain ⟨hwaits, hholds⟩ := WorkerPc.asks_eq hpc
  refine .acquired ?_ ?_ rfl hfits
  · rw [List.perm_iff_count]
    intro x
    have hx := count_workers WorkerPc.waits (.reading seq r) hj x
    rw [hwaits] at hx
    rw [List.count_cons, count_waiting, count_waiting]
    simp only [WorkerPc.waits, List.count_cons, List.count_nil] at hx
    simp only [State.setWorker]
    omega
  · rw [List.perm_iff_count]
    intro x
    have hx := count_workers WorkerPc.holds (.reading seq r) hj x
    rw [hholds] at hx
    rw [List.count_cons, count_permits, count_permits]
    simp only [WorkerPc.holds, List.count_cons, List.count_nil] at hx
    simp only [State.setWorker]
    omega

theorem booked_send {j : Nat} {result : AnnResult (Nat × List F32)}
    (hj : s.workers[j]? = some (.sending result)) :
    Booked call s ({ s with ready := s.ready ++ [result] }.setWorker j .receiving) := by
  refine .same ?_ ?_ rfl
  · exact ((flatMap_workers_perm WorkerPc.waits .receiving hj rfl).append_left _).append_left _
  · rw [List.perm_iff_count]
    intro x
    have hx := count_workers WorkerPc.holds .receiving hj x
    rw [count_permits, count_permits]
    simp only [WorkerPc.holds, List.count_nil] at hx
    simp only [State.setWorker, readySeqs_append, List.count_append]
    omega

theorem booked_receive {seq : Nat} {data : List F32} {ready : List (AnnResult (Nat × List F32))}
    (hnodup : s.permits.Nodup) (hready : s.ready = .ok (seq, data) :: ready) :
    Booked call s { s with ready, pending := s.pending.put seq data } := by
  refine .same (.refl _) ?_ rfl
  have hnew : seq ∉ s.pending.map Prod.fst := by
    intro hmem
    rw [State.permits, hready, readySeqs_ok] at hnodup
    have hboth := (List.nodup_append.mp hnodup).2.1
    exact (List.nodup_append.mp hboth).2.2 seq List.mem_cons_self seq hmem rfl
  rw [List.perm_iff_count]
  intro x
  rw [count_permits, count_permits, hready, readySeqs_ok, Pending.put_of_not_mem hnew]
  simp only [List.map_cons, List.count_cons]
  omega

/-- A step books a permit, gives permits back, or leaves them where they are. -/
theorem booked_of_move (hnodup : s.permits.Nodup) (h : Move call reader s a t) :
    Booked call s t := by
  have hpending := pending_nodup hnodup
  cases h with
  | produce hseq hroom => exact booked_produce hseq
  | take hj hjobs => exact booked_take hj hjobs
  | stop hj hjobs hend => exact booked_setWorker hj rfl rfl
  | park hj hpc hfull =>
      obtain ⟨hwaits, hholds⟩ := WorkerPc.asks_eq hpc
      exact booked_setWorker hj hwaits.symm hholds.symm
  | acquire hj hpc hfits => exact booked_acquire hj hpc hfits
  | read hj hread => exact booked_setWorker hj rfl rfl
  | loaded hj hread => exact booked_setWorker hj rfl rfl
  | send hj hroom => exact booked_send hj
  | @fault j seq r err wake t hj hrelease =>
      have hwaits := flatMap_workers_perm WorkerPc.waits (.sending (.error err)) hj rfl
      refine hrelease.booked ((hwaits.append_left _).append_left _) ?_ rfl
      rw [List.perm_iff_count]
      intro x
      have hx := count_workers WorkerPc.holds (.sending (.error err)) hj x
      rw [List.count_cons, count_permits, count_permits]
      simp only [WorkerPc.holds, readySeqs_error, readySeqs_nil, List.count_cons, List.count_nil] at hx
      simp only [State.setWorker]
      omega
  | finish hc => exact .same (.refl _) (.refl _) rfl
  | consume hc hne htake hrelease =>
      have hperm := Pending.take?_perm hpending htake
      exact hrelease.booked (.refl _) (permits_pending hperm rfl rfl) rfl
  | receive hc hne htake hready => exact booked_receive hnodup hready
  | receiveError hc htake hready =>
      refine .same (.refl _) (.of_eq ?_) rfl
      rw [State.permits, hready]
      rfl
  | ended hc hne htake hready hall => exact .same (.refl _) (.refl _) rfl
  | fails hc htake hrelease =>
      have hperm := Pending.take?_perm hpending htake
      exact hrelease.booked (.refl _) (permits_pending hperm rfl rfl) rfl
  | drop hc hdrop hrelease =>
      exact hrelease.booked (.refl _) (permits_pending (.of_eq hdrop) rfl rfl) rfl
  | dropped hc hdropped => exact .same (.refl _) (.refl _) rfl
  | join hc hreturned hall hend =>
      refine .released (readySeqs s.ready) (.refl _) ?_ rfl
      rw [List.perm_iff_count]
      intro x
      rw [List.count_append, count_permits, count_permits]
      simp only [readySeqs_nil, List.count_nil]
      omega

/-! ## The invariant -/

/-- Every batch is in one place, and the budget counts the permits. -/
structure Books (call : Call) (s : State κ ρ) : Prop where
  nodup : (s.waiting call ++ s.permits).Nodup
  below : ∀ seq ∈ s.waiting call ++ s.permits, seq < call.batchCount
  used : s.used = weigh call.bytes s.permits
  fits : s.used ≤ call.capacity

namespace Books

theorem initial (cache : κ) : Books call (PointPipeline.initial (ρ := ρ) call cache) := by
  have hwaits : (List.replicate call.ioThreads (WorkerPc.receiving (ρ := ρ))).flatMap
      WorkerPc.waits = [] := by
    rw [List.flatMap_eq_nil_iff]
    intro pc hpc
    rw [List.eq_of_mem_replicate hpc]
    rfl
  have hholds : (List.replicate call.ioThreads (WorkerPc.receiving (ρ := ρ))).flatMap
      WorkerPc.holds = [] := by
    rw [List.flatMap_eq_nil_iff]
    intro pc hpc
    rw [List.eq_of_mem_replicate hpc]
    rfl
  have hall : (PointPipeline.initial (ρ := ρ) call cache).waiting call ++
      (PointPipeline.initial (ρ := ρ) call cache).permits = List.range call.batchCount := by
    rw [State.waiting, State.permits, PointPipeline.initial, hwaits, hholds]
    simp [List.range_eq_range']
  constructor
  · rw [hall]
    exact List.nodup_range
  · intro seq hseq
    rw [hall] at hseq
    exact List.mem_range.mp hseq
  · rw [State.permits, PointPipeline.initial, hholds]
    rfl
  · exact Nat.zero_le _

theorem of_booked (h : Books call s) (hbooked : Booked call s t) : Books call t := by
  cases hbooked with
  | same hwaiting hpermits hused =>
      have hall := hwaiting.append hpermits
      refine ⟨hall.nodup_iff.mp h.nodup, fun seq hseq => h.below seq (hall.mem_iff.mpr hseq), ?_, ?_⟩
      · rw [hused, h.used, weigh_perm hpermits]
      · rw [hused]
        exact h.fits
  | acquired hwaiting hpermits hused hfits =>
      have hall : (s.waiting call ++ s.permits).Perm (t.waiting call ++ t.permits) := by
        refine (hwaiting.append_right _).trans ?_
        exact (List.perm_middle.symm).trans (hpermits.symm.append_left _)
      refine ⟨hall.nodup_iff.mp h.nodup, fun seq hseq => h.below seq (hall.mem_iff.mpr hseq), ?_, hfits⟩
      rw [hused, h.used, weigh_perm hpermits, weigh_cons, Nat.add_comm]
  | released gone hwaiting hpermits hused =>
      have hall : (s.waiting call ++ s.permits).Perm (gone ++ (t.waiting call ++ t.permits)) := by
        refine (hwaiting.append hpermits).trans ?_
        rw [← List.append_assoc, ← List.append_assoc]
        exact List.perm_append_comm.append_right _
      refine ⟨?_, fun seq hseq => ?_, ?_, ?_⟩
      · exact (List.nodup_append.mp (hall.nodup_iff.mp h.nodup)).2.1
      · exact h.below seq (hall.mem_iff.mpr (List.mem_append_right _ hseq))
      · rw [hused, h.used, weigh_perm hpermits, weigh_append, Nat.add_sub_cancel_left]
      · rw [hused]
        exact Nat.le_trans (Nat.sub_le ..) h.fits

theorem permits_nodup (h : Books call s) : s.permits.Nodup := (List.nodup_append.mp h.nodup).2.1

theorem waiting_nodup (h : Books call s) : (s.waiting call).Nodup := (List.nodup_append.mp h.nodup).1

/-- A batch that waits for its permit has none. -/
theorem first_not_mem (h : Books call s) {pc : WorkerPc ρ} {seq : Nat} (hpc : pc ∈ s.workers)
    (hseq : seq ∈ pc.waits) : seq ∉ s.permits :=
  fun hmem => (List.nodup_append.mp h.nodup).2.2 seq (mem_waiting call hpc hseq) seq hmem rfl

theorem step {call : Call} {reader : Reader κ ρ} (h : Books call s)
    (hs : PointPipeline.step call reader s a = some t) : Books call t :=
  h.of_booked (booked_of_move h.permits_nodup (move_of_step hs))

theorem of_reaches {cache : κ} (h : Reaches (PointPipeline.step call reader)
    (PointPipeline.initial call cache) s) : Books call s :=
  h.invariant (initial cache) fun _ _ _ hbooks hs => hbooks.step hs

end Books

end PointPipeline

end ForgeANN
