-- SUMMARY: When the workers of the point pipeline can take the whole budget ahead of the batch the consumer waits for.
import ForgeANN.Points.PipelineBooks

/-!
# Starving in the point pipeline

A worker that has its batch but not its permit can be overtaken: the others read
ahead, and what they read waits with its permits until the batch is consumed.
With one worker there is no overtaking; and where the budget has the bytes of
all batches there is nothing to wait for.
-/
namespace ForgeANN

open Lib

namespace PointPipeline

variable {κ ρ : Type} {call : Call} {reader : Reader κ ρ} {s t u : State κ ρ} {a : Action}

/-- The consumer waits for a batch whose worker waits for budget, and all that is out is held by
later batches. -/
def Starved (call : Call) (s : State κ ρ) : Prop :=
  ∃ seq, s.consumer = .receiving seq ∧ s.pending.take? seq = none ∧ .parked seq ∈ s.workers ∧
    call.capacity < s.used + call.bytes seq ∧ ∀ other ∈ s.permits, seq < other

def Call.totalBytes (call : Call) : Nat := weigh call.bytes (List.range call.batchCount)

/-! ## Enough budget for all -/

theorem Books.weigh_le (h : Books call s) :
    weigh call.bytes (s.waiting call) + weigh call.bytes s.permits ≤ call.totalBytes := by
  rw [← weigh_append, Call.totalBytes]
  apply Lib.weigh_le
  intro seq
  by_cases hmem : seq ∈ s.waiting call ++ s.permits
  · rw [List.count_eq_one_of_mem h.nodup hmem,
      List.count_eq_one_of_mem List.nodup_range (List.mem_range.mpr (h.below seq hmem))]
  · rw [List.count_eq_zero_of_not_mem hmem]
    exact Nat.zero_le _

theorem not_starved_of_total (h : Books call s) (htotal : call.totalBytes ≤ call.capacity) :
    ¬ Starved call s := by
  rintro ⟨seq, -, -, hparked, hfull, -⟩
  have hle := h.weigh_le
  have hbytes : call.bytes seq ≤ weigh call.bytes (s.waiting call) :=
    le_weigh_of_mem call.bytes (mem_waiting call hparked List.mem_cons_self)
  have hused := h.used
  omega

/-! ## One worker -/

/-- The batches without a permit, the first one first. -/
def State.line (call : Call) (s : State κ ρ) : List Nat :=
  s.workers.flatMap WorkerPc.waits ++
    (s.jobs ++ List.range' s.nextJob (call.batchCount - s.nextJob))

/-- The only worker takes the batches as they come. -/
structure InLine (call : Call) (s : State κ ρ) : Prop where
  one : s.workers.length = 1
  sorted : (s.line call).Pairwise (· < ·)
  behind : ∀ seq ∈ s.permits, ∀ next ∈ s.line call, seq < next

theorem eq_singleton {l : List (WorkerPc ρ)} {j : Nat} {pc : WorkerPc ρ} (hone : l.length = 1)
    (hj : l[j]? = some pc) : l = [pc] ∧ ∀ pc', l.set j pc' = [pc'] := by
  obtain ⟨only, rfl⟩ := List.length_eq_one_iff.mp hone
  cases j with
  | zero =>
      cases hj
      exact ⟨rfl, fun pc' => rfl⟩
  | succ j => cases hj

theorem Releases.line (h : Releases s bytes t) (hone : s.workers.length = 1) :
    t.line call = s.line call := by
  cases h with
  | alone => rfl
  | wakes hj =>
      obtain ⟨hworkers, hset⟩ := eq_singleton hone hj
      rw [State.line, State.line, State.setWorker, hset, hworkers]
      rfl

/-- Only a permit that is acquired changes the line: it was first. -/
theorem Move.line (h : Move call reader s a t) (hone : s.workers.length = 1) :
    t.line call = s.line call ∨
      ∃ seq, s.line call = seq :: t.line call ∧ t.permits.Perm (seq :: s.permits) := by
  cases h with
  | produce hseq hroom =>
      left
      have hcount : call.batchCount - s.nextJob = call.batchCount - (s.nextJob + 1) + 1 := by omega
      rw [State.line, State.line, hcount, List.range'_succ]
      simp only [List.append_assoc, List.singleton_append]
  | take hj hjobs =>
      left
      obtain ⟨hworkers, hset⟩ := eq_singleton hone hj
      rw [State.line, State.line, State.setWorker, hset, hworkers, hjobs]
      rfl
  | stop hj | read hj | loaded hj | send hj =>
      left
      obtain ⟨hworkers, hset⟩ := eq_singleton hone hj
      rw [State.line, State.line, State.setWorker, hset, hworkers]
      rfl
  | park hj hpc hfull =>
      left
      obtain ⟨hworkers, hset⟩ := eq_singleton hone hj
      rw [State.line, State.line, State.setWorker, hset, hworkers]
      simp only [List.flatMap_singleton, (WorkerPc.asks_eq hpc).1]
      rfl
  | @acquire j seq pc hj hpc hfits =>
      right
      obtain ⟨hworkers, hset⟩ := eq_singleton hone hj
      obtain ⟨hwaits, hholds⟩ := WorkerPc.asks_eq hpc
      refine ⟨seq, ?_, ?_⟩
      · rw [State.line, State.line, State.setWorker, hset, hworkers]
        simp only [List.flatMap_singleton, hwaits]
        rfl
      · rw [State.permits, State.permits, State.setWorker, hset, hworkers]
        simp only [List.flatMap_singleton, hholds]
        exact .refl _
  | fault hj hrelease =>
      left
      obtain ⟨hworkers, hset⟩ := eq_singleton hone hj
      rw [hrelease.line (List.length_set.trans hone), State.line, State.line, State.setWorker, hset,
        hworkers]
      rfl
  | finish | receive | receiveError | ended | dropped | join => exact .inl rfl
  | consume hc hne htake hrelease => exact .inl (hrelease.line hone)
  | fails hc htake hrelease => exact .inl (hrelease.line hone)
  | drop hc hdrop hrelease => exact .inl (hrelease.line hone)

theorem line_perm (call : Call) (s : State κ ρ) : (s.line call).Perm (s.waiting call) := by
  rw [State.line, State.waiting]
  refine List.perm_append_comm.trans ?_
  rw [List.append_assoc]
  exact (List.perm_append_comm_assoc ..).trans (List.Perm.refl _)

theorem Booked.permits_subset (h : Booked call s t) (hline : t.line call = s.line call) :
    ∀ seq ∈ t.permits, seq ∈ s.permits := by
  cases h with
  | same hwaiting hpermits hused => exact fun seq hseq => hpermits.mem_iff.mpr hseq
  | acquired hwaiting hpermits hused hfits =>
      have hlen := (line_perm call s).length_eq
      have hlen' := (line_perm call t).length_eq
      have hloss := hwaiting.length_eq
      rw [List.length_cons] at hloss
      rw [hline] at hlen'
      omega
  | released gone hwaiting hpermits hused =>
      exact fun seq hseq => hpermits.mem_iff.mpr (List.mem_append_right _ hseq)

theorem InLine.step (h : InLine call s) (hbooks : Books call s)
    (hs : PointPipeline.step call reader s a = some t) : InLine call t := by
  have hmove := move_of_step hs
  have hone := hmove.length_workers.trans h.one
  rcases hmove.line h.one with hline | ⟨seq, hline, hpermits⟩
  · have hsubset := (booked_of_move hbooks.permits_nodup hmove).permits_subset hline
    refine ⟨hone, hline ▸ h.sorted, fun seq hseq => ?_⟩
    rw [hline]
    exact h.behind seq (hsubset seq hseq)
  · have hsorted := h.sorted
    rw [hline, List.pairwise_cons] at hsorted
    refine ⟨hone, hsorted.2, fun other hother next hnext => ?_⟩
    rcases List.mem_cons.mp (hpermits.mem_iff.mp hother) with rfl | hother
    · exact hsorted.1 next hnext
    · exact h.behind other hother next (hline ▸ List.mem_cons_of_mem _ hnext)

theorem InLine.initial (hone : call.ioThreads = 1) (cache : κ) :
    InLine call (PointPipeline.initial (ρ := ρ) call cache) := by
  have hworkers : (PointPipeline.initial (ρ := ρ) call cache).workers = [.receiving] := by
    rw [PointPipeline.initial, hone]
    rfl
  have hline : (PointPipeline.initial (ρ := ρ) call cache).line call =
      List.range' 0 call.batchCount := by
    rw [State.line, hworkers]
    rfl
  have hpermits : (PointPipeline.initial (ρ := ρ) call cache).permits = [] := by
    rw [State.permits, hworkers]
    rfl
  constructor
  · exact congrArg List.length hworkers
  · rw [hline]
    exact List.pairwise_lt_range'
  · intro seq hseq
    rw [hpermits] at hseq
    cases hseq

theorem not_starved_of_one (h : InLine call s) (hbooks : Books call s) : ¬ Starved call s := by
  rintro ⟨seq, -, -, hparked, hfull, hlater⟩
  have hmem : seq ∈ s.line call :=
    (line_perm call s).mem_iff.mpr (mem_waiting call hparked List.mem_cons_self)
  have hnone : s.permits = [] := by
    rw [List.eq_nil_iff_forall_not_mem]
    intro other hother
    exact Nat.lt_asymm (hlater other hother) (h.behind other hother seq hmem)
  have hused := hbooks.used
  have hle := call.bytes_le_capacity seq
  rw [hnone, weigh_nil] at hused
  omega

theorem not_starved (hcond : call.ioThreads = 1 ∨ call.totalBytes ≤ call.capacity) {cache : κ}
    (h : Reaches (step call reader) (initial call cache) s) : ¬ Starved call s := by
  rcases hcond with hone | htotal
  · have hboth : Books call s ∧ InLine call s := by
      apply h.invariant (P := fun s => Books call s ∧ InLine call s)
      · exact ⟨Books.initial cache, InLine.initial hone cache⟩
      · rintro s a t ⟨hbooks, hline⟩ hs
        exact ⟨hbooks.step hs, hline.step hbooks hs⟩
    exact not_starved_of_one hboth.2 hboth.1
  · exact not_starved_of_total (Books.of_reaches h) htotal

/-! ## Reading ahead -/

/-- Some run without a failure leads from `s` to `t`. -/
def Calm (call : Call) (reader : Reader κ ρ) (s t : State κ ρ) : Prop :=
  ∃ actions, (∀ a ∈ actions, a.isFailure = false) ∧ Run (step call reader) s actions t

namespace Calm

theorem single (ha : a.isFailure = false) (h : step call reader s a = some t) :
    Calm call reader s t :=
  ⟨[a], fun _ hb => List.mem_singleton.mp hb ▸ ha, .single h⟩

theorem refl (s : State κ ρ) : Calm call reader s s := ⟨[], (fun _ h => nomatch h), .nil s⟩

theorem trans (h : Calm call reader s t) (h' : Calm call reader t u) : Calm call reader s u := by
  obtain ⟨actions, hcalm, hrun⟩ := h
  obtain ⟨actions', hcalm', hrun'⟩ := h'
  refine ⟨actions ++ actions', fun a ha => ?_, hrun.append hrun'⟩
  rcases List.mem_append.mp ha with ha | ha
  · exact hcalm a ha
  · exact hcalm' a ha

theorem reaches (h : Calm call reader s t) : Reaches (step call reader) s t := by
  obtain ⟨actions, -, hrun⟩ := h
  exact ⟨actions, hrun⟩

end Calm

/-- A worker reads its batch to the end. -/
theorem calm_read (call : Call) (reader : Reader κ ρ) {j seq : Nat} {r : ρ} (hj : s.workers[j]? = some (.reading seq r)) :
    ∃ cache data, Calm call reader s ({ s with cache }.setWorker j (.sending (.ok (seq, data)))) := by
  induction hfuel : reader.fuel r using Nat.strong_induction_on generalizing s r with
  | h fuel ih =>
      have hlt := (List.getElem?_eq_some_iff.mp hj).1
      cases hread : reader.step s.cache r with
      | mk cache next =>
          cases next with
          | inl r' =>
              have hstep : step call reader s (.worker j) =
                  some ({ s with cache }.setWorker j (.reading seq r')) := by
                simp only [step, workerStep, hj, hread]
              obtain ⟨last, data, hlast⟩ := ih (reader.fuel r') (hfuel ▸ reader.fuel_lt hread)
                (s := { s with cache }.setWorker j (.reading seq r')) (r := r')
                (List.getElem?_set_self hlt) rfl
              refine ⟨last, data, (Calm.single rfl hstep).trans ?_⟩
              simp only [State.setWorker, List.set_set] at hlast ⊢
              exact hlast
          | inr data =>
              have hstep : step call reader s (.worker j) =
                  some ({ s with cache }.setWorker j (.sending (.ok (seq, data)))) := by
                simp only [step, workerStep, hj, hread]
              exact ⟨cache, data, .single rfl hstep⟩

/-- The first worker has the first batch and no permit; the second one has read the next `i`. -/
structure Ahead (call : Call) (i : Nat) (s : State κ ρ) : Prop where
  nextJob : s.nextJob = i + 1
  jobs : s.jobs = []
  first : s.workers[0]? = some (.acquiring 0)
  second : s.workers[1]? = some .receiving
  ready : s.ready = []
  consumer : s.consumer = .receiving 0
  used : s.used = weigh call.bytes (List.range' 1 i)

theorem weigh_range'_succ (i : Nat) : weigh call.bytes (List.range' 1 (i + 1)) =
    weigh call.bytes (List.range' 1 i) + call.bytes (i + 1) := by
  rw [List.range'_concat, weigh_append, weigh_cons, weigh_nil, Nat.one_mul, Nat.add_comm 1 i]
  rfl

theorem take?_of_not_mem {seq : Nat} (h : seq ∉ s.permits) : s.pending.take? seq = none :=
  Pending.take?_eq_none.mpr fun hmem => h (List.mem_append_right _ (List.mem_append_right _ hmem))

/-- A worker that is free takes the next batch. -/
theorem calm_take (reader : Reader κ ρ) {j : Nat} (hjobs : s.jobs = []) (hj : s.workers[j]? = some .receiving)
    (hseq : s.nextJob < call.batchCount) :
    Calm call reader s ({ s with nextJob := s.nextJob + 1 }.setWorker j (.acquiring s.nextJob)) := by
  obtain ⟨nextJob, jobs, workers, ready, used, cache, pending, consumer, consumed, returned⟩ := s
  subst hjobs
  have hdepth : 0 < call.queueDepth := Nat.lt_of_lt_of_le Nat.one_pos (Nat.le_max_right ..)
  refine (Calm.single (a := .produce) rfl (if_pos ⟨hseq, hdepth⟩)).trans ?_
  refine Calm.single (a := .worker j) rfl ?_
  simp only [step, workerStep, hj, List.nil_append]

/-- A worker's batch is read and sent, and the consumer puts it aside. -/
theorem calm_deliver (call : Call) (reader : Reader κ ρ) {j seq expected : Nat} (hj : s.workers[j]? = some (.acquiring seq))
    (hfits : s.used + call.bytes seq ≤ call.capacity) (hready : s.ready = [])
    (hconsumer : s.consumer = .receiving expected) (hne : expected ≠ call.batchCount)
    (htake : s.pending.take? expected = none) :
    ∃ cache data, Calm call reader s ({ s with
      used := s.used + call.bytes seq
      cache
      pending := s.pending.put seq data }.setWorker j .receiving) := by
  have hlt := (List.getElem?_eq_some_iff.mp hj).1
  have hdepth : 0 < call.queueDepth := Nat.lt_of_lt_of_le Nat.one_pos (Nat.le_max_right ..)
  have hacquire : step call reader s (.worker j) =
      some ({ s with used := s.used + call.bytes seq }.setWorker j
        (.reading seq (reader.start (call.chunk seq)))) := by
    simp only [step, workerStep, hj, if_neg (Nat.not_lt.mpr (call.bytes_le_capacity seq)),
      State.acquire, if_neg (Nat.not_lt.mpr hfits)]
  obtain ⟨cache, data, hread⟩ := calm_read call reader
    (s := { s with used := s.used + call.bytes seq }.setWorker j
      (.reading seq (reader.start (call.chunk seq)))) (List.getElem?_set_self hlt)
  refine ⟨cache, data, (Calm.single rfl hacquire).trans (hread.trans ?_)⟩
  have hsent : (s.workers.set j (.sending (.ok (seq, data))))[j]? =
      some (.sending (.ok (seq, data))) := List.getElem?_set_self hlt
  let sent : State κ ρ := { s with
    used := s.used + call.bytes seq
    cache
    ready := [.ok (seq, data)]
    workers := s.workers.set j .receiving }
  simp only [State.setWorker, List.set_set]
  have hsend : Calm call reader { s with
      used := s.used + call.bytes seq
      cache
      workers := s.workers.set j (.sending (.ok (seq, data))) } sent := by
    refine Calm.single (a := .worker j) rfl ?_
    simp only [step, workerStep, hsent, hready, List.length_nil, if_pos hdepth, State.setWorker,
      List.set_set, List.nil_append, sent]
  have hreceive : Calm call reader sent { s with
      used := s.used + call.bytes seq
      cache
      pending := s.pending.put seq data
      workers := s.workers.set j .receiving } := by
    refine Calm.single (a := .consumer none) rfl ?_
    simp only [step, consumerStep, sent, hconsumer, if_neg hne, htake, hready]
  exact hsend.trans hreceive

/-- The second worker reads the next batch, which the consumer puts aside. -/
theorem Ahead.round (reader : Reader κ ρ) {i : Nat} (h : Ahead call i s) (hbooks : Books call s)
    (hi : i + 1 < call.batchCount) (hfits : s.used + call.bytes (i + 1) ≤ call.capacity) :
    ∃ t, Calm call reader s t ∧ Ahead call (i + 1) t := by
  have hlt : 1 < s.workers.length := (List.getElem?_eq_some_iff.mp h.second).1
  have hnone : s.pending.take? 0 = none :=
    take?_of_not_mem (hbooks.first_not_mem (List.mem_of_getElem? h.first) List.mem_cons_self)
  have htake := calm_take reader h.jobs h.second (h.nextJob.symm ▸ hi)
  rw [h.nextJob] at htake
  obtain ⟨cache, data, hdeliver⟩ := calm_deliver call reader
    (s := { s with nextJob := i + 1 + 1 }.setWorker 1 (.acquiring (i + 1)))
    (List.getElem?_set_self hlt) hfits h.ready h.consumer (by omega) hnone
  refine ⟨_, htake.trans hdeliver, ⟨rfl, h.jobs, ?_, ?_, h.ready, h.consumer, ?_⟩⟩
  · simp only [State.setWorker]
    rw [List.getElem?_set_ne Nat.one_ne_zero, List.getElem?_set_ne Nat.one_ne_zero]
    exact h.first
  · exact List.getElem?_set_self (by rwa [State.setWorker, List.length_set])
  · rw [weigh_range'_succ, ← h.used]
    rfl

theorem Ahead.initial (reader : Reader κ ρ) (hthreads : call.ioThreads ≠ 1) (hcount : 0 < call.batchCount) (cache : κ) :
    ∃ s, Calm call reader (PointPipeline.initial call cache) s ∧ Ahead call 0 s := by
  have hlt : 1 < (List.replicate call.ioThreads (WorkerPc.receiving (ρ := ρ))).length := by
    have hpos := call.ioThreads_pos
    rw [List.length_replicate]
    omega
  have hget : ∀ j ≤ 1, (PointPipeline.initial (ρ := ρ) call cache).workers[j]? = some .receiving := by
    intro j hj
    rw [PointPipeline.initial, List.getElem?_replicate, if_pos]
    rw [List.length_replicate] at hlt
    exact Nat.lt_of_le_of_lt hj hlt
  refine ⟨_, calm_take reader rfl (hget 0 (Nat.zero_le 1)) hcount, ⟨rfl, rfl, ?_, ?_, rfl, rfl, rfl⟩⟩
  · exact List.getElem?_set_self (Nat.lt_trans Nat.zero_lt_one hlt)
  · rw [State.setWorker, List.getElem?_set_ne Nat.zero_ne_one]
    exact hget 1 (Nat.le_refl 1)

/-- The budget is short of what the first batch asks for. -/
theorem totalBytes_eq (hcount : 0 < call.batchCount) :
    call.totalBytes = call.bytes 0 + weigh call.bytes (List.range' 1 (call.batchCount - 1)) := by
  obtain ⟨n, hn⟩ := Nat.exists_eq_add_of_lt hcount
  rw [Call.totalBytes, List.range_eq_range', hn, List.range'_succ, weigh_cons]
  rfl

/-- The second worker reads ahead until the first batch does not fit. -/
theorem exists_ahead (reader : Reader κ ρ) (htotal : call.capacity < call.totalBytes) {i m : Nat}
    (him : i + m + 1 = call.batchCount) (h : Ahead call i s) (hbooks : Books call s) :
    ∃ k t, Calm call reader s t ∧ Ahead call k t ∧ call.capacity < t.used + call.bytes 0 := by
  induction m generalizing i s with
  | zero =>
      have hall : i = call.batchCount - 1 := by omega
      refine ⟨i, s, .refl s, h, ?_⟩
      rw [totalBytes_eq (by omega)] at htotal
      rw [h.used, hall]
      omega
  | succ m ih =>
      by_cases hfull : call.capacity < s.used + call.bytes 0
      · exact ⟨i, s, .refl s, h, hfull⟩
      · have hle : call.bytes (i + 1) ≤ call.bytes 0 := by
          rw [show call.bytes 0 = call.fullBytes from call.bytes_eq (by omega)]
          exact call.bytes_le (i + 1)
        obtain ⟨t, hcalm, ht⟩ := h.round reader hbooks (by omega) (by omega)
        obtain ⟨k, u, hcalm', hu⟩ := ih (by omega) ht
          (hcalm.reaches.invariant hbooks fun _ _ _ hbooks hs => hbooks.step hs)
        exact ⟨k, u, hcalm.trans hcalm', hu⟩

/-- Where the first batch does not fit, its worker parks. -/
theorem Ahead.starved (reader : Reader κ ρ) {i : Nat} (h : Ahead call i s) (hbooks : Books call s)
    (hfull : call.capacity < s.used + call.bytes 0) :
    ∃ t, Calm call reader s t ∧ Starved call t := by
  have hpark : step call reader s (.worker 0) = some (s.setWorker 0 (.parked 0)) := by
    simp only [step, workerStep, h.first, if_neg (Nat.not_lt.mpr (call.bytes_le_capacity 0)),
      State.acquire, if_pos hfull]
  have hlt : 0 < s.workers.length := (List.getElem?_eq_some_iff.mp h.first).1
  have hparked : (s.setWorker 0 (.parked 0)).workers[0]? = some (.parked 0) :=
    List.getElem?_set_self hlt
  have hnot : 0 ∉ (s.setWorker 0 (.parked 0)).permits :=
    (hbooks.step hpark).first_not_mem (List.mem_of_getElem? hparked) List.mem_cons_self
  refine ⟨_, .single rfl hpark, 0, h.consumer, take?_of_not_mem hnot,
    List.mem_of_getElem? hparked, hfull, fun other hother => ?_⟩
  exact Nat.pos_of_ne_zero fun hzero => hnot (hzero ▸ hother)

/-- With more than one worker and too little budget, the first batch can starve. -/
theorem exists_starved (reader : Reader κ ρ) (hthreads : call.ioThreads ≠ 1) (htotal : call.capacity < call.totalBytes)
    (cache : κ) : ∃ s, Calm call reader (initial call cache) s ∧ Starved call s := by
  have hcount : 0 < call.batchCount := by
    rw [Nat.pos_iff_ne_zero]
    intro hzero
    rw [Call.totalBytes, hzero] at htotal
    exact Nat.not_lt_zero _ htotal
  obtain ⟨s, hcalm, hs⟩ := Ahead.initial reader hthreads hcount cache
  obtain ⟨k, t, hcalm', ht, hfull⟩ :=
    exists_ahead reader htotal (i := 0) (m := call.batchCount - 1) (by omega) hs
      (Books.of_reaches hcalm.reaches)
  obtain ⟨u, hcalm'', hu⟩ :=
    ht.starved reader (Books.of_reaches (hcalm.trans hcalm').reaches) hfull
  exact ⟨u, (hcalm.trans hcalm').trans hcalm'', hu⟩

/-! ## When nothing starves -/

/-- Without a failure the consumer never waits for a batch that the later ones keep from the budget
if and only if there is one worker, or a budget for all batches at once. -/
theorem pipeline_starves_iff (call : Call) (reader : Reader κ ρ) (cache : κ) :
    (∀ actions s, (∀ a ∈ actions, a.isFailure = false) →
      Run (step call reader) (initial call cache) actions s → ¬ Starved call s) ↔
      call.ioThreads = 1 ∨ call.totalBytes ≤ call.capacity := by
  constructor
  · intro h
    by_contra hcond
    rw [not_or, Nat.not_le] at hcond
    obtain ⟨s, ⟨actions, hcalm, hrun⟩, hstarved⟩ :=
      exists_starved reader hcond.1 hcond.2 cache
    exact h actions s hcalm hrun hstarved
  · rintro hcond actions s - hrun
    exact not_starved hcond ⟨actions, hrun⟩

/-- Eight rows of two floats in batches of one row, four workers and a budget of four rows. -/
def fourRowCall : Call where
  dim := 2
  ids := [0, 1, 2, 3, 4, 5, 6, 7]
  batchPoints := 8
  config := {
    ioThreads := 4
    queueDepth := 4
    budgetBytes := 32
    maxWindowBytes := 65536
    maxReadAmplification := 2
    windowCacheBytes := 0 }

/-- Reads a chunk in one step. -/
def wholeReader (row : UInt32 → List F32) : Reader Unit (List UInt32) where
  start := id
  step cache ids := (cache, .inr (ids.flatMap row))
  fuel _ := 0
  fuel_lt h := by cases h

def pairRow (pid : UInt32) : List F32 := [⟨pid⟩, ⟨pid⟩]

theorem fourRowCall_chunkIds : fourRowCall.chunkIds = [[0], [1], [2], [3], [4], [5], [6], [7]] := by
  have hpoints : fourRowCall.effectiveBatchPoints = 1 := by decide
  rw [Call.chunkIds, hpoints, fourRowCall]
  repeat rw [chunks, if_neg (by decide)]
  rw [chunks, if_pos (by decide)]
  rfl

theorem fourRowCall_totalBytes : fourRowCall.totalBytes = 64 := by
  have hbytes : ∀ seq < 8, fourRowCall.bytes seq = 8 := by
    simp only [Call.bytes, Call.chunk, fourRowCall_chunkIds]
    decide
  have hcount : fourRowCall.batchCount = 8 := by rw [Call.batchCount, fourRowCall_chunkIds]; rfl
  rw [Call.totalBytes, hcount, weigh,
    List.map_congr_left fun seq hseq => hbytes seq (List.mem_range.mp hseq)]
  rfl

/-- Worker 0 takes batch 0 and gets no further before another one has read batches 1 to 4: these
fill the budget, and batch 0 waits for ever. -/
theorem fourRowCall_starves :
    ¬ ∀ actions s, (∀ a ∈ actions, a.isFailure = false) →
      Run (step fourRowCall (wholeReader pairRow)) (initial fourRowCall ()) actions s →
        ¬ Starved fourRowCall s := by
  intro h
  have htotal : fourRowCall.capacity < fourRowCall.totalBytes := by
    rw [fourRowCall_totalBytes]
    decide
  obtain ⟨s, ⟨actions, hcalm, hrun⟩, hstarved⟩ :=
    exists_starved (wholeReader pairRow) (by decide) htotal ()
  exact h actions s hcalm hrun hstarved

end PointPipeline

end ForgeANN
