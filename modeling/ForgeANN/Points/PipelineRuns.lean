-- SUMMARY: Every run of the point pipeline ends, and what is still to come at each point of it.
import ForgeANN.Points.PipelineBooks

/-!
# Runs of the point pipeline

Each step uses up something: a chunk moves on, a read goes on, a thread ends.
What the consumer has not received yet is counted, so that it knows nothing of
the end before everything has come.
-/
namespace ForgeANN

open Lib

namespace PointPipeline

variable {κ ρ : Type} {call : Call} {reader : Reader κ ρ} {s t : State κ ρ} {a : Action}

theorem weigh_set (weight : WorkerPc ρ → Nat) {j : Nat} {pc : WorkerPc ρ} (pc' : WorkerPc ρ)
    (hj : s.workers[j]? = some pc) :
    weigh weight (s.workers.set j pc') + weight pc = weigh weight s.workers + weight pc' :=
  Pool.sum_map_set hj

/-! ## Every run ends -/

/-- What a batch still costs when its worker asks the budget. -/
def Call.cost (call : Call) (reader : Reader κ ρ) (seq : Nat) : Nat :=
  reader.fuel (reader.start (call.chunk seq)) + 10

/-- A woken worker may find that it has to wait again. -/
def WorkerPc.cost (call : Call) (reader : Reader κ ρ) : WorkerPc ρ → Nat
  | .receiving => 1
  | .acquiring seq | .woken seq => call.cost reader seq + 1
  | .parked seq => call.cost reader seq
  | .reading _ r => reader.fuel r + 9
  | .sending (.ok _) => 8
  | .sending (.error _) => 4
  | .stopped => 0

def messageCost : AnnResult (Nat × List F32) → Nat
  | .ok _ => 6
  | .error _ => 2

def ConsumerPc.cost : ConsumerPc → Nat
  | .receiving _ => 3
  | .dropping _ => 2
  | .finished _ => 1

def State.cost (call : Call) (reader : Reader κ ρ) (s : State κ ρ) : Nat :=
  weigh (fun seq => call.cost reader seq + 3) (List.range' s.nextJob (call.batchCount - s.nextJob)) +
    (weigh (fun seq => call.cost reader seq + 2) s.jobs +
      (weigh (WorkerPc.cost call reader) s.workers +
        (weigh messageCost s.ready +
          (5 * s.pending.length + (s.consumer.cost + s.returned.elim 1 fun _ => 0)))))

/-- Who is woken costs one more. -/
theorem Releases.cost (call : Call) (reader : Reader κ ρ) {bytes : Nat} (h : Releases s bytes t) :
    t.cost call reader ≤ s.cost call reader + 1 := by
  cases h with
  | alone => exact Nat.le_succ _
  | @wakes j seq hj =>
      have hset := weigh_set (WorkerPc.cost call reader) (.woken seq) hj
      simp only [WorkerPc.cost] at hset
      simp only [State.cost, State.setWorker]
      omega

theorem length_take? {pending rest : Pending (List F32)} {seq : Nat} {data : List F32}
    (hnodup : (pending.map Prod.fst).Nodup) (h : pending.take? seq = some (data, rest)) :
    pending.length = rest.length + 1 :=
  (Pending.take?_perm hnodup h).length_eq

theorem length_put (pending : Pending (List F32)) (seq : Nat) (data : List F32) :
    (pending.put seq data).length ≤ pending.length + 1 :=
  Nat.succ_le_succ (List.length_filter_le ..)

theorem cost_setWorker {j : Nat} {pc pc' : WorkerPc ρ} {cache : κ} {used : Nat}
    (hj : s.workers[j]? = some pc) (hlt : pc'.cost call reader < pc.cost call reader) :
    ({ s with cache, used }.setWorker j pc').cost call reader < s.cost call reader := by
  have hset := weigh_set (WorkerPc.cost call reader) pc' hj
  simp only [State.cost, State.setWorker]
  omega

theorem WorkerPc.cost_asks {pc : WorkerPc ρ} {seq : Nat} (h : pc.asks = some seq) :
    pc.cost call reader = call.cost reader seq + 1 := by
  cases pc with
  | acquiring other | woken other =>
      cases h
      rfl
  | receiving | parked | reading | sending | stopped => cases h

/-- Each step costs something. -/
theorem Move.cost_lt (hnodup : s.permits.Nodup) (h : Move call reader s a t) :
    t.cost call reader < s.cost call reader := by
  have hpending := pending_nodup hnodup
  cases h with
  | produce hseq hroom =>
      have hcount : call.batchCount - s.nextJob = call.batchCount - (s.nextJob + 1) + 1 := by omega
      simp only [State.cost, hcount, List.range'_succ, weigh_cons, weigh_append, weigh_nil]
      omega
  | @take j seq jobs hj hjobs =>
      have hset := weigh_set (WorkerPc.cost call reader) (.acquiring seq) hj
      simp only [WorkerPc.cost] at hset
      simp only [State.cost, State.setWorker, hjobs, weigh_cons]
      omega
  | stop hj hjobs hend => exact cost_setWorker hj Nat.one_pos
  | park hj hpc hfull =>
      refine cost_setWorker hj ?_
      rw [WorkerPc.cost_asks hpc]
      exact Nat.lt_succ_self _
  | acquire hj hpc hfits =>
      refine cost_setWorker hj ?_
      rw [WorkerPc.cost_asks hpc]
      simp only [WorkerPc.cost, Call.cost]
      omega
  | read hj hread => exact cost_setWorker hj (Nat.add_lt_add_right (reader.fuel_lt hread) 9)
  | loaded hj hread =>
      refine cost_setWorker hj ?_
      simp only [WorkerPc.cost]
      omega
  | @send j result hj hroom =>
      have hset := weigh_set (WorkerPc.cost call reader) .receiving hj
      simp only [State.cost, State.setWorker, weigh_append, weigh_cons, weigh_nil]
      cases result <;> simp only [WorkerPc.cost, messageCost] at hset ⊢ <;> omega
  | @fault j seq r err wake t hj hrelease =>
      have hset := weigh_set (WorkerPc.cost call reader) (.sending (.error err)) hj
      have hle := hrelease.cost call reader
      simp only [WorkerPc.cost] at hset
      simp only [State.cost, State.setWorker] at hle ⊢
      omega
  | finish hc =>
      simp only [State.cost, hc, ConsumerPc.cost]
      omega
  | consume hc hne htake hrelease =>
      have hle := hrelease.cost call reader
      have hlen := length_take? hpending htake
      simp only [State.cost, hc, ConsumerPc.cost] at hle ⊢
      omega
  | @receive expected seq data ready wake hc hne htake hready =>
      have hlen := length_put s.pending seq data
      simp only [State.cost, hready, weigh_cons, messageCost]
      omega
  | receiveError hc htake hready =>
      simp only [State.cost, hc, hready, weigh_cons, ConsumerPc.cost, messageCost]
      omega
  | ended hc hne htake hready hall =>
      simp only [State.cost, hc, ConsumerPc.cost]
      omega
  | fails hc htake hrelease =>
      have hle := hrelease.cost call reader
      have hlen := length_take? hpending htake
      simp only [State.cost, hc, ConsumerPc.cost] at hle ⊢
      omega
  | drop hc hdrop hrelease =>
      have hle := hrelease.cost call reader
      simp only [State.cost, hdrop, List.length_cons] at hle ⊢
      omega
  | dropped hc hdropped =>
      simp only [State.cost, hc, ConsumerPc.cost]
      omega
  | join hc hreturned hall hend =>
      simp only [State.cost, hreturned, weigh_nil, Option.elim]
      omega

/-! ## What is still to come -/

def WorkerPc.busy : WorkerPc ρ → Nat
  | .receiving | .stopped => 0
  | _ => 1

/-- How many batches the consumer has not received yet, those that failed with them. -/
def State.outstanding (call : Call) (s : State κ ρ) : Nat :=
  call.batchCount - s.nextJob + (s.jobs.length + (weigh WorkerPc.busy s.workers + s.ready.length))

/-- The batches that the consumer has not received yet and that have not failed. -/
def State.coming (call : Call) (s : State κ ρ) : List Nat :=
  s.waiting call ++ (s.workers.flatMap WorkerPc.holds ++ readySeqs s.ready)

theorem count_coming (x : Nat) : (s.coming call).count x + (s.pending.map Prod.fst).count x =
    (s.waiting call).count x + s.permits.count x := by
  rw [State.coming, List.count_append, List.count_append, count_permits]
  omega

theorem Releases.outstanding {bytes : Nat} (h : Releases s bytes t) :
    t.outstanding call = s.outstanding call := by
  cases h with
  | alone => rfl
  | @wakes j seq hj =>
      have hset := weigh_set WorkerPc.busy (.woken seq) hj
      simp only [WorkerPc.busy] at hset
      simp only [State.outstanding, State.setWorker]
      omega

theorem Releases.coming {bytes : Nat} (h : Releases s bytes t) :
    (s.coming call).Perm (t.coming call) := by
  rw [State.coming, State.coming, h.ready]
  exact h.waiting.append ((h.flatMap_workers fun _ => rfl).append_right _)

def Action.ofConsumer : Action → Bool
  | .consumer _ | .consumeFails .. | .join => true
  | _ => false

/-- What a step of the others does. -/
structure Upstream (call : Call) (s t : State κ ρ) : Prop where
  consumer : t.consumer = s.consumer
  pending : t.pending = s.pending
  consumed : t.consumed = s.consumed
  returned : t.returned = s.returned
  outstanding : t.outstanding call = s.outstanding call

theorem upstream_setWorker {j : Nat} {pc pc' : WorkerPc ρ} {cache : κ} {used : Nat}
    (hj : s.workers[j]? = some pc) (hbusy : pc'.busy = pc.busy) :
    Upstream call s ({ s with cache, used }.setWorker j pc') := by
  refine ⟨rfl, rfl, rfl, rfl, ?_⟩
  have hset := weigh_set WorkerPc.busy pc' hj
  simp only [State.outstanding, State.setWorker]
  omega

theorem WorkerPc.busy_asks {pc : WorkerPc ρ} {seq : Nat} (h : pc.asks = some seq) : pc.busy = 1 := by
  cases pc with
  | acquiring | woken => rfl
  | receiving | parked | reading | sending | stopped => cases h

theorem Move.upstream (h : Move call reader s a t) (ha : a.ofConsumer = false) :
    Upstream call s t := by
  cases h with
  | produce hseq hroom =>
      refine ⟨rfl, rfl, rfl, rfl, ?_⟩
      simp only [State.outstanding, List.length_append, List.length_singleton]
      omega
  | @take j seq jobs hj hjobs =>
      refine ⟨rfl, rfl, rfl, rfl, ?_⟩
      have hset := weigh_set WorkerPc.busy (.acquiring seq) hj
      simp only [WorkerPc.busy] at hset
      simp only [State.outstanding, State.setWorker, hjobs, List.length_cons]
      omega
  | stop hj hjobs hend => exact upstream_setWorker hj rfl
  | park hj hpc hfull => exact upstream_setWorker hj (WorkerPc.busy_asks hpc).symm
  | acquire hj hpc hfits => exact upstream_setWorker hj (WorkerPc.busy_asks hpc).symm
  | read hj hread => exact upstream_setWorker hj rfl
  | loaded hj hread => exact upstream_setWorker hj rfl
  | send hj hroom =>
      refine ⟨rfl, rfl, rfl, rfl, ?_⟩
      have hset := weigh_set WorkerPc.busy .receiving hj
      simp only [WorkerPc.busy] at hset
      simp only [State.outstanding, State.setWorker, List.length_append, List.length_singleton]
      omega
  | @fault j seq r err wake t hj hrelease =>
      have hset := weigh_set WorkerPc.busy (.sending (.error err)) hj
      simp only [WorkerPc.busy] at hset
      refine ⟨hrelease.consumer, hrelease.pending, hrelease.consumed, hrelease.returned, ?_⟩
      rw [hrelease.outstanding]
      simp only [State.outstanding, State.setWorker]
      omega
  | finish | consume | receive | receiveError | ended | fails | drop | dropped | join => cases ha

/-- No step makes up a batch. -/
theorem Booked.subset (h : Booked call s t) :
    ∀ seq ∈ t.waiting call ++ t.permits, seq ∈ s.waiting call ++ s.permits := by
  intro seq hseq
  rw [List.mem_append] at hseq ⊢
  cases h with
  | same hwaiting hpermits hused => exact hseq.imp hwaiting.mem_iff.mpr hpermits.mem_iff.mpr
  | acquired hwaiting hpermits hused hfits =>
      rcases hseq with hseq | hseq
      · exact .inl (hwaiting.mem_iff.mpr (List.mem_cons_of_mem _ hseq))
      · rcases List.mem_cons.mp (hpermits.mem_iff.mp hseq) with rfl | hseq
        · exact .inl (hwaiting.mem_iff.mpr List.mem_cons_self)
        · exact .inr hseq
  | released gone hwaiting hpermits hused =>
      exact hseq.imp hwaiting.mem_iff.mpr fun h =>
        hpermits.mem_iff.mpr (List.mem_append_right _ h)

/-! ## The course of a call -/

/-- The consumer has every batch before the one it expects, and the threads end only when there is
nothing left for them. -/
structure Course (call : Call) (s : State κ ρ) : Prop where
  books : Books call s
  workers : 0 < s.workers.length
  room : s.ready.length ≤ call.queueDepth
  stopped : .stopped ∈ s.workers → call.batchCount ≤ s.nextJob ∧ s.jobs = []
  counted : ∀ expected, s.consumer = .receiving expected →
    s.outstanding call + (s.pending.length + expected) = call.batchCount
  later : ∀ expected, s.consumer = .receiving expected →
    ∀ seq ∈ s.waiting call ++ s.permits, expected ≤ seq
  finished : ∀ result, s.consumer = .finished result → s.pending = []
  complete : s.consumer = .finished (.ok ()) → s.outstanding call = 0
  returned : ∀ result, s.returned = some result → s.consumer = .finished result ∧ s.ready = [] ∧
    ∀ pc ∈ s.workers, pc.isStopped = true

namespace Course

theorem initial (cache : κ) : Course call (PointPipeline.initial (ρ := ρ) call cache) := by
  have hbusy : weigh WorkerPc.busy (List.replicate call.ioThreads (WorkerPc.receiving (ρ := ρ))) = 0 := by
    rw [weigh, List.map_replicate]
    exact List.sum_eq_zero fun n hn => List.eq_of_mem_replicate hn
  constructor
  · exact Books.initial cache
  · rw [PointPipeline.initial, List.length_replicate]
    exact call.ioThreads_pos
  · exact Nat.zero_le _
  · intro hstopped
    cases List.eq_of_mem_replicate hstopped
  · intro expected hc
    cases hc
    rw [State.outstanding, PointPipeline.initial, hbusy]
    rfl
  · intro expected hc
    cases hc
    exact fun _ _ => Nat.zero_le _
  · intro result hc
    cases hc
  · intro hc
    cases hc
  · intro result hreturned
    cases hreturned

theorem eq_stopped {pc : WorkerPc ρ} (h : pc.isStopped = true) : pc = .stopped := by
  cases pc with
  | stopped => rfl
  | receiving | acquiring | parked | woken | reading | sending => cases h

/-- A worker stops when there is nothing left to take. -/
theorem all_stopped (h : Course call s) (hall : ∀ pc ∈ s.workers, pc.isStopped = true) :
    call.batchCount ≤ s.nextJob ∧ s.jobs = [] := by
  obtain ⟨pc, hpc⟩ := List.exists_mem_of_length_pos h.workers
  exact h.stopped (eq_stopped (hall pc hpc) ▸ hpc)

theorem weigh_busy (hall : ∀ pc ∈ s.workers, pc.isStopped = true) : weigh WorkerPc.busy s.workers = 0 := by
  apply List.sum_eq_zero
  intro n hn
  obtain ⟨pc, hpc, rfl⟩ := List.mem_map.mp hn
  rw [eq_stopped (hall pc hpc)]
  rfl

/-- The workers do not end before the consumer has what it expects. -/
theorem not_ended (h : Course call s) {expected : Nat} (hc : s.consumer = .receiving expected)
    (hne : expected ≠ call.batchCount) (htake : s.pending.take? expected = none)
    (hready : s.ready = []) (hall : ∀ pc ∈ s.workers, pc.isStopped = true) : False := by
  obtain ⟨hend, hjobs⟩ := h.all_stopped hall
  have hcounted := h.counted expected hc
  have hlater : ∀ seq ∈ s.pending.map Prod.fst,
      seq ∈ List.range' (expected + 1) (call.batchCount - (expected + 1)) := by
    intro seq hseq
    have hmem : seq ∈ s.waiting call ++ s.permits :=
      List.mem_append_right _ (List.mem_append_right _ (List.mem_append_right _ hseq))
    have hle := h.later expected hc seq hmem
    have hother : seq ≠ expected := fun heq => Pending.take?_eq_none.mp htake (heq ▸ hseq)
    have hlt := h.books.below seq hmem
    exact List.mem_range'_1.mpr ⟨by omega, by omega⟩
  have hlen := (pending_nodup h.books.permits_nodup).subperm hlater |>.length_le
  rw [List.length_range', List.length_map] at hlen
  rw [State.outstanding, weigh_busy hall, hjobs, hready] at hcounted
  simp only [List.length_nil] at hcounted
  omega

end Course

theorem mem_setWorker {j : Nat} {pc pc' : WorkerPc ρ} (h : pc ∈ s.workers.set j pc')
    (hne : pc ≠ pc') : pc ∈ s.workers :=
  (List.mem_or_eq_of_mem_set h).resolve_right hne

theorem Releases.mem_workers {bytes : Nat} {pc : WorkerPc ρ} (h : Releases s bytes t)
    (hpc : pc ∈ t.workers) (hne : ∀ seq, pc ≠ .woken seq) : pc ∈ s.workers := by
  cases h with
  | alone => exact hpc
  | wakes => exact mem_setWorker hpc (hne _)

theorem Move.stopped (h : Move call reader s a t)
    (hs : WorkerPc.stopped ∈ s.workers → call.batchCount ≤ s.nextJob ∧ s.jobs = [])
    (ht : WorkerPc.stopped ∈ t.workers) : call.batchCount ≤ t.nextJob ∧ t.jobs = [] := by
  cases h with
  | produce hseq hroom => exact absurd (hs ht).1 (Nat.not_le.mpr hseq)
  | take hj hjobs =>
      rw [(hs (mem_setWorker ht nofun)).2] at hjobs
      cases hjobs
  | stop hj hjobs hend => exact ⟨hend, hjobs⟩
  | park | acquire | read | loaded | send => exact hs (mem_setWorker ht nofun)
  | fault hj hrelease =>
      rw [hrelease.nextJob, hrelease.jobs]
      exact hs (mem_setWorker (hrelease.mem_workers ht nofun) nofun)
  | finish | receive | receiveError | ended | dropped | join => exact hs ht
  | consume hc hne htake hrelease | fails hc htake hrelease | drop hc hdrop hrelease =>
      rw [hrelease.nextJob, hrelease.jobs]
      exact hs (hrelease.mem_workers ht nofun)

theorem Move.room (h : Move call reader s a t) (hs : s.ready.length ≤ call.queueDepth) :
    t.ready.length ≤ call.queueDepth := by
  cases h with
  | produce | take | stop | park | acquire | read | loaded | finish | ended | dropped => exact hs
  | send hj hroom =>
      rw [State.setWorker, List.length_append]
      exact hroom
  | fault hj hrelease | consume hc hne htake hrelease | fails hc htake hrelease
  | drop hc hdrop hrelease =>
      rw [hrelease.ready]
      exact hs
  | receive hc hne htake hready | receiveError hc htake hready =>
      rw [hready] at hs
      exact Nat.le_of_succ_le hs
  | join => exact Nat.zero_le _

namespace Course

/-- After the call has returned, nothing moves. -/
theorem not_returned (h : Course call s) (hmove : Move call reader s a t) : s.returned = none := by
  cases hreturned : s.returned with
  | none => rfl
  | some result =>
      exfalso
      obtain ⟨hc, hready, hall⟩ := h.returned result hreturned
      have hpending := h.finished result hc
      obtain ⟨hend, hjobs⟩ := h.all_stopped hall
      have hstopped : ∀ j pc, s.workers[j]? = some pc → pc = WorkerPc.stopped :=
        fun j pc hj => eq_stopped (hall pc (List.mem_of_getElem? hj))
      cases hmove with
      | produce hseq hroom => omega
      | take hj | stop hj | read hj | loaded hj | send hj | fault hj => cases hstopped _ _ hj
      | park hj hpc | acquire hj hpc =>
          cases hstopped _ _ hj
          cases hpc
      | finish hc' | consume hc' | receive hc' | receiveError hc' | ended hc' | fails hc' | drop hc'
      | dropped hc' =>
          rw [hc] at hc'
          cases hc'
      | join hc' hnone =>
          rw [hreturned] at hnone
          cases hnone

/-- A batch that comes in is not there yet. -/
theorem received_not_mem (h : Course call s) {seq : Nat} {data : List F32}
    {ready : List (AnnResult (Nat × List F32))} (hready : s.ready = .ok (seq, data) :: ready) :
    seq ∉ s.pending.map Prod.fst := by
  intro hmem
  have hnodup := h.books.permits_nodup
  rw [State.permits, hready, readySeqs_ok] at hnodup
  exact (List.nodup_append.mp (List.nodup_append.mp hnodup).2.1).2.2 seq List.mem_cons_self seq hmem rfl

theorem counted_step (h : Course call s) (hmove : Move call reader s a t) {expected : Nat}
    (hc : t.consumer = .receiving expected) :
    t.outstanding call + (t.pending.length + expected) = call.batchCount := by
  by_cases ha : a.ofConsumer = false
  · have hup := hmove.upstream ha
    rw [hup.outstanding, hup.pending]
    exact h.counted expected (hup.consumer ▸ hc)
  · have hpending := pending_nodup h.books.permits_nodup
    cases hmove with
    | produce | take | stop | park | acquire | read | loaded | send | fault => exact absurd rfl ha
    | @consume before data pending wake t hc' hne htake hrelease =>
        rw [hrelease.consumer] at hc
        cases hc
        have hcounted := h.counted before hc'
        have hlen := length_take? hpending htake
        have hout : t.outstanding call = s.outstanding call := hrelease.outstanding
        have hrest : t.pending.length = pending.length := congrArg List.length hrelease.pending
        omega
    | @receive before seq data ready wake hc' hne htake hready =>
        cases hc'.symm.trans hc
        have hcounted := h.counted expected hc'
        rw [Pending.put_of_not_mem (h.received_not_mem hready), List.length_cons]
        simp only [State.outstanding, hready, List.length_cons] at hcounted ⊢
        omega
    | finish | receiveError | ended | dropped => cases hc
    | fails hc' htake hrelease =>
        rw [hrelease.consumer] at hc
        cases hc
    | drop hc' hdrop hrelease =>
        rw [hrelease.consumer] at hc
        cases hc'.symm.trans hc
    | join hc' => cases hc'.symm.trans hc

theorem later_step (h : Course call s) (hmove : Move call reader s a t) {expected : Nat}
    (hc : t.consumer = .receiving expected) :
    ∀ seq ∈ t.waiting call ++ t.permits, expected ≤ seq := by
  intro seq hseq
  have hmem := (booked_of_move h.books.permits_nodup hmove).subset seq hseq
  by_cases ha : a.ofConsumer = false
  · exact h.later expected ((hmove.upstream ha).consumer ▸ hc) seq hmem
  · have hpending := pending_nodup h.books.permits_nodup
    cases hmove with
    | produce | take | stop | park | acquire | read | loaded | send | fault => exact absurd rfl ha
    | @consume before data pending wake t hc' hne htake hrelease =>
        rw [hrelease.consumer] at hc
        cases hc
        have hpermits : s.permits.Perm (before :: State.permits { s with
            pending
            consumed := s.consumed ++ [data]
            consumer := .receiving (before + 1) }) :=
          permits_pending (Pending.take?_perm hpending htake) rfl rfl
        have hall : (s.waiting call ++ s.permits).Perm (before :: (t.waiting call ++ t.permits)) :=
          (hrelease.waiting.append (hpermits.trans (hrelease.permits.cons before))).trans
            List.perm_middle
        have hnot := (List.nodup_cons.mp (hall.nodup_iff.mp h.books.nodup)).1
        exact Nat.lt_of_le_of_ne (h.later before hc' seq hmem) fun heq => hnot (heq ▸ hseq)
    | receive hc' hne htake hready => exact h.later expected hc seq hmem
    | finish | receiveError | ended | dropped => cases hc
    | fails hc' htake hrelease =>
        rw [hrelease.consumer] at hc
        cases hc
    | drop hc' hdrop hrelease =>
        rw [hrelease.consumer] at hc
        cases hc'.symm.trans hc
    | join hc' => cases hc'.symm.trans hc

/-- The consumer is done when it has received everything. -/
theorem all_received (h : Course call s) (hc : s.consumer = .receiving call.batchCount) :
    s.outstanding call = 0 ∧ s.pending = [] := by
  have hcounted := h.counted call.batchCount hc
  exact ⟨by omega, List.eq_nil_of_length_eq_zero (by omega)⟩

theorem finished_step (h : Course call s) (hmove : Move call reader s a t)
    {result : AnnResult Unit} (hc : t.consumer = .finished result) : t.pending = [] := by
  by_cases ha : a.ofConsumer = false
  · have hup := hmove.upstream ha
    rw [hup.pending]
    exact h.finished result (hup.consumer ▸ hc)
  · cases hmove with
    | produce | take | stop | park | acquire | read | loaded | send | fault => exact absurd rfl ha
    | consume hc' hne htake hrelease | fails hc' htake hrelease =>
        rw [hrelease.consumer] at hc
        cases hc
    | drop hc' hdrop hrelease =>
        rw [hrelease.consumer] at hc
        cases hc'.symm.trans hc
    | receive hc' => cases hc'.symm.trans hc
    | receiveError | ended => cases hc
    | finish hc' => exact (h.all_received hc').2
    | dropped hc' hdropped => exact hdropped
    | join hc' => exact h.finished _ hc'

theorem complete_step (h : Course call s) (hmove : Move call reader s a t)
    (hc : t.consumer = .finished (.ok ())) : t.outstanding call = 0 := by
  by_cases ha : a.ofConsumer = false
  · have hup := hmove.upstream ha
    rw [hup.outstanding]
    exact h.complete (hup.consumer ▸ hc)
  · cases hmove with
    | produce | take | stop | park | acquire | read | loaded | send | fault => exact absurd rfl ha
    | consume hc' hne htake hrelease | fails hc' htake hrelease =>
        rw [hrelease.consumer] at hc
        cases hc
    | drop hc' hdrop hrelease =>
        rw [hrelease.consumer] at hc
        cases hc'.symm.trans hc
    | receive hc' => cases hc'.symm.trans hc
    | receiveError | ended | dropped => cases hc
    | finish hc' => exact (h.all_received hc').1
    | join hc' =>
        have hcomplete := h.complete hc
        simp only [State.outstanding, List.length_nil] at hcomplete ⊢
        omega

theorem returned_step (h : Course call s) (hmove : Move call reader s a t)
    {result : AnnResult Unit} (hreturned : t.returned = some result) :
    t.consumer = .finished result ∧ t.ready = [] ∧ ∀ pc ∈ t.workers, pc.isStopped = true := by
  have hnone := h.not_returned hmove
  by_cases ha : a.ofConsumer = false
  · rw [(hmove.upstream ha).returned, hnone] at hreturned
    cases hreturned
  · cases hmove with
    | produce | take | stop | park | acquire | read | loaded | send | fault => exact absurd rfl ha
    | consume hc' hne htake hrelease | fails hc' htake hrelease | drop hc' hdrop hrelease =>
        cases hnone.symm.trans (hrelease.returned.symm.trans hreturned)
    | finish | receive | receiveError | ended | dropped => cases hnone.symm.trans hreturned
    | join hc' hreturned' hall hend =>
        cases hreturned
        exact ⟨hc', rfl, hall⟩

theorem step (h : Course call s) (hs : PointPipeline.step call reader s a = some t) :
    Course call t := by
  have hmove := move_of_step hs
  exact {
    books := h.books.step hs
    workers := hmove.length_workers.symm ▸ h.workers
    room := hmove.room h.room
    stopped := hmove.stopped h.stopped
    counted := fun _ hc => h.counted_step hmove hc
    later := fun _ hc => h.later_step hmove hc
    finished := fun _ hc => h.finished_step hmove hc
    complete := h.complete_step hmove
    returned := fun _ hreturned => h.returned_step hmove hreturned }

theorem of_reaches {cache : κ} (h : Reaches (PointPipeline.step call reader)
    (PointPipeline.initial call cache) s) : Course call s :=
  h.invariant (initial cache) fun _ _ _ hcourse hs => hcourse.step hs

end Course

end PointPipeline

end ForgeANN
