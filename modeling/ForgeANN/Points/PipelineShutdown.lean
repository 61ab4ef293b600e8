-- SUMMARY: When the point pipeline shuts down after a read or the callback has failed.
import ForgeANN.Points.PipelineStarves
import ForgeANN.Points.PipelineWaits

/-!
# Shutting down the point pipeline

After a failure the consumer gives up, but the channel it received from lives on
until all threads have ended: what the workers still read has to fit in there,
with its permits.
-/
namespace ForgeANN

open Lib

namespace PointPipeline

variable {κ ρ : Type} {call : Call} {reader : Reader κ ρ} {s t : State κ ρ} {a : Action}

/-! ## Errors on their way -/

def Action.error? : Action → Option AnnError
  | .fault _ err _ | .consumeFails err _ => some err
  | _ => none

/-- The errors of a run. -/
def failures (actions : List Action) : List AnnError := actions.filterMap Action.error?

/-- An error that the consumer may yet receive, or has given up on. -/
inductive Carries (s : State κ ρ) (err : AnnError) : Prop
  | worker (h : .sending (.error err) ∈ s.workers)
  | ready (h : .error err ∈ s.ready)
  | dropping (h : s.consumer = .dropping err)
  | finished (h : s.consumer = .finished (.error err))

theorem Releases.mem_of_mem {bytes : Nat} {pc : WorkerPc ρ} (h : Releases s bytes t)
    (hpc : pc ∈ s.workers) (hne : ∀ seq, pc ≠ .parked seq) : pc ∈ t.workers := by
  cases h with
  | alone => exact hpc
  | wakes hj => exact (Pool.eq_or_mem_set hj hpc).resolve_left (hne _)

theorem carries_of_fails {err : AnnError} (h : Move call reader s a t) (ha : a.error? = some err) :
    Carries t err := by
  cases h with
  | fault hj hrelease =>
      cases ha
      exact .worker (hrelease.mem_of_mem (Pool.mem_set_self hj) nofun)
  | fails hc htake hrelease =>
      cases ha
      exact .dropping hrelease.consumer
  | produce | take | stop | park | acquire | read | loaded | send | finish | consume | receive
  | receiveError | ended | drop | dropped | join => cases ha

/-- Another worker's change keeps an error that a worker sends. -/
theorem carries_setWorker {err : AnnError} {j : Nat} {pc pc' : WorkerPc ρ} {u : State κ ρ}
    (hj : s.workers[j]? = some pc) (hne : pc ≠ .sending (.error err))
    (hu : u.workers = s.workers.set j pc') (h : .sending (.error err) ∈ s.workers) :
    Carries u err :=
  .worker (hu ▸ (Pool.eq_or_mem_set hj h).resolve_left (Ne.symm hne))

theorem Carries.worker_move {err : AnnError} (h : WorkerPc.sending (.error err) ∈ s.workers)
    (hmove : Move call reader s a t) : Carries t err := by
  cases hmove with
  | produce | finish | receive | receiveError | ended | dropped | join => exact .worker h
  | take hj | stop hj | read hj | loaded hj => exact carries_setWorker hj nofun rfl h
  | park hj hpc | acquire hj hpc =>
      refine carries_setWorker hj (fun heq => ?_) rfl h
      subst heq
      cases hpc
  | @send j result hj hroom =>
      by_cases heq : result = .error err
      · subst heq
        exact .ready (List.mem_append_right _ List.mem_cons_self)
      · exact carries_setWorker hj (fun h => heq (WorkerPc.sending.inj h)) rfl h
  | fault hj hrelease =>
      exact .worker (hrelease.mem_of_mem ((Pool.eq_or_mem_set hj h).resolve_left nofun) nofun)
  | consume hc hne htake hrelease | fails hc htake hrelease | drop hc hdrop hrelease =>
      exact .worker (hrelease.mem_of_mem h nofun)

/-- Once there is an error, there is one in every state that follows. -/
theorem Carries.step {err : AnnError} (h : Carries s err) (hcourse : Course call s)
    (hmove : Move call reader s a t) : ∃ err, Carries t err := by
  cases h with
  | worker h => exact ⟨err, .worker_move h hmove⟩
  | ready h =>
      cases hmove with
      | produce | take | stop | park | acquire | read | loaded | finish | ended | dropped =>
          exact ⟨err, .ready h⟩
      | send => exact ⟨err, .ready (List.mem_append_left _ h)⟩
      | fault hj hrelease | consume hc hne htake hrelease | fails hc htake hrelease
      | drop hc hdrop hrelease => exact ⟨err, .ready (hrelease.ready ▸ h)⟩
      | receive hc hne htake hready =>
          rw [hready] at h
          exact ⟨err, .ready ((List.mem_cons.mp h).resolve_left nofun)⟩
      | @receiveError expected other => exact ⟨other, .dropping rfl⟩
      | @join result hc =>
          cases result with
          | error other => exact ⟨other, .finished hc⟩
          | ok =>
              have hnone := hcourse.complete hc
              have hpos := List.length_pos_of_mem h
              rw [State.outstanding] at hnone
              omega
  | dropping h =>
      by_cases ha : a.ofConsumer = false
      · exact ⟨err, .dropping ((hmove.upstream ha).consumer.trans h)⟩
      · cases hmove with
        | produce | take | stop | park | acquire | read | loaded | send | fault =>
            exact absurd rfl ha
        | finish hc | consume hc | receive hc | receiveError hc | ended hc | fails hc | join hc =>
            cases h.symm.trans hc
        | drop hc hdrop hrelease => exact ⟨err, .dropping (hrelease.consumer.trans h)⟩
        | dropped hc =>
            cases h.symm.trans hc
            exact ⟨err, .finished rfl⟩
  | finished h =>
      by_cases ha : a.ofConsumer = false
      · exact ⟨err, .finished ((hmove.upstream ha).consumer.trans h)⟩
      · cases hmove with
        | produce | take | stop | park | acquire | read | loaded | send | fault =>
            exact absurd rfl ha
        | finish hc | consume hc | receive hc | receiveError hc | ended hc | fails hc | drop hc
        | dropped hc => cases h.symm.trans hc
        | join => exact ⟨err, .finished h⟩

/-- Where an error in a worker's hands comes from. -/
theorem Carries.worker_blame {err : AnnError} (h : WorkerPc.sending (.error err) ∈ t.workers)
    (hmove : Move call reader s a t) : Carries s err ∨ a.error? = some err := by
  cases hmove with
  | produce | finish | receive | receiveError | ended | dropped | join => exact .inl (.worker h)
  | take | stop | park | acquire | read | loaded | send => exact .inl (.worker (mem_setWorker h nofun))
  | @fault j seq r other wake t hj hrelease =>
      have hset := hrelease.mem_workers h nofun
      by_cases heq : other = err
      · exact .inr (congrArg some heq)
      · exact .inl (.worker (mem_setWorker hset fun h => heq (by cases h; rfl)))
  | consume hc hne htake hrelease | fails hc htake hrelease | drop hc hdrop hrelease =>
      exact .inl (.worker (hrelease.mem_workers h nofun))

/-- An error is one that was there, or the one of the step. -/
theorem Carries.blame {err : AnnError} (h : Carries t err) (hcourse : Course call s)
    (hmove : Move call reader s a t) : Carries s err ∨ a.error? = some err := by
  cases h with
  | worker h => exact worker_blame h hmove
  | ready h =>
      cases hmove with
      | produce | take | stop | park | acquire | read | loaded | finish | ended | dropped =>
          exact .inl (.ready h)
      | send hj hroom =>
          rcases List.mem_append.mp h with h | h
          · exact .inl (.ready h)
          · rw [← List.mem_singleton.mp h] at hj
            exact .inl (.worker (List.mem_of_getElem? hj))
      | fault hj hrelease | consume hc hne htake hrelease | fails hc htake hrelease
      | drop hc hdrop hrelease => exact .inl (.ready (hrelease.ready ▸ h))
      | receive hc hne htake hready | receiveError hc htake hready =>
          exact .inl (.ready (hready ▸ List.mem_cons_of_mem _ h))
      | join => cases h
  | dropping h =>
      by_cases ha : a.ofConsumer = false
      · exact .inl (.dropping ((hmove.upstream ha).consumer.symm.trans h))
      · cases hmove with
        | produce | take | stop | park | acquire | read | loaded | send | fault =>
            exact absurd rfl ha
        | finish | dropped => cases h
        | consume hc hne htake hrelease => cases hrelease.consumer.symm.trans h
        | receive hc => cases hc.symm.trans h
        | receiveError hc htake hready =>
            cases h
            exact .inl (.ready (hready ▸ List.mem_cons_self))
        | ended hc hne htake hready hall => exact (hcourse.not_ended hc hne htake hready hall).elim
        | fails hc htake hrelease =>
            cases hrelease.consumer.symm.trans h
            exact .inr rfl
        | drop hc hdrop hrelease => exact .inl (.dropping (hrelease.consumer.symm.trans h))
        | join hc => cases hc.symm.trans h
  | finished h =>
      by_cases ha : a.ofConsumer = false
      · exact .inl (.finished ((hmove.upstream ha).consumer.symm.trans h))
      · cases hmove with
        | produce | take | stop | park | acquire | read | loaded | send | fault =>
            exact absurd rfl ha
        | finish | receiveError | ended => cases h
        | consume hc hne htake hrelease | fails hc htake hrelease =>
            cases hrelease.consumer.symm.trans h
        | receive hc => cases hc.symm.trans h
        | drop hc hdrop hrelease => cases hc.symm.trans (hrelease.consumer.symm.trans h)
        | dropped hc =>
            cases h
            exact .inl (.dropping hc)
        | join => exact .inl (.finished h)

theorem not_carries_initial (cache : κ) {err : AnnError} :
    ¬ Carries (initial (ρ := ρ) call cache) err := by
  intro h
  cases h with
  | worker h => cases List.eq_of_mem_replicate h
  | ready h | dropping h | finished h => cases h

theorem carries_of_run {actions : List Action} (hrun : Run (step call reader) s actions t)
    (hcourse : Course call s)
    (h : (∃ err, Carries s err) ∨ ∃ a ∈ actions, a.isFailure = true) : ∃ err, Carries t err := by
  induction hrun with
  | nil => exact h.resolve_right fun ⟨a, ha, _⟩ => nomatch ha
  | cons hs hrun ih =>
      refine ih (hcourse.step hs) ?_
      rcases h with ⟨err, herr⟩ | ⟨b, hb, hfails⟩
      · exact .inl (herr.step hcourse (move_of_step hs))
      · rcases List.mem_cons.mp hb with rfl | hb
        · cases b with
          | fault j err wake => exact .inl ⟨err, carries_of_fails (move_of_step hs) rfl⟩
          | consumeFails err wake => exact .inl ⟨err, carries_of_fails (move_of_step hs) rfl⟩
          | produce | worker | consumer | join => cases hfails
        · exact .inr ⟨b, hb, hfails⟩

theorem blame_of_run {actions : List Action} (hrun : Run (step call reader) s actions t)
    (hcourse : Course call s) {err : AnnError} (h : Carries t err) :
    Carries s err ∨ err ∈ failures actions := by
  induction hrun with
  | nil => exact .inl h
  | @cons s u t a actions hs hrun ih =>
      rcases ih (hcourse.step hs) h with h | h
      · rcases h.blame hcourse (move_of_step hs) with h | ha
        · exact .inl h
        · exact .inr (List.mem_filterMap.mpr ⟨a, List.mem_cons_self, ha⟩)
      · obtain ⟨b, hb, hfails⟩ := List.mem_filterMap.mp h
        exact .inr (List.mem_filterMap.mpr ⟨b, List.mem_cons_of_mem _ hb, hfails⟩)

/-! ## Where nothing moves -/

theorem queueDepth_pos : 0 < call.queueDepth := Nat.lt_of_lt_of_le Nat.one_pos (Nat.le_max_right ..)

/-- A worker that does not move has ended, waits for budget, or has no room to send to. -/
theorem halted_worker (h : Halted (step call reader) s) {pc : WorkerPc ρ} (hpc : pc ∈ s.workers) :
    pc = .stopped ∨ (∃ seq, pc = .parked seq) ∨
      ∃ result, pc = .sending result ∧ call.queueDepth ≤ s.ready.length := by
  obtain ⟨j, hj⟩ := List.mem_iff_getElem?.mp hpc
  have hstep : workerStep call reader s j = none := h (.worker j)
  have hproduce := h .produce
  simp only [workerStep, hj] at hstep
  cases pc with
  | receiving =>
      exfalso
      cases hjobs : s.jobs with
      | nil =>
          by_cases hmore : s.nextJob < call.batchCount
          · simp only [step, hjobs, List.length_nil] at hproduce
            rw [if_pos ⟨hmore, queueDepth_pos⟩] at hproduce
            cases hproduce
          · simp only [hjobs, if_neg hmore] at hstep
            cases hstep
      | cons seq jobs =>
          simp only [hjobs] at hstep
          cases hstep
  | acquiring seq =>
      simp only [if_neg (Nat.not_lt.mpr (call.bytes_le_capacity seq))] at hstep
      cases hstep
  | parked seq => exact .inr (.inl ⟨seq, rfl⟩)
  | woken seq => cases hstep
  | reading seq r =>
      cases hread : reader.step s.cache r with
      | mk cache next =>
          cases next <;> simp only [hread] at hstep <;> cases hstep
  | sending result =>
      refine .inr (.inr ⟨result, rfl, ?_⟩)
      by_contra hroom
      simp only [if_pos (Nat.lt_of_not_le hroom)] at hstep
      cases hstep
  | stopped => exact .inl rfl

/-- A consumer that does not move has ended, or there is nothing to receive. -/
theorem halted_consumer (h : Halted (step call reader) s) :
    (∃ result, s.consumer = .finished result) ∨
      ∃ expected, s.consumer = .receiving expected ∧ s.ready = [] := by
  have hstep : ∀ wake, consumerStep call s wake = none := fun wake => h (.consumer wake)
  simp only [consumerStep] at hstep
  cases hc : s.consumer with
  | finished result => exact .inl ⟨result, rfl⟩
  | dropping err =>
      simp only [hc] at hstep
      cases hpending : s.pending with
      | nil =>
          simp only [hpending] at hstep
          cases hstep none
      | cons entry pending =>
          obtain ⟨seq, data⟩ := entry
          obtain ⟨wake, t, hrelease⟩ :=
            exists_release { s with pending, consumer := .dropping err } (call.bytes seq)
          have hnone := hstep wake
          simp only [hpending] at hnone
          cases hnone.symm.trans hrelease
  | receiving expected =>
      refine .inr ⟨expected, rfl, ?_⟩
      simp only [hc] at hstep
      by_cases hend : expected = call.batchCount
      · simp only [if_pos hend] at hstep
        cases hstep none
      · simp only [if_neg hend] at hstep
        cases htake : s.pending.take? expected with
        | some entry =>
            obtain ⟨data, pending⟩ := entry
            obtain ⟨wake, t, hrelease⟩ := exists_release { s with
              pending
              consumed := s.consumed ++ [data]
              consumer := .receiving (expected + 1) } (call.bytes expected)
            have hnone := hstep wake
            simp only [htake] at hnone
            cases hnone.symm.trans hrelease
        | none =>
            cases hready : s.ready with
            | nil => rfl
            | cons message ready =>
                have hnone := hstep none
                simp only [htake, hready] at hnone
                cases message <;> cases hnone

/-- With an error about, the consumer gets to it. -/
theorem finished_of_halted (h : Halted (step call reader) s) (hcourse : Course call s)
    {err : AnnError} (herr : Carries s err) : ∃ err, s.consumer = .finished (.error err) := by
  have hbusy : WorkerPc.sending (.error err) ∈ s.workers → 1 ≤ s.outstanding call := by
    intro hmem
    have hle := le_weigh_of_mem WorkerPc.busy hmem
    rw [State.outstanding]
    simp only [WorkerPc.busy] at hle
    omega
  rcases halted_consumer h with ⟨result, hc⟩ | ⟨expected, hc, hready⟩
  · cases result with
    | error other => exact ⟨other, hc⟩
    | ok =>
        have hnone := hcourse.complete hc
        cases herr with
        | worker hmem =>
            have hpos := hbusy hmem
            omega
        | ready hmem =>
            have hpos := List.length_pos_of_mem hmem
            rw [State.outstanding] at hnone
            omega
        | dropping hc' | finished hc' => cases hc.symm.trans hc'
  · cases herr with
    | worker hmem =>
        rcases halted_worker h hmem with heq | ⟨seq, heq⟩ | ⟨result, -, hfull⟩
        · cases heq
        · cases heq
        · rw [hready] at hfull
          exact absurd queueDepth_pos (Nat.not_lt.mpr hfull)
    | ready hmem =>
        rw [hready] at hmem
        cases hmem
    | dropping hc' | finished hc' => cases hc.symm.trans hc'

/-! ## After the consumer has given up -/

def GivesUp (s : State κ ρ) : Prop :=
  ∃ err, s.consumer = .dropping err ∨ s.consumer = .finished (.error err)

/-- What is still to come fits in the channel, and in the budget. -/
def Drains (call : Call) (s : State κ ρ) : Prop :=
  s.outstanding call ≤ call.queueDepth ∧ weigh call.bytes (s.coming call) ≤ call.capacity

theorem weigh_coming (call : Call) (s : State κ ρ) :
    weigh call.bytes (s.coming call) + weigh call.bytes (s.pending.map Prod.fst) =
      weigh call.bytes (s.waiting call) + weigh call.bytes s.permits := by
  rw [State.coming, State.permits, weigh_append, weigh_append, weigh_append, weigh_append]
  omega

/-- A permit that is acquired moves a batch on; only what is given back is gone. -/
theorem Booked.weigh_eq (h : Booked call s t) (hs : s.used = weigh call.bytes s.permits)
    (ht : t.used = weigh call.bytes t.permits) :
    weigh call.bytes (t.waiting call) + t.used ≤ weigh call.bytes (s.waiting call) + s.used ∧
      (s.used ≤ t.used →
        weigh call.bytes (t.waiting call) + t.used = weigh call.bytes (s.waiting call) + s.used) := by
  cases h with
  | same hwaiting hpermits hused =>
      rw [weigh_perm hwaiting, hused]
      exact ⟨Nat.le_refl _, fun _ => rfl⟩
  | acquired hwaiting hpermits hused hfits =>
      rw [weigh_perm hwaiting, weigh_cons, hused]
      exact ⟨by omega, fun _ => by omega⟩
  | released gone hwaiting hpermits hused =>
      rw [weigh_perm hwaiting]
      exact ⟨by omega, fun _ => by omega⟩

/-- Only a failed read makes less of what the others have. -/
theorem Move.used_le (h : Move call reader s a t) (ha : a.ofConsumer = false)
    (hcalm : a.isFailure = false) : s.used ≤ t.used := by
  cases h with
  | produce | take | stop | park | read | loaded | send => exact Nat.le_refl _
  | acquire => exact Nat.le_add_right ..
  | fault => cases hcalm
  | finish | consume | receive | receiveError | ended | fails | drop | dropped | join => cases ha

theorem upstream_coming (hbooks : Books call s) (hbooks' : Books call t)
    (h : Move call reader s a t) (ha : a.ofConsumer = false) :
    weigh call.bytes (t.coming call) ≤ weigh call.bytes (s.coming call) ∧
      (a.isFailure = false → weigh call.bytes (t.coming call) = weigh call.bytes (s.coming call)) := by
  obtain ⟨hle, heq⟩ :=
    (booked_of_move hbooks.permits_nodup h).weigh_eq hbooks.used hbooks'.used
  have hs := weigh_coming call s
  have ht := weigh_coming call t
  rw [(h.upstream ha).pending, ← hbooks'.used] at ht
  rw [← hbooks.used] at hs
  refine ⟨by omega, fun hcalm => ?_⟩
  have hsame := heq (h.used_le ha hcalm)
  omega

/-- Giving up is for good. -/
theorem GivesUp.step (h : GivesUp s) (hmove : Move call reader s a t) : GivesUp t := by
  obtain ⟨err, h⟩ := h
  by_cases ha : a.ofConsumer = false
  · exact ⟨err, (hmove.upstream ha).consumer.symm ▸ h⟩
  · cases hmove with
    | produce | take | stop | park | acquire | read | loaded | send | fault => exact absurd rfl ha
    | finish hc | consume hc | receive hc | receiveError hc | ended hc | fails hc =>
        rcases h with h | h <;> cases hc.symm.trans h
    | drop hc hdrop hrelease => exact ⟨err, hrelease.consumer.symm ▸ h⟩
    | @dropped other wake hc => exact ⟨other, .inr rfl⟩
    | join => exact ⟨err, h⟩

/-- What the consumer does after it has given up changes nothing about what is to come. -/
theorem GivesUp.dropping (h : GivesUp s) (hmove : Move call reader s a t) (ha : a.ofConsumer = true)
    (hjoin : a ≠ .join) :
    t.outstanding call = s.outstanding call ∧ (s.coming call).Perm (t.coming call) := by
  obtain ⟨err, h⟩ := h
  cases hmove with
  | produce | take | stop | park | acquire | read | loaded | send | fault => cases ha
  | finish hc | consume hc | receive hc | receiveError hc | ended hc | fails hc =>
      rcases h with h | h <;> cases hc.symm.trans h
  | drop hc hdrop hrelease => exact ⟨hrelease.outstanding, hrelease.coming⟩
  | dropped => exact ⟨rfl, .refl _⟩
  | join => exact absurd rfl hjoin

theorem Drains.after (h : Drains call s) (hbooks : Books call s) (hgives : GivesUp s)
    (hs : step call reader s a = some t) : Drains call t := by
  have hmove := move_of_step hs
  cases ha : a.ofConsumer with
  | false =>
      have hout := (hmove.upstream ha).outstanding
      have hcoming := (upstream_coming hbooks (hbooks.step hs) hmove ha).1
      exact ⟨hout ▸ h.1, Nat.le_trans hcoming h.2⟩
  | true =>
      by_cases hjoin : a = .join
      · subst hjoin
        cases hmove with
        | join hc hreturned hall hend =>
            refine ⟨?_, Nat.le_trans ?_ h.2⟩
            · have hout := h.1
              simp only [State.outstanding, List.length_nil] at hout ⊢
              omega
            · simp only [State.coming, weigh_append, readySeqs_nil, weigh_nil]
              exact Nat.add_le_add_left (Nat.add_le_add_left (Nat.zero_le _) _) _
      · obtain ⟨hout, hcoming⟩ := hgives.dropping hmove ha hjoin
        exact ⟨hout ▸ h.1, weigh_perm hcoming ▸ h.2⟩

/-- Without another failure, what does not fit stays. -/
theorem Drains.before (h : Drains call t) (hbooks : Books call s) (hgives : GivesUp s)
    (hs : step call reader s a = some t) (hcalm : a.isFailure = false) (hjoin : a ≠ .join) :
    Drains call s := by
  have hmove := move_of_step hs
  cases ha : a.ofConsumer with
  | false =>
      have hout := (hmove.upstream ha).outstanding
      have hcoming := (upstream_coming hbooks (hbooks.step hs) hmove ha).2 hcalm
      exact ⟨hout ▸ h.1, hcoming ▸ h.2⟩
  | true =>
      obtain ⟨hout, hcoming⟩ := hgives.dropping hmove ha hjoin
      exact ⟨hout ▸ h.1, weigh_perm hcoming ▸ h.2⟩

theorem flatMap_stopped (f : WorkerPc ρ → List Nat) (hf : f .stopped = [])
    (hall : ∀ pc ∈ s.workers, pc.isStopped = true) : s.workers.flatMap f = [] := by
  rw [List.flatMap_eq_nil_iff]
  intro pc hpc
  rw [Course.eq_stopped (hall pc hpc)]
  exact hf

/-- Where all threads have ended, everything did fit. -/
theorem drains_of_stopped (hcourse : Course call s)
    (hall : ∀ pc ∈ s.workers, pc.isStopped = true) : Drains call s := by
  obtain ⟨hend, hjobs⟩ := hcourse.all_stopped hall
  have hcount : call.batchCount - s.nextJob = 0 := Nat.sub_eq_zero_of_le hend
  constructor
  · rw [State.outstanding, hcount, hjobs, Course.weigh_busy hall]
    simp only [List.length_nil, Nat.zero_add]
    exact hcourse.room
  · have hused := hcourse.books.used
    have hfits := hcourse.books.fits
    rw [State.permits, flatMap_stopped _ rfl hall, List.nil_append, weigh_append] at hused
    rw [State.coming, State.waiting, hcount, hjobs, flatMap_stopped _ rfl hall,
      flatMap_stopped _ rfl hall]
    simp only [List.range'_zero, List.nil_append]
    omega

/-- Where everything fits, the call comes back. -/
theorem returned_of_halted (h : Halted (step call reader) s) (hcourse : Course call s)
    (hattended : Attended call s) (hdrains : Drains call s) {result : AnnResult Unit}
    (hc : s.consumer = .finished result) : s.returned = some result ∧ s.used = 0 := by
  have hpending := hcourse.finished result hc
  have hall : ∀ pc ∈ s.workers, pc.isStopped = true := by
    intro pc hpc
    rcases halted_worker h hpc with rfl | ⟨seq, rfl⟩ | ⟨message, rfl, hfull⟩
    · rfl
    · -- what this worker waits for is among what fits
      exfalso
      have hwoken : s.workers.flatMap WorkerPc.wakes = [] := by
        rw [List.flatMap_eq_nil_iff]
        intro other hother
        rcases halted_worker h hother with rfl | ⟨seq, rfl⟩ | ⟨message, rfl, -⟩ <;> rfl
      have hno := (hattended seq hpc).1
      have hmem := le_weigh_of_mem call.bytes (mem_waiting call hpc List.mem_cons_self)
      have hcoming := weigh_coming call s
      have hfits := hdrains.2
      rw [State.wokenBytes, hwoken, weigh_nil] at hno
      rw [hpending, ← hcourse.books.used] at hcoming
      simp only [List.map_nil, weigh_nil] at hcoming
      omega
    · exfalso
      have hbusy := le_weigh_of_mem WorkerPc.busy hpc
      have hroom := hdrains.1
      simp only [WorkerPc.busy] at hbusy
      rw [State.outstanding] at hroom
      omega
  obtain ⟨hend, -⟩ := hcourse.all_stopped hall
  have hreturned : s.returned = some result := by
    have hjoin : joinStep call s = none := h .join
    cases hreturned : s.returned with
    | some other => rw [ConsumerPc.finished.inj (hc.symm.trans (hcourse.returned other hreturned).1)]
    | none =>
        simp only [joinStep, hc, hreturned] at hjoin
        rw [if_pos ⟨List.all_eq_true.mpr hall, hend⟩] at hjoin
        cases hjoin
  refine ⟨hreturned, ?_⟩
  rw [hcourse.books.used, State.permits, flatMap_stopped _ rfl hall,
    (hcourse.returned result hreturned).2.1, hpending]
  rfl

/-! ## The shutdown -/

/-- However the threads go on, they come to an end, and the call has returned one of the errors
and has no permit out. -/
def ShutsDown (call : Call) (reader : Reader κ ρ) (actions : List Action) (s : State κ ρ) : Prop :=
  (∃ bound, ∀ more t, Run (step call reader) s more t → more.length ≤ bound) ∧
    ∀ more t, Run (step call reader) s more t → Halted (step call reader) t →
      t.used = 0 ∧ ∃ err ∈ failures (actions ++ more), t.returned = some (.error err)

theorem cost_lt_of_step (s : State κ ρ) (a : Action) (t : State κ ρ) (hcourse : Course call s)
    (hs : step call reader s a = some t) : t.cost call reader < s.cost call reader :=
  (move_of_step hs).cost_lt hcourse.books.permits_nodup

/-- Where something can fail, something can go on. -/
theorem exists_calm (s : State κ ρ) (a : Action) (t : State κ ρ)
    (hs : step call reader s a = some t) :
    ∃ b u, b.isFailure = false ∧ step call reader s b = some u := by
  cases a with
  | produce | worker | consumer | join => exact ⟨_, t, rfl, hs⟩
  | fault j err wake =>
      simp only [step, faultStep] at hs
      split at hs
      · rename_i seq r hj
        have hstep : ∃ u, workerStep call reader s j = some u := by
          rw [← Option.ne_none_iff_exists']
          intro hnone
          simp only [workerStep, hj] at hnone
          split at hnone <;> cases hnone
        obtain ⟨u, hu⟩ := hstep
        exact ⟨.worker j, u, rfl, hu⟩
      · cases hs
  | consumeFails err wake =>
      simp only [step, consumeFailsStep] at hs
      split at hs
      · rename_i expected hc
        split at hs
        · rename_i data pending htake
          by_cases hend : expected = call.batchCount
          · refine ⟨.consumer none, { s with consumer := .finished (.ok ()) }, rfl, ?_⟩
            simp only [step, consumerStep, hc, if_pos hend]
          · obtain ⟨wake, u, hrelease⟩ := exists_release { s with
              pending
              consumed := s.consumed ++ [data]
              consumer := .receiving (expected + 1) } (call.bytes expected)
            refine ⟨.consumer wake, u, rfl, ?_⟩
            simp only [step, consumerStep, hc, if_neg hend, htake]
            exact hrelease
        · cases hs
      · cases hs

/-- What does not fit never ends. -/
theorem not_returned_of_run {actions : List Action} (hrun : Run (step call reader) s actions t)
    (hcalm : ∀ a ∈ actions, a.isFailure = false) (hcourse : Course call s) (hgives : GivesUp s)
    (hdrains : ¬ Drains call s) : t.returned = none := by
  induction hrun with
  | nil s =>
      cases hreturned : s.returned with
      | none => rfl
      | some result =>
          exact absurd (drains_of_stopped hcourse (hcourse.returned result hreturned).2.2) hdrains
  | @cons s u t a actions hs hrun ih =>
      have hjoin : a ≠ .join := by
        rintro rfl
        cases move_of_step hs with
        | join hc hreturned hall hend => exact hdrains (drains_of_stopped hcourse hall)
      refine ih (fun b hb => hcalm b (List.mem_cons_of_mem _ hb)) (hcourse.step hs)
        (hgives.step (move_of_step hs)) fun hafter => hdrains ?_
      exact hafter.before hcourse.books hgives hs (hcalm a List.mem_cons_self) hjoin

theorem not_shutsDown {actions : List Action} (hcourse : Course call s)
    (hreach : Reaches (step call reader) s t) (hgives : GivesUp t) (hdrains : ¬ Drains call t) :
    ¬ ShutsDown call reader actions s := by
  rintro ⟨-, hends⟩
  obtain ⟨more, hmore⟩ := hreach
  have hstep : ∀ s a t, Course call s → step call reader s a = some t → Course call t :=
    fun _ _ _ hcourse hs => hcourse.step hs
  have hcourse' := hmore.invariant hcourse hstep
  obtain ⟨rest, u, hcalm, hrest, hhalted⟩ :=
    exists_halted hstep cost_lt_of_step exists_calm hcourse'
  obtain ⟨-, err, -, hreturned⟩ := hends (more ++ rest) u (hmore.append hrest) hhalted
  rw [not_returned_of_run hrest hcalm hcourse' hgives hdrains] at hreturned
  cases hreturned

/-- After a failure the pipeline shuts down if and only if whenever the consumer has given up, what
is still to come fits in the channel and in the budget. -/
theorem pipeline_shutsDown_iff (call : Call) (reader : Reader κ ρ) (cache : κ)
    (actions : List Action) (s : State κ ρ) (hrun : Run (step call reader) (initial call cache) actions s)
    (hfails : ∃ a ∈ actions, a.isFailure = true) :
    ShutsDown call reader actions s ↔
      ∀ t, Reaches (step call reader) s t → GivesUp t → Drains call t := by
  have hcourse : Course call s := .of_reaches ⟨actions, hrun⟩
  have hstep : ∀ s a t, Course call s → step call reader s a = some t → Course call t :=
    fun _ _ _ hcourse hs => hcourse.step hs
  constructor
  · intro hshuts t hreach hgives
    by_contra hdrains
    exact not_shutsDown hcourse hreach hgives hdrains hshuts
  · intro hdrains
    refine ⟨⟨s.cost call reader, fun more t hmore => ?_⟩, fun more t hmore hhalted => ?_⟩
    · have hle := hmore.length_add_le hstep cost_lt_of_step hcourse
      omega
    · have hall := hrun.append hmore
      have hcourse' := hmore.invariant hcourse hstep
      obtain ⟨a, ha, hfails⟩ := hfails
      obtain ⟨err, herr⟩ := carries_of_run hall (Course.initial cache)
        (.inr ⟨a, List.mem_append_left _ ha, hfails⟩)
      obtain ⟨last, hc⟩ := finished_of_halted hhalted hcourse' herr
      obtain ⟨hreturned, hused⟩ := returned_of_halted hhalted hcourse' (.of_reaches ⟨_, hall⟩)
        (hdrains t ⟨more, hmore⟩ ⟨last, .inr hc⟩) hc
      refine ⟨hused, last, ?_, hreturned⟩
      exact (blame_of_run hall (Course.initial cache) (.finished hc)).resolve_left fun h =>
        not_carries_initial cache h

/-- The callback fails on the first batch, and no other one has been received. -/
theorem exists_failed (reader : Reader κ ρ) (hcount : 0 < call.batchCount) (err : AnnError)
    (cache : κ) : ∃ actions s, Run (step call reader) (initial call cache) actions s ∧
      (∃ a ∈ actions, a.isFailure = true) ∧ GivesUp s ∧ s.outstanding call + 1 = call.batchCount := by
  have hget : (initial (ρ := ρ) call cache).workers[0]? = some .receiving := by
    rw [initial, List.getElem?_replicate, if_pos call.ioThreads_pos]
  have hlt := (List.getElem?_eq_some_iff.mp hget).1
  have htake := calm_take reader rfl hget hcount
  obtain ⟨last, data, hdeliver⟩ := calm_deliver call reader
    (s := { initial call cache with nextJob := 1 }.setWorker 0 (.acquiring 0))
    (List.getElem?_set_self hlt) ((Nat.zero_add _).symm ▸ call.bytes_le_capacity 0) rfl rfl
    (Nat.ne_of_lt hcount) rfl
  obtain ⟨actions, -, hrun⟩ := htake.trans hdeliver
  let s : State κ ρ := { { initial call cache with nextJob := 1 }.setWorker 0 (.acquiring 0) with
    used := 0 + call.bytes 0
    cache := last
    pending := Pending.put [] 0 data }.setWorker 0 .receiving
  have hrun : Run (step call reader) (initial call cache) actions s := hrun
  obtain ⟨wake, t, hrelease⟩ :=
    exists_release { s with pending := [], consumer := .dropping err } (call.bytes 0)
  have hstep : step call reader s (.consumeFails err wake) = some t := hrelease
  have hreleases := releases_of_release hrelease
  refine ⟨actions ++ [.consumeFails err wake], t, hrun.snoc hstep, ?_, ?_, ?_⟩
  · exact ⟨_, List.mem_append_right _ List.mem_cons_self, rfl⟩
  · exact ⟨err, .inl hreleases.consumer⟩
  · have hcounted := (Course.of_reaches ⟨actions, hrun⟩).counted 0 rfl
    rw [hreleases.outstanding]
    exact hcounted

/-- After the failed callback, the two sides of the equivalence for a concrete call. -/
theorem fourRowCall_shutsDown_iff :
    ∃ actions s, Run (step fourRowCall (wholeReader pairRow)) (initial fourRowCall ()) actions s ∧
      (∃ a ∈ actions, a.isFailure = true) ∧
      (ShutsDown fourRowCall (wholeReader pairRow) actions s ↔
        ∀ t, Reaches (step fourRowCall (wholeReader pairRow)) s t → GivesUp t →
          Drains fourRowCall t) := by
  have hcount : 0 < fourRowCall.batchCount := by
    rw [Call.batchCount, fourRowCall_chunkIds]
    decide
  obtain ⟨actions, s, hrun, hfails, -⟩ :=
    exists_failed (wholeReader pairRow) hcount (.index "callback") ()
  exact ⟨actions, s, hrun, hfails,
    pipeline_shutsDown_iff fourRowCall (wholeReader pairRow) () actions s hrun hfails⟩

/-- The callback fails on the first of eight batches: seven are still to come, and the channel has
room for four. -/
theorem fourRowCall_not_shutsDown :
    ¬ ∀ actions s, Run (step fourRowCall (wholeReader pairRow)) (initial fourRowCall ()) actions s →
      (∃ a ∈ actions, a.isFailure = true) →
        ShutsDown fourRowCall (wholeReader pairRow) actions s := by
  intro h
  have hcount : fourRowCall.batchCount = 8 := by rw [Call.batchCount, fourRowCall_chunkIds]; rfl
  have hpos : 0 < fourRowCall.batchCount := by omega
  obtain ⟨actions, s, hrun, hfails, hgives, hout⟩ :=
    exists_failed (wholeReader pairRow) hpos (.index "callback") ()
  refine not_shutsDown (.of_reaches ⟨actions, hrun⟩) (.refl s) hgives ?_ (h actions s hrun hfails)
  rintro ⟨hroom, -⟩
  have hdepth : fourRowCall.queueDepth = 4 := by decide
  omega

end PointPipeline

end ForgeANN
