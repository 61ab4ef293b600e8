-- SUMMARY: When the prefetch pipeline can finish from every state, and what it leaves in the gate.
import ForgeANN.Rbc.PrefetchRuns

/-!
# Leaving the prefetch pipeline

The consumer may leave at the first failure; the producer then still reads and
sends every chunk left, into a queue and through a gate that nobody empties any
more. Whether it can do so decides both that the pipeline never gets stuck and
what the call gives back to the gate.
-/
namespace ForgeANN

open Lib

namespace PrefetchCall

variable (call : PrefetchCall)

/-- Chunk `i` gets through the gate although nothing after the first failure is given back. -/
def Fits (i : Nat) : Prop :=
  ∀ gate, call.gate = some gate →
    call.permitBytes i = 0 ∨
      call.usedAtEntry + call.leftBehind i + call.permitBytes i ≤ gate.capacityBytes

/-- The chunks after the first failure fit the queue, and every chunk fits the gate. -/
structure Feasible : Prop where
  queue : call.batches.length ≤ call.firstFailure + 1 + call.effectiveQueueDepth
  gate : ∀ i < call.batches.length, call.Fits i

inductive Party where
  | producer
  | consumer

def State.Finished (s : State) : Party → Prop
  | .producer => s.ProducerDone
  | .consumer => s.ConsumerDone

/-- From every state reached each party can still finish. Where the other party has finished, the
    steps that lead there are the party's own. -/
def NeverStuck : Prop :=
  ∀ s, Reaches call.step call.initial s → ∀ party, ∃ t, Reaches call.step s t ∧ t.Finished party

/-- On success the callback has been given the chunks of the ids, one after the other. -/
def SeenInOrder : Prop :=
  ∀ s, Reaches call.step call.initial s → s.consumer = .done true →
    s.seen = call.batches ∧ s.seen.flatten = call.ids

/-- The gate is never overdrawn, and has what it had at entry when the call returns. -/
def PermitsConserved : Prop :=
  ∀ gate, call.gate = some gate → ∀ s, Reaches call.step call.initial s →
    s.usedBytes ≤ gate.capacityBytes ∧ (s.Exited → s.usedBytes = gate.usedBytes)

variable {call} {s s' t : State}

/-! ## What a run that returns has needed -/

theorem taken_le {pc : ConsumerPc} (hat : call.ConsumerAt pc) :
    call.taken pc ≤ call.firstFailure + 1 := by
  match pc with
  | .recv c => exact Nat.le_succ_of_le hat
  | .call c batch => exact Nat.succ_le_succ hat.1
  | .release c permitBytes ok => exact Nat.succ_le_succ hat.1
  | .done true =>
      have hend : call.firstFailure = call.batches.length := hat
      simp [hend]
  | .done false => exact Nat.le_refl _

/-- Of what has been sent, the part after the first failure is still in the queue. -/
theorem Inv.leftBehind_le (hi : call.Inv s) :
    call.leftBehind (call.sent s.producer) ≤ heldBy s.queue := by
  unfold leftBehind
  rcases Nat.le_total (call.sent s.producer) (call.firstFailure + 1) with h | h
  · rw [call.inFlight_of_le h]
    exact Nat.zero_le _
  · rw [hi.queue, call.inFlight_append (taken_le hi.consumer) h, heldBy_append]
    exact Nat.le_add_left _ _

/-- Every chunk that went through the gate fitted it. -/
def Admitted (call : PrefetchCall) (s : State) : Prop := ∀ i < call.acquired s.producer, call.Fits i

theorem Admitted.of_acquired_eq (h : call.Admitted s)
    (heq : call.acquired s'.producer = call.acquired s.producer) : call.Admitted s' :=
  fun i hlt => h i (heq ▸ hlt)

theorem Admitted.succ (h : call.Admitted s) {i : Nat} (hi : call.acquired s.producer = i)
    (heq : call.acquired s'.producer = i + 1) (hfits : call.Fits i) : call.Admitted s' := by
  intro j hlt
  rw [heq] at hlt
  rcases Nat.lt_or_eq_of_le (Nat.le_of_lt_succ hlt) with hj | rfl
  · exact h j (hi.symm ▸ hj)
  · exact hfits

theorem Fits.of_permitBytes {i : Nat} (h : call.permitBytes i = 0) : call.Fits i :=
  fun _ _ => .inl h

theorem Admitted.produce {spurious : Bool} (ha : call.Admitted s) (hi : call.Inv s)
    (h : call.produce spurious s = some s') : call.Admitted s' := by
  unfold PrefetchCall.produce at h
  have hat := hi.producer
  split at h
  · rename_i i hpc
    rw [hpc] at hat
    split_ifs at h with hlt
    · split at h
      · rename_i hnone
        cases h
        exact ha.succ (by simp [hpc]) rfl (.of_permitBytes (call.permitBytes_of_none hnone i))
      · rename_i gate hgate
        split_ifs at h with hpass
        · cases h
          exact ha.succ (by simp [hpc]) rfl (.of_permitBytes (permitBytes_of_passes hgate hpass))
        · cases h
          exact ha.of_acquired_eq (by simp [hpc])
    · cases h
      have hend : call.batches.length = i := Nat.le_antisymm (Nat.le_of_not_lt hlt) hat
      exact ha.of_acquired_eq (by simp [hpc, hend])
  · rename_i i hpc
    cases h
    exact ha.of_acquired_eq (by simp [hpc])
  · rename_i i current hpc
    rw [hpc] at hat
    obtain ⟨-, gate, hgate, -, hfit⟩ := hat
    simp only [hgate] at h
    split_ifs at h with hnext hcas
    · cases h
      refine ha.succ (by simp [hpc]) rfl fun gate' hgate' => .inr ?_
      cases hgate.symm.trans hgate'
      have hleft := hi.leftBehind_le
      have hused := hi.conserved
      rw [hpc] at hleft hused
      rw [permitBytes_of_fits hgate hfit]
      have hcur : s.usedBytes = current := hcas.1
      simp only [sent] at hleft
      omega
    · cases h
      exact ha.of_acquired_eq (by simp [hpc])
    · cases h
      exact ha.of_acquired_eq (by simp [hpc])
  · rename_i i permitBytes hpc
    split_ifs at h with hread
    · cases h
      exact ha.of_acquired_eq (by simp [hpc])
    · cases h
      exact ha.of_acquired_eq (by simp [hpc])
  · rename_i i message hpc
    split_ifs at h with hroom
    · cases h
      exact ha.of_acquired_eq (by simp [hpc])
    · cases h
      exact ha
  · cases h

theorem consume_producer (h : call.consume s = some s') : s'.producer = s.producer := by
  unfold PrefetchCall.consume at h
  repeat' split at h
  all_goals cases h
  all_goals rfl

theorem admitted_of_reaches (h : Reaches call.step call.initial s) : call.Admitted s := by
  have hboth : call.Inv s ∧ call.Admitted s := by
    apply h.invariant (P := fun s => call.Inv s ∧ call.Admitted s)
      ⟨inv_initial, fun i hlt => absurd hlt (Nat.not_lt_zero i)⟩
    intro s a s' ⟨hi, ha⟩ hs
    refine ⟨hi.step hs, ?_⟩
    cases a with
    | produce spurious => exact ha.produce hi hs
    | consume => exact ha.of_acquired_eq (by rw [consume_producer hs])
  exact hboth.2

/-- Once both threads are done, the queue holds what was sent after the first failure. -/
theorem Inv.exited (hi : call.Inv s) (h : s.Exited) :
    s.queue = call.inFlight (call.firstFailure + 1) call.batches.length := by
  obtain ⟨hp, ok, hc⟩ := h
  have hp : s.producer = .done := hp
  have hqueue := hi.queue
  have hat := hi.consumer
  rw [hp, hc] at hqueue
  rw [hc] at hat
  cases ok with
  | false => exact hqueue
  | true =>
      have hend : call.firstFailure = call.batches.length := hat
      rw [call.inFlight_of_le (by omega)]
      exact hqueue.trans (call.inFlight_self _)

theorem feasible_of_exited (hr : Reaches call.step call.initial s) (h : s.Exited) :
    call.Feasible := by
  have hi := inv_of_reaches hr
  have hqueue := hi.exited h
  have hfits := hi.fits
  rw [hqueue, length_inFlight] at hfits
  refine ⟨by omega, fun i hlt => admitted_of_reaches hr i ?_⟩
  have hp : s.producer = .done := h.1
  simpa [hp] using hlt

/-- What the call gives back to the gate when it returns. -/
theorem usedBytes_of_exited (hr : Reaches call.step call.initial s) (h : s.Exited) :
    s.usedBytes = call.usedAtEntry + call.leftBehind call.batches.length := by
  have hi := inv_of_reaches hr
  have hused := hi.conserved
  obtain ⟨ok, hc⟩ := h.2
  have hp : s.producer = .done := h.1
  rw [hi.exited h, hp, hc] at hused
  simpa [leftBehind] using hused

/-! ## The consumer runs until it waits -/

/-- The consumer has left, or stands before an empty queue. -/
def Waiting (call : PrefetchCall) (s : State) : Prop :=
  s.ConsumerDone ∨ (s.queue = [] ∧ ∃ c, s.consumer = .recv c ∧ c < call.batches.length)

def ConsumerPc.rank : ConsumerPc → Nat
  | .call _ _ => 3
  | .release _ _ _ => 2
  | .recv _ => 1
  | .done _ => 0

def consumerWork (s : State) : Nat := 3 * s.queue.length + s.consumer.rank

theorem consume_failed {c : Nat} {queue : List PrefetchMessage} (hpc : s.consumer = .recv c)
    (hlt : c < call.batches.length) (hqueue : s.queue = .failed :: queue) :
    call.consume s = some { s with queue, consumer := .done false } := by
  simp [PrefetchCall.consume, hpc, hlt, hqueue]

theorem consume_batch {c : Nat} {b : PrefetchedPointBatch} {queue : List PrefetchMessage}
    (hpc : s.consumer = .recv c) (hlt : c < call.batches.length)
    (hqueue : s.queue = .batch b :: queue) :
    call.consume s = some { s with queue, consumer := .call c b } := by
  simp [PrefetchCall.consume, hpc, hlt, hqueue]

theorem consume_end {c : Nat} (hpc : s.consumer = .recv c) (hge : ¬ c < call.batches.length) :
    call.consume s = some { s with consumer := .done true } := by
  simp [PrefetchCall.consume, hpc, hge]

theorem consume_call {c : Nat} {b : PrefetchedPointBatch} (hpc : s.consumer = .call c b) :
    call.consume s = some { s with
      seen := s.seen ++ [b.ids]
      consumer := .release c b.prefetchPermitBytes (call.callbackOk c) } := by
  simp [PrefetchCall.consume, hpc]

theorem consume_release {c permitBytes : Nat} {ok : Bool}
    (hpc : s.consumer = .release c permitBytes ok) :
    call.consume s = some { s with
      usedBytes := call.release s.usedBytes permitBytes
      consumer := if ok then .recv (c + 1) else .done false } := by
  simp [PrefetchCall.consume, hpc]

/-- A consumer that is not waiting has a step, which brings it nearer to its next wait. -/
theorem consume_progress (h : ¬ call.Waiting s) :
    ∃ s', call.consume s = some s' ∧ consumerWork s' < consumerWork s ∧
      s'.producer = s.producer := by
  cases hpc : s.consumer with
  | recv c =>
      by_cases hlt : c < call.batches.length
      · cases hqueue : s.queue with
        | nil => exact absurd (.inr ⟨hqueue, c, hpc, hlt⟩) h
        | cons m queue =>
            cases m with
            | failed =>
                refine ⟨_, consume_failed hpc hlt hqueue, ?_, rfl⟩
                simp only [consumerWork, ConsumerPc.rank, hpc, hqueue, List.length_cons]
                omega
            | batch b =>
                refine ⟨_, consume_batch hpc hlt hqueue, ?_, rfl⟩
                simp only [consumerWork, ConsumerPc.rank, hpc, hqueue, List.length_cons]
                omega
      · refine ⟨_, consume_end hpc hlt, ?_, rfl⟩
        simp [consumerWork, ConsumerPc.rank, hpc]
  | call c b =>
      refine ⟨_, consume_call hpc, ?_, rfl⟩
      simp [consumerWork, ConsumerPc.rank, hpc]
  | release c permitBytes ok =>
      refine ⟨_, consume_release hpc, ?_, rfl⟩
      cases ok <;> simp [consumerWork, ConsumerPc.rank, hpc]
  | done ok => exact absurd (.inl ⟨ok, hpc⟩) h

variable (call) in
theorem reaches_waiting (s : State) :
    ∃ t, Reaches call.step s t ∧ call.Waiting t ∧ t.producer = s.producer := by
  by_cases h : call.Waiting s
  · exact ⟨s, .refl s, h, rfl⟩
  · obtain ⟨u, hu, hlt, hup⟩ := consume_progress h
    obtain ⟨t, ht, hw, htp⟩ := reaches_waiting u
    exact ⟨t, .head (a := .consume) hu ht, hw, htp.trans hup⟩
termination_by consumerWork s

/-! ## The producer sends its chunk -/

/-- The queue has room, and the gate lets chunk `i` through. -/
structure Clear (call : PrefetchCall) (s : State) (i : Nat) : Prop where
  room : s.queue.length < call.effectiveQueueDepth
  gate : ∀ gate, call.gate = some gate →
    call.permitBytes i = 0 ∨ s.usedBytes + call.permitBytes i ≤ gate.capacityBytes

theorem effectiveQueueDepth_pos : 0 < call.effectiveQueueDepth := by
  unfold effectiveQueueDepth
  split
  · exact Nat.lt_of_lt_of_le Nat.zero_lt_one (Nat.le_max_right _ _)
  · exact Nat.lt_of_lt_of_le Nat.zero_lt_one (Nat.le_max_right _ _)

/-- A waiting consumer holds nothing, and what the queue holds was sent after the first failure. -/
theorem Inv.queue_of_waiting (hi : call.Inv s) (hw : call.Waiting s)
    (hlt : call.sent s.producer < call.batches.length) :
    s.consumer.heldBytes = 0 ∧ (s.queue = [] ∨
      s.queue = call.inFlight (call.firstFailure + 1) (call.sent s.producer)) := by
  rcases hw with ⟨ok, hc⟩ | ⟨hempty, c, hc, -⟩
  · have hqueue := hi.queue
    have horder := hi.order
    rw [hc] at hqueue horder
    refine ⟨by simp [hc], ?_⟩
    cases ok with
    | false => exact .inr hqueue
    | true => exact absurd horder (Nat.not_le.mpr hlt)
  · exact ⟨by simp [hc], .inl hempty⟩

theorem Inv.room (hi : call.Inv s) (hf : call.Feasible) (hw : call.Waiting s)
    (hlt : call.sent s.producer < call.batches.length) :
    s.queue.length < call.effectiveQueueDepth := by
  rcases (hi.queue_of_waiting hw hlt).2 with hqueue | hqueue
  · rw [hqueue]
    exact effectiveQueueDepth_pos
  · have hdepth := hf.queue
    have hpos : 0 < call.effectiveQueueDepth := effectiveQueueDepth_pos
    rw [hqueue, length_inFlight]
    omega

theorem Inv.clear (hi : call.Inv s) (hf : call.Feasible) (hw : call.Waiting s)
    (hlt : call.sent s.producer < call.batches.length) (hheld : s.producer.heldBytes = 0) :
    call.Clear s (call.sent s.producer) := by
  refine ⟨hi.room hf hw hlt, fun gate hgate => ?_⟩
  obtain ⟨hnone, hqueue⟩ := hi.queue_of_waiting hw hlt
  have hleft : heldBy s.queue ≤ call.leftBehind (call.sent s.producer) := by
    rcases hqueue with h | h
    · rw [h]
      exact Nat.zero_le _
    · rw [h]
      exact Nat.le_refl _
  have hused := hi.conserved
  rcases hf.gate _ hlt gate hgate with h | h
  · exact .inl h
  · exact .inr (by omega)

/-- The producer gets to the iteration after that of chunk `i`. -/
def Sends (call : PrefetchCall) (s : State) (i : Nat) : Prop :=
  ∃ t, Reaches call.step s t ∧ t.producer = .chunk (i + 1)

theorem Sends.step {spurious : Bool} {i : Nat} (h : call.produce spurious s = some s')
    (hs : call.Sends s' i) : call.Sends s i := by
  obtain ⟨t, ht, hp⟩ := hs
  exact ⟨t, .head (a := .produce spurious) h ht, hp⟩

theorem sends_send {i : Nat} {m : PrefetchMessage} (hpc : s.producer = .send i m)
    (hroom : s.queue.length < call.effectiveQueueDepth) : call.Sends s i := by
  have h : call.produce false s =
      some { s with queue := s.queue ++ [m], producer := .chunk (i + 1) } := by
    simp [PrefetchCall.produce, hpc, hroom]
  exact .step h ⟨_, .refl _, rfl⟩

theorem sends_read {i permitBytes : Nat} (hpc : s.producer = .read i permitBytes)
    (hroom : s.queue.length < call.effectiveQueueDepth) : call.Sends s i := by
  by_cases hread : call.readOk i = true
  · have h : call.produce false s =
        some { s with producer := .send i (.batch ⟨call.chunk i, permitBytes⟩) } := by
      simp [PrefetchCall.produce, hpc, hread]
    exact .step h (sends_send rfl hroom)
  · have h : call.produce false s = some { s with
        usedBytes := call.release s.usedBytes permitBytes
        producer := .send i .failed } := by
      simp [PrefetchCall.produce, hpc, hread]
    exact .step h (sends_send rfl hroom)

/-- On a fresh reading of the gate the compare-exchange succeeds. -/
theorem sends_cas_fresh {i : Nat} (hc : call.Clear s i) (hat : call.ProducerAt (.cas i s.usedBytes))
    (hpc : s.producer = .cas i s.usedBytes) : call.Sends s i := by
  obtain ⟨hlt, gate, hgate, hpos, hfit⟩ := hat
  have hnext : s.usedBytes + call.batchBytes i ≤ gate.capacityBytes := by
    have hclear := hc.gate gate hgate
    rw [permitBytes_of_fits hgate hfit] at hclear
    omega
  have h : call.produce false s = some { s with
      usedBytes := s.usedBytes + call.batchBytes i
      producer := .read i (call.batchBytes i) } := by
    simp [PrefetchCall.produce, hpc, hgate, hnext]
  exact .step h (sends_read rfl hc.room)

theorem sends_load {i : Nat} (hc : call.Clear s i) (hat : call.ProducerAt (.load i))
    (hpc : s.producer = .load i) : call.Sends s i := by
  have h : call.produce false s = some { s with producer := .cas i s.usedBytes } := by
    simp [PrefetchCall.produce, hpc]
  exact .step h (sends_cas_fresh ⟨hc.room, hc.gate⟩ hat rfl)

/-- A stale reading is given up, or replaced by the one a failed compare-exchange leaves behind. -/
theorem sends_cas {i current : Nat} (hc : call.Clear s i) (hat : call.ProducerAt (.cas i current))
    (hpc : s.producer = .cas i current) : call.Sends s i := by
  obtain ⟨-, gate, hgate, -⟩ := id hat
  by_cases hnext : current + call.batchBytes i ≤ gate.capacityBytes
  · have h : call.produce true s = some { s with producer := .cas i s.usedBytes } := by
      simp [PrefetchCall.produce, hpc, hgate, hnext]
    exact .step h (sends_cas_fresh ⟨hc.room, hc.gate⟩ hat rfl)
  · have h : call.produce false s = some { s with producer := .load i } := by
      simp [PrefetchCall.produce, hpc, hgate, hnext]
    exact .step h (sends_load ⟨hc.room, hc.gate⟩ hat rfl)

theorem sends_chunk {i : Nat} (hc : call.Clear s i) (hlt : i < call.batches.length)
    (hpc : s.producer = .chunk i) : call.Sends s i := by
  cases hgate : call.gate with
  | none =>
      have h : call.produce false s = some { s with producer := .read i 0 } := by
        simp [PrefetchCall.produce, hpc, hlt, hgate]
      exact .step h (sends_read rfl hc.room)
  | some gate =>
      by_cases hpass : call.batchBytes i = 0 ∨ gate.capacityBytes < call.batchBytes i
      · have h : call.produce false s = some { s with producer := .read i 0 } := by
          simp only [PrefetchCall.produce, hpc, hlt, hgate, hpass, if_true]
        exact .step h (sends_read rfl hc.room)
      · have h : call.produce false s = some { s with producer := .load i } := by
          simp only [PrefetchCall.produce, hpc, hlt, hgate, hpass, if_true, if_false]
        have hat : call.ProducerAt (.load i) := by
          refine ⟨hlt, gate, hgate, Nat.pos_of_ne_zero fun h => hpass (.inl h), ?_⟩
          exact Nat.le_of_not_lt fun h => hpass (.inr h)
        exact .step h (sends_load ⟨hc.room, hc.gate⟩ hat rfl)

/-- With the consumer waiting, the producer gets its chunk into the queue. -/
theorem Inv.sends (hi : call.Inv s) (hf : call.Feasible) (hw : call.Waiting s)
    (hlt : call.sent s.producer < call.batches.length) :
    call.Sends s (call.sent s.producer) := by
  have hroom := hi.room hf hw hlt
  have hclear := hi.clear hf hw hlt
  have hat := hi.producer
  cases hpc : s.producer with
  | chunk i =>
      rw [hpc] at hclear hlt
      exact sends_chunk (hclear rfl) hlt hpc
  | load i =>
      rw [hpc] at hclear hat
      exact sends_load (hclear rfl) hat hpc
  | cas i current =>
      rw [hpc] at hclear hat
      exact sends_cas (hclear rfl) hat hpc
  | read i permitBytes => exact sends_read hpc hroom
  | send i m => exact sends_send hpc hroom
  | done =>
      rw [hpc] at hlt
      exact absurd hlt (Nat.lt_irrefl _)

/-! ## Both get to the end -/

theorem Inv.reaches_producerDone {s : State} (hi : call.Inv s) (hf : call.Feasible) :
    ∃ t, Reaches call.step s t ∧ t.ProducerDone := by
  obtain ⟨u, hu, hw, hup⟩ := call.reaches_waiting s
  have hiu : call.Inv u := hu.invariant hi fun _ _ _ hi hs => hi.step hs
  by_cases hlt : call.sent u.producer < call.batches.length
  · obtain ⟨v, hv, hvp⟩ := hiu.sends hf hw hlt
    have hiv : call.Inv v := hv.invariant hiu fun _ _ _ hi hs => hi.step hs
    have hmeasure : call.batches.length - call.sent v.producer <
        call.batches.length - call.sent s.producer := by
      rw [hup] at hlt hvp
      rw [hvp]
      simp only [sent] at hlt ⊢
      omega
    obtain ⟨t, ht, hd⟩ := hiv.reaches_producerDone hf
    exact ⟨t, hu.trans (hv.trans ht), hd⟩
  · have hat := hiu.producer
    cases hpc : u.producer with
    | done => exact ⟨u, hu, hpc⟩
    | chunk i =>
        have hge : ¬ i < call.batches.length := by simpa [hpc] using hlt
        have h : call.produce false u = some { u with producer := .done } := by
          simp only [PrefetchCall.produce, hpc, if_neg hge]
        exact ⟨_, hu.tail (a := .produce false) h, rfl⟩
    | load i => exact absurd (hpc ▸ hat).1 (by rwa [hpc] at hlt)
    | cas i current => exact absurd (hpc ▸ hat).1 (by rwa [hpc] at hlt)
    | read i permitBytes => exact absurd (hpc ▸ hat).1 (by rwa [hpc] at hlt)
    | send i m => exact absurd (hpc ▸ hat).1 (by rwa [hpc] at hlt)
termination_by call.batches.length - call.sent s.producer

theorem Inv.reaches_exited (hi : call.Inv s) (hf : call.Feasible) :
    ∃ t, Reaches call.step s t ∧ t.Exited := by
  obtain ⟨u, hu, hd⟩ := hi.reaches_producerDone hf
  obtain ⟨t, ht, hw, htp⟩ := call.reaches_waiting u
  have htd : t.ProducerDone := htp.trans hd
  have hit : call.Inv t := (hu.trans ht).invariant hi fun _ _ _ hi hs => hi.step hs
  rcases hw with hc | ⟨hempty, c, hc, hlt⟩
  · exact ⟨t, hu.trans ht, htd, hc⟩
  · -- everything has been sent, so the queue is not empty before the last chunk
    have hp : t.producer = .done := htd
    have hqueue := hit.queue
    rw [hempty, hc, hp] at hqueue
    simp only [taken, sent] at hqueue
    rw [call.inFlight_cons hlt] at hqueue
    cases hqueue

theorem produce_of_done (h : s.ProducerDone) (spurious : Bool) : call.produce spurious s = none := by
  have hp : s.producer = .done := h
  simp [PrefetchCall.produce, hp]

theorem ProducerDone.reaches (h : s.ProducerDone) (hr : Reaches call.step s t) : t.ProducerDone := by
  apply hr.invariant (P := State.ProducerDone) h
  intro s a s' h hs
  cases a with
  | produce spurious =>
      have hnone : call.produce spurious s = none := produce_of_done h spurious
      cases hnone.symm.trans hs
  | consume => exact (consume_producer hs).trans h

theorem feasible_of_neverStuck (h : call.NeverStuck) : call.Feasible := by
  obtain ⟨s, hs, hp⟩ := h call.initial (.refl _) .producer
  obtain ⟨t, ht, hc⟩ := h s hs .consumer
  exact feasible_of_exited (hs.trans ht) ⟨ProducerDone.reaches hp ht, hc⟩

theorem neverStuck_of_feasible (hf : call.Feasible) : call.NeverStuck := by
  intro s hs party
  obtain ⟨t, ht, hp, hc⟩ := (inv_of_reaches hs).reaches_exited hf
  cases party with
  | producer => exact ⟨t, ht, hp⟩
  | consumer => exact ⟨t, ht, hc⟩

theorem effectiveBatchPoints_pos : 0 < call.effectiveBatchPoints := by
  unfold effectiveBatchPoints
  split
  · omega
  · omega

theorem seenInOrder : call.SeenInOrder := by
  intro s hs hdone
  have hseen := (inv_of_reaches hs).seen
  rw [hdone] at hseen
  have hall : s.seen = call.batches := by simpa using hseen
  refine ⟨hall, ?_⟩
  rw [hall]
  exact chunks_flatten effectiveBatchPoints_pos call.ids

/-- The pipeline never gets stuck, and shows the callback every chunk, exactly when the chunks after
    the first failure fit the queue and every chunk fits the gate. -/
theorem neverStuck_and_seenInOrder_iff (call : PrefetchCall) :
    call.NeverStuck ∧ call.SeenInOrder ↔ call.Feasible :=
  ⟨fun h => feasible_of_neverStuck h.1, fun h => ⟨neverStuck_of_feasible h, seenInOrder⟩⟩

/-- Three chunks of one row, a queue of one, and a callback that fails at once. -/
def threeChunks : PrefetchCall where
  ids := [0, 1, 2]
  dim := 1
  batchPoints := 1
  queueDepth := 1
  strictConfig := none
  strictGate := none
  readOk := fun _ => true
  callbackOk := fun _ => false

theorem threeChunks_batches : threeChunks.batches = [[0], [1], [2]] := by
  simp [threeChunks, batches, chunks, effectiveBatchPoints, budgetConfig, enabledConfig]

/-- The consumer leaves at the first chunk; the third finds the queue full for ever. -/
theorem threeChunks_stuck : ¬ (threeChunks.NeverStuck ∧ threeChunks.SeenInOrder) := by
  intro h
  have hqueue := (feasible_of_neverStuck h.1).queue
  have hfirst : threeChunks.firstFailure = 0 := by
    simp [firstFailure, threeChunks_batches]
    decide
  rw [threeChunks_batches, hfirst] at hqueue
  exact absurd hqueue (by decide)

/-! ## What the gate is left with -/

/-- A chunk that is read after the first failure keeps its permit for ever. -/
theorem leftBehind_eq_zero_iff :
    call.leftBehind call.batches.length = 0 ↔
      ∀ i, call.firstFailure < i → i < call.batches.length → call.readOk i = true →
        call.permitBytes i = 0 := by
  have hread : ∀ i, (call.message i).permitBytes = 0 ↔
      (call.readOk i = true → call.permitBytes i = 0) := by
    intro i
    rw [permitBytes_message]
    split_ifs with h <;> simp [h]
  simp only [leftBehind, heldBy, inFlight, List.sum_eq_zero_iff_forall_eq_nat, List.mem_map,
    List.mem_range'_1]
  constructor
  · intro h i hi hlt
    apply (hread i).mp
    exact h _ ⟨_, ⟨i, ⟨hi, by omega⟩, rfl⟩, rfl⟩
  · rintro h _ ⟨_, ⟨i, ⟨hi, hlt⟩, rfl⟩, rfl⟩
    exact (hread i).mpr (h i hi (by omega))

/-- A call that can return leaves its gate as it found it only if nothing is left behind. -/
theorem leftBehind_of_permitsConserved (h : call.PermitsConserved) (hf : call.Feasible)
    {gate : StrictPrefetchGate} (hgate : call.gate = some gate) :
    call.leftBehind call.batches.length = 0 := by
  obtain ⟨t, ht, hexit⟩ := inv_initial.reaches_exited hf
  have hused := (h gate hgate t ht).2 hexit
  rw [usedBytes_of_exited ht hexit, usedAtEntry_of_gate hgate] at hused
  omega

/-- The permits are conserved exactly when the gate is not overdrawn at entry and, where the call
    can return at all, no chunk read after the first failure holds a permit. -/
theorem permitsConserved_iff (call : PrefetchCall) :
    call.PermitsConserved ↔
      ∀ gate, call.gate = some gate → gate.usedBytes ≤ gate.capacityBytes ∧
        (call.Feasible → ∀ i, call.firstFailure < i → i < call.batches.length →
          call.readOk i = true → call.permitBytes i = 0) := by
  constructor
  · intro h gate hgate
    refine ⟨?_, fun hf => leftBehind_eq_zero_iff.mp (leftBehind_of_permitsConserved h hf hgate)⟩
    have hentry := (h gate hgate call.initial (.refl _)).1
    rwa [initial, usedAtEntry_of_gate hgate] at hentry
  · intro h gate hgate s hs
    obtain ⟨hle, hleft⟩ := h gate hgate
    refine ⟨(inv_of_reaches hs).within gate hgate hle, fun hexit => ?_⟩
    rw [usedBytes_of_exited hs hexit, usedAtEntry_of_gate hgate,
      leftBehind_eq_zero_iff.mpr (hleft (feasible_of_exited hs hexit)), Nat.add_zero]

/-- Two chunks of four bytes, a gate of eight bytes, and a callback that fails at once. -/
def twoChunks : PrefetchCall where
  ids := [0, 1]
  dim := 1
  batchPoints := 1
  queueDepth := 1
  strictConfig := none
  strictGate := some ⟨8, 0⟩
  readOk := fun _ => true
  callbackOk := fun _ => false

theorem twoChunks_batches : twoChunks.batches = [[0], [1]] := by
  simp [twoChunks, batches, chunks, effectiveBatchPoints, budgetConfig, enabledConfig]

/-- The second chunk is dropped in the queue with its permit. -/
theorem twoChunks_leaks : ¬ twoChunks.PermitsConserved := by
  intro h
  have hfirst : twoChunks.firstFailure = 0 := by
    simp [firstFailure, twoChunks_batches]
    decide
  have hpermit : ∀ i < 2, twoChunks.permitBytes i = 4 := by
    intro i hi
    have hi : i = 0 ∨ i = 1 := by omega
    rcases hi with rfl | rfl
    · simp [permitBytes, batchBytes, chunk, twoChunks_batches]
      decide
    · simp [permitBytes, batchBytes, chunk, twoChunks_batches]
      decide
  have hf : twoChunks.Feasible := by
    refine ⟨by rw [twoChunks_batches, hfirst]; decide, fun i hi gate hgate => ?_⟩
    rw [twoChunks_batches] at hi
    cases hgate
    have hleft : twoChunks.leftBehind i = 0 := by
      have hle : i ≤ 0 + 1 := Nat.le_of_lt_succ hi
      rw [leftBehind, hfirst, inFlight_of_le _ hle, heldBy_nil]
    rw [hpermit i hi, hleft]
    exact .inr (by decide)
  have hzero := leftBehind_eq_zero_iff.mp (leftBehind_of_permitsConserved h hf rfl) 1
    (by rw [hfirst]; decide) (by rw [twoChunks_batches]; decide) rfl
  rw [hpermit 1 (by decide)] at hzero
  cases hzero

end PrefetchCall

end ForgeANN
