-- SUMMARY: What holds along every run of the prefetch pipeline: its messages in order, its permits conserved.
import ForgeANN.Rbc.Prefetch

/-!
# Runs of the prefetch pipeline

The queue holds the messages of the chunks sent and not yet taken, in order, and
the gate's count is what it was at entry plus what the two threads and the queue
hold. Both are kept by every step of either thread.
-/
namespace ForgeANN

open Lib

namespace PrefetchCall

variable (call : PrefetchCall)

/-! ## Where the threads stand -/

/-- How many messages have been sent. -/
@[simp] def sent : ProducerPc → Nat
  | .chunk i | .load i | .cas i _ | .read i _ | .send i _ => i
  | .done => call.batches.length

/-- How many chunks have been through the gate. -/
@[simp] def acquired : ProducerPc → Nat
  | .chunk i | .load i | .cas i _ => i
  | .read i _ | .send i _ => i + 1
  | .done => call.batches.length

@[simp] def ProducerPc.heldBytes : ProducerPc → Nat
  | .read _ permitBytes => permitBytes
  | .send _ message => message.permitBytes
  | _ => 0

/-- How many messages have been received. -/
@[simp] def taken : ConsumerPc → Nat
  | .recv c => c
  | .call c _ | .release c _ _ => c + 1
  | .done true => call.batches.length
  | .done false => call.firstFailure + 1

/-- How many chunks the callback has been given. -/
@[simp] def handed : ConsumerPc → Nat
  | .recv c | .call c _ => c
  | .release c _ _ => c + 1
  | .done true => call.batches.length
  | .done false => if call.readOk call.firstFailure then call.firstFailure + 1 else call.firstFailure

@[simp] def ConsumerPc.heldBytes : ConsumerPc → Nat
  | .call _ batch => batch.prefetchPermitBytes
  | .release _ permitBytes _ => permitBytes
  | _ => 0

/-- What the producer knows at each place. -/
def ProducerAt : ProducerPc → Prop
  | .chunk i => i ≤ call.batches.length
  | .load i | .cas i _ =>
      i < call.batches.length ∧
        ∃ gate, call.gate = some gate ∧ 0 < call.batchBytes i ∧
          call.batchBytes i ≤ gate.capacityBytes
  | .read i permitBytes => i < call.batches.length ∧ permitBytes = call.permitBytes i
  | .send i message => i < call.batches.length ∧ message = call.message i
  | .done => True

/-- What the consumer knows at each place: nothing before its chunk has failed. -/
def ConsumerAt : ConsumerPc → Prop
  | .recv c => c ≤ call.firstFailure
  | .call c batch =>
      c ≤ call.firstFailure ∧ c < call.batches.length ∧ call.readOk c = true ∧
        batch = ⟨call.chunk c, call.permitBytes c⟩
  | .release c permitBytes ok =>
      c ≤ call.firstFailure ∧ c < call.batches.length ∧ call.readOk c = true ∧
        permitBytes = call.permitBytes c ∧ ok = call.callbackOk c
  | .done true => call.firstFailure = call.batches.length
  | .done false => call.firstFailure < call.batches.length

/-- The gate is not overdrawn, provided it was not at entry. -/
def Within (usedBytes : Nat) : Prop :=
  ∀ gate, call.gate = some gate → gate.usedBytes ≤ gate.capacityBytes → usedBytes ≤ gate.capacityBytes

structure Inv (s : State) : Prop where
  producer : call.ProducerAt s.producer
  consumer : call.ConsumerAt s.consumer
  order : call.taken s.consumer ≤ call.sent s.producer
  queue : s.queue = call.inFlight (call.taken s.consumer) (call.sent s.producer)
  fits : s.queue.length ≤ call.effectiveQueueDepth
  seen : s.seen = call.batches.take (call.handed s.consumer)
  conserved : s.usedBytes =
    call.usedAtEntry + s.producer.heldBytes + s.consumer.heldBytes + heldBy s.queue
  within : call.Within s.usedBytes

variable {call}

theorem usedAtEntry_of_gate {gate : StrictPrefetchGate} (h : call.gate = some gate) :
    call.usedAtEntry = gate.usedBytes := by
  simp [usedAtEntry, h]

theorem inv_initial : call.Inv call.initial where
  producer := Nat.zero_le _
  consumer := Nat.zero_le _
  order := Nat.le_refl _
  queue := by simp [initial]
  fits := Nat.zero_le _
  seen := by simp [initial]
  conserved := by simp [initial]
  within := by
    intro gate hgate hle
    simpa [initial, usedAtEntry_of_gate hgate] using hle

/-- A release never takes more from the gate than is there for it, gate or no gate. -/
theorem release_permitBytes (usedBytes i : Nat) :
    call.release usedBytes (call.permitBytes i) = usedBytes - call.permitBytes i := by
  unfold release
  split
  · rfl
  · rename_i hnone
    rw [call.permitBytes_of_none hnone, Nat.sub_zero]

theorem release_le (usedBytes bytes : Nat) : call.release usedBytes bytes ≤ usedBytes := by
  unfold release
  split
  · exact Nat.sub_le _ _
  · exact Nat.le_refl _

theorem permitBytes_message (i : Nat) :
    (call.message i).permitBytes = if call.readOk i then call.permitBytes i else 0 := by
  unfold message
  split <;> rfl

/-- A chunk that fits the gate asks for all its bytes. -/
theorem permitBytes_of_fits {gate : StrictPrefetchGate} {i : Nat} (hgate : call.gate = some gate)
    (h : call.batchBytes i ≤ gate.capacityBytes) : call.permitBytes i = call.batchBytes i := by
  rw [call.permitBytes_of_gate hgate, if_neg (Nat.not_lt.mpr h)]

/-- A chunk the gate lets pass without counting it has no permit. -/
theorem permitBytes_of_passes {gate : StrictPrefetchGate} {i : Nat} (hgate : call.gate = some gate)
    (h : call.batchBytes i = 0 ∨ gate.capacityBytes < call.batchBytes i) :
    call.permitBytes i = 0 := by
  rw [call.permitBytes_of_gate hgate]
  rcases h with h | h
  · simp [h]
  · simp [h]

/-! ## Steps of the producer -/

section

variable {s s' : State} {spurious : Bool}

/-- A step of the producer that sends nothing and accounts for what it takes or gives back. -/
theorem Inv.moveProducer (hi : call.Inv s) {pc : ProducerPc} {usedBytes : Nat}
    (hat : call.ProducerAt pc) (hsent : call.sent pc = call.sent s.producer)
    (hheld : usedBytes + s.producer.heldBytes = s.usedBytes + pc.heldBytes)
    (hwithin : call.Within usedBytes) :
    call.Inv { s with usedBytes, producer := pc } where
  producer := hat
  consumer := hi.consumer
  order := hsent ▸ hi.order
  queue := by simpa only [hsent] using hi.queue
  fits := hi.fits
  seen := hi.seen
  conserved := by
    have h := hi.conserved
    simp only
    omega
  within := hwithin

theorem Inv.send (hi : call.Inv s) {i : Nat} (hlt : i < call.batches.length)
    (hpc : s.producer = .send i (call.message i))
    (hroom : s.queue.length < call.effectiveQueueDepth) :
    call.Inv { s with queue := s.queue ++ [call.message i], producer := .chunk (i + 1) } := by
  have horder : call.taken s.consumer ≤ i := by simpa [hpc] using hi.order
  have hqueue : s.queue = call.inFlight (call.taken s.consumer) i := by simpa [hpc] using hi.queue
  have hused := hi.conserved
  rw [hpc] at hused
  exact {
    producer := hlt
    consumer := hi.consumer
    order := Nat.le_succ_of_le horder
    queue := by
      rw [hqueue]
      exact (call.inFlight_succ horder).symm
    fits := by simpa using Nat.succ_le_of_lt hroom
    seen := hi.seen
    conserved := by
      simp only [ProducerPc.heldBytes, heldBy_append, heldBy_cons, heldBy_nil] at hused ⊢
      omega
    within := hi.within }

theorem Inv.produce (hi : call.Inv s) (h : call.produce spurious s = some s') : call.Inv s' := by
  unfold PrefetchCall.produce at h
  have hat := hi.producer
  split at h
  · rename_i i hpc
    rw [hpc] at hat
    split_ifs at h with hlt
    · split at h
      · rename_i hnone
        cases h
        exact hi.moveProducer ⟨hlt, (call.permitBytes_of_none hnone i).symm⟩ (by simp [hpc])
          (by simp [hpc]) hi.within
      · rename_i gate hgate
        split_ifs at h with hpass
        · cases h
          exact hi.moveProducer ⟨hlt, (permitBytes_of_passes hgate hpass).symm⟩ (by simp [hpc])
            (by simp [hpc]) hi.within
        · cases h
          have hpos : 0 < call.batchBytes i := Nat.pos_of_ne_zero fun h => hpass (.inl h)
          have hfit : call.batchBytes i ≤ gate.capacityBytes :=
            Nat.le_of_not_lt fun hgt => hpass (.inr hgt)
          exact hi.moveProducer ⟨hlt, gate, hgate, hpos, hfit⟩ (by simp [hpc]) (by simp [hpc]) hi.within
    · cases h
      have hend : call.batches.length = i := Nat.le_antisymm (Nat.le_of_not_lt hlt) hat
      exact hi.moveProducer trivial (by simp [hpc, hend]) (by simp [hpc]) hi.within
  · rename_i i hpc
    rw [hpc] at hat
    cases h
    exact hi.moveProducer hat (by simp [hpc]) (by simp [hpc]) hi.within
  · rename_i i current hpc
    rw [hpc] at hat
    obtain ⟨hlt, gate, hgate, hpos, hfit⟩ := hat
    simp only [hgate] at h
    split_ifs at h with hnext hcas
    · cases h
      refine hi.moveProducer ⟨hlt, (permitBytes_of_fits hgate hfit).symm⟩ (by simp [hpc])
        (by simp [hpc, hcas.1]) fun gate' hgate' _ => ?_
      cases hgate.symm.trans hgate'
      exact hnext
    · cases h
      exact hi.moveProducer ⟨hlt, gate, hgate, hpos, hfit⟩ (by simp [hpc]) (by simp [hpc]) hi.within
    · cases h
      exact hi.moveProducer ⟨hlt, gate, hgate, hpos, hfit⟩ (by simp [hpc]) (by simp [hpc]) hi.within
  · rename_i i permitBytes hpc
    rw [hpc] at hat
    obtain ⟨hlt, rfl⟩ := hat
    split_ifs at h with hread
    · cases h
      exact hi.moveProducer ⟨hlt, by simp [message, hread]⟩ (by simp [hpc]) (by simp [hpc]) hi.within
    · cases h
      have hused := hi.conserved
      rw [hpc] at hused
      refine hi.moveProducer ⟨hlt, by simp [message, hread]⟩ (by simp [hpc]) ?_
        fun gate hgate hle => (release_le _ _).trans (hi.within gate hgate hle)
      rw [release_permitBytes, hpc]
      simp only [ProducerPc.heldBytes, PrefetchMessage.permitBytes] at hused ⊢
      omega
  · rename_i i message hpc
    rw [hpc] at hat
    obtain ⟨hlt, rfl⟩ := hat
    split_ifs at h with hroom
    · cases h
      exact hi.send hlt hpc hroom
    · cases h
      exact hi
  · cases h

/-! ## Steps of the consumer -/

/-- A step of the consumer that receives nothing. -/
theorem Inv.moveConsumer (hi : call.Inv s) {pc : ConsumerPc} {usedBytes : Nat}
    {seen : List (List UInt32)} (hat : call.ConsumerAt pc)
    (htaken : call.taken pc = call.taken s.consumer)
    (hseen : seen = call.batches.take (call.handed pc))
    (hheld : usedBytes + s.consumer.heldBytes = s.usedBytes + pc.heldBytes)
    (hle : usedBytes ≤ s.usedBytes) :
    call.Inv { s with usedBytes, seen, consumer := pc } where
  producer := hi.producer
  consumer := hat
  order := htaken ▸ hi.order
  queue := by simpa only [htaken] using hi.queue
  fits := hi.fits
  seen := hseen
  conserved := by
    have h := hi.conserved
    simp only
    omega
  within := fun gate hgate h => hle.trans (hi.within gate hgate h)

theorem sent_le {pc : ProducerPc} (hat : call.ProducerAt pc) : call.sent pc ≤ call.batches.length := by
  cases pc with
  | chunk i => exact hat
  | load i => exact Nat.le_of_lt hat.1
  | cas i current => exact Nat.le_of_lt hat.1
  | read i permitBytes => exact Nat.le_of_lt hat.1
  | send i message => exact Nat.le_of_lt hat.1
  | done => exact Nat.le_refl _

/-- Receiving takes the oldest message, and with it what it holds. -/
theorem Inv.recv (hi : call.Inv s) {c : Nat} {pc : ConsumerPc} {m : PrefetchMessage}
    {queue : List PrefetchMessage} (hpc : s.consumer = .recv c) (hqueue : s.queue = m :: queue)
    (hnext : m = call.message c → c < call.batches.length →
      call.ConsumerAt pc ∧ call.taken pc = c + 1 ∧ call.handed pc = c)
    (hheld : pc.heldBytes = m.permitBytes) :
    call.Inv { s with queue, consumer := pc } := by
  have hall : m :: queue = call.inFlight c (call.sent s.producer) := by
    simpa [hpc, hqueue] using hi.queue
  have hlt : c < call.sent s.producer := by
    by_contra hge
    rw [call.inFlight_of_le (Nat.le_of_not_lt hge)] at hall
    cases hall
  rw [call.inFlight_cons hlt] at hall
  obtain ⟨hm, htail⟩ := List.cons.inj hall
  obtain ⟨hat, htaken, hhanded⟩ := hnext hm (hlt.trans_le (sent_le hi.producer))
  have hused := hi.conserved
  have hrecv : (ConsumerPc.recv c).heldBytes = 0 := rfl
  rw [hpc, hqueue, hrecv, heldBy_cons, ← hheld] at hused
  have hfits := hi.fits
  rw [hqueue] at hfits
  have hseen := hi.seen
  rw [hpc] at hseen
  exact {
    producer := hi.producer
    consumer := hat
    order := by
      rw [htaken]
      exact hlt
    queue := by
      rw [htaken]
      exact htail
    fits := Nat.le_of_succ_le hfits
    seen := by
      rw [hhanded]
      exact hseen
    conserved := by
      simp only
      omega
    within := hi.within }

theorem Inv.consume (hi : call.Inv s) (h : call.consume s = some s') : call.Inv s' := by
  unfold PrefetchCall.consume at h
  have hat := hi.consumer
  split at h
  · rename_i c hpc
    rw [hpc] at hat
    split_ifs at h with hlt
    · split at h
      · rename_i hqueue
        split at h
        · rename_i hdone
          -- a producer that is done has sent everything, so the queue cannot run dry before the end
          have hempty : call.inFlight c call.batches.length = [] := by
            simpa [hpc, hqueue, hdone] using hi.queue.symm
          rw [call.inFlight_cons hlt] at hempty
          cases hempty
        · cases h
      · rename_i queue hqueue
        cases h
        apply hi.recv hpc hqueue
        · intro hm hlt
          have hread : call.readOk c = false := by simpa [message] using hm
          have hfirst : call.firstFailure = c := by
            apply Nat.le_antisymm _ hat
            apply Nat.le_of_not_lt
            intro hgt
            rw [(call.ok_of_lt_firstFailure hgt).1] at hread
            cases hread
          subst hfirst
          exact ⟨hlt, rfl, by simp [hread]⟩
        · rfl
      · rename_i batch queue hqueue
        cases h
        apply hi.recv hpc hqueue
        · intro hm hlt
          have hread : call.readOk c = true := by
            by_contra hread
            simp [message, hread] at hm
          have hbatch : batch = ⟨call.chunk c, call.permitBytes c⟩ := by
            simpa [message, hread] using hm
          exact ⟨⟨hat, hlt, hread, hbatch⟩, rfl, rfl⟩
        · rfl
    · cases h
      have hend : call.firstFailure = call.batches.length :=
        Nat.le_antisymm call.firstFailure_le ((Nat.le_of_not_lt hlt).trans hat)
      have hc : c = call.batches.length :=
        Nat.le_antisymm (hat.trans call.firstFailure_le) (Nat.le_of_not_lt hlt)
      exact hi.moveConsumer hend (by simp [hpc, hc]) (by simpa [hpc, hc] using hi.seen)
        (by simp [hpc]) (Nat.le_refl _)
  · rename_i c batch hpc
    rw [hpc] at hat
    obtain ⟨hle, hlt, hread, rfl⟩ := hat
    cases h
    refine hi.moveConsumer ⟨hle, hlt, hread, rfl, rfl⟩ (by simp [hpc]) ?_ (by simp [hpc])
      (Nat.le_refl _)
    have hseen : s.seen = call.batches.take c := by simpa [hpc] using hi.seen
    have hchunk : call.chunk c = call.batches[c] := by simp [chunk, hlt]
    rw [hseen, hchunk]
    exact (List.take_succ_eq_append_getElem hlt).symm
  · rename_i c permitBytes ok hpc
    rw [hpc] at hat
    obtain ⟨hle, hlt, hread, rfl, rfl⟩ := hat
    cases h
    have hused := hi.conserved
    rw [hpc] at hused
    have hseen := hi.seen
    rw [hpc] at hseen
    rw [release_permitBytes]
    split_ifs with hcall
    · have hnext := call.lt_firstFailure hle hlt hread hcall
      refine hi.moveConsumer hnext (by simp [hpc]) hseen ?_ (Nat.sub_le _ _)
      simp only [hpc, ConsumerPc.heldBytes] at hused ⊢
      omega
    · have hfirst : call.firstFailure = c := by
        apply Nat.le_antisymm _ hle
        apply Nat.le_of_not_lt
        intro hgt
        exact hcall (call.ok_of_lt_firstFailure hgt).2
      subst hfirst
      refine hi.moveConsumer hlt (by simp [hpc]) (by simpa [hread] using hseen) ?_ (Nat.sub_le _ _)
      simp only [hpc, ConsumerPc.heldBytes] at hused ⊢
      omega
  · cases h

end

theorem Inv.step {s s' : State} {a : Action} (hi : call.Inv s) (h : call.step s a = some s') :
    call.Inv s' := by
  cases a with
  | produce spurious => exact hi.produce h
  | consume => exact hi.consume h

/-- Every state reached is in order. -/
theorem inv_of_reaches {s : State} (h : Reaches call.step call.initial s) : call.Inv s :=
  h.invariant inv_initial fun _ _ _ hi hs => hi.step hs

end PrefetchCall

end ForgeANN
