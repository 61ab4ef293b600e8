-- SUMMARY: Every run of the group pipeline ends, gives what one slot gives, and keeps to its budget.
import ForgeANN.Rbc.GroupPipeline

/-!
# Runs of the group pipeline

What is in the channel and what the producer has still to send are, as long as
the builder goes on, the messages of the groups that it has not received. The
permits are with the producer, in the channel and with the builder; who waits
for one waits for a permit that is still out, or for the builder to wake it.
-/
namespace ForgeANN

open Lib

namespace GroupPipeline

variable {β : Type} {call : Call β} {s t : State β} {a : Action}

/-! ## Moves -/

/-- What a step can do. -/
inductive Move (call : Call β) (s : State β) : Action → State β → Prop
  | next {i : Nat} (hp : s.producer = .checking i) (hi : i < call.groupCount)
      (habort : s.abort = false) : Move call s .producer { s with producer := .acquiring i }
  | stop {i : Nat} (hp : s.producer = .checking i)
      (hend : i < call.groupCount → s.abort = true) :
      Move call s .producer { s with producer := .stopped }
  | acquire {i : Nat} (hp : s.producer = .acquiring i)
      (hcan : canAdmit call.limiterBudgetBytes s.live (call.bytes i) = true) :
      Move call s .producer { s with
        live := s.live.saturatingAdd (call.bytes i)
        producer := .hydrating i }
  | wait {i : Nat} (hp : s.producer = .acquiring i)
      (hcan : canAdmit call.limiterBudgetBytes s.live (call.bytes i) = false) :
      Move call s .producer { s with producer := .waiting i }
  | fail {i : Nat} {err : AnnError} (hp : s.producer = .hydrating i)
      (hhydrate : call.hydrate i = some err) :
      Move call s .producer { s with producer := .failing i err }
  | hydrate {i : Nat} (hp : s.producer = .hydrating i) (hhydrate : call.hydrate i = none) :
      Move call s .producer { s with producer := .sending (.ok i) }
  | failed {i : Nat} {err : AnnError} (hp : s.producer = .failing i err) :
      Move call s .producer { s with
        live := s.live.saturatingSub (call.bytes i)
        producer := .sending (.error err) }
  | offer {message : Message} (hp : s.producer = .sending message) (habort : s.abort = false) :
      Move call s .producer { s with producer := .offering message }
  | send {message : Message} (hp : s.producer = .offering message)
      (hconnected : s.disconnected = false) (hroom : s.queue.length < call.readyQueueCapacity) :
      Move call s .producer { s with
        queue := s.queue ++ [message]
        producer := .afterSend message }
  | discard {message : Message} {a : Action}
      (hp : s.producer = .sending message ∨ s.producer = .offering message)
      (hleft : s.abort = true ∨ s.disconnected = true) :
      Move call s a { s with producer := .discard message }
  | discarded {i : Nat} (hp : s.producer = .discarding i) :
      Move call s .producer { s with
        live := s.live.saturatingSub (call.bytes i)
        producer := .stopped }
  | receive {i : Nat} {queue : List Message} (hb : s.builder = .receiving (call.groupIndex i))
      (hlt : call.groupIndex i < call.groupCount) (hqueue : s.queue = .ok i :: queue) :
      Move call s .builder { s with queue, builder := .building (call.groupIndex i) i }
  | violate {expected i : Nat} {queue : List Message} (hb : s.builder = .receiving expected)
      (hlt : expected < call.groupCount) (hqueue : s.queue = .ok i :: queue)
      (hne : call.groupIndex i ≠ expected) :
      Move call s .builder { s with
        queue
        outcome := s.outcome.fail (orderViolation expected (call.groupIndex i))
        builder := .releasing i .drop }
  | receiveError {expected : Nat} {err : AnnError} {queue : List Message}
      (hb : s.builder = .receiving expected) (hlt : expected < call.groupCount)
      (hqueue : s.queue = .error err :: queue) :
      Move call s .builder { s with queue, outcome := s.outcome.fail err, builder := .dropping }
  | closed {expected : Nat} (hb : s.builder = .receiving expected)
      (hlt : expected < call.groupCount) (hqueue : s.queue = []) (hp : s.producer = .stopped) :
      Move call s .builder { s with outcome := s.outcome.fail queueClosed, builder := .dropping }
  | finish {expected : Nat} (hb : s.builder = .receiving expected)
      (hend : call.groupCount ≤ expected) : Move call s .builder { s with builder := .dropping }
  | build {expected i : Nat} {result : β} (hb : s.builder = .building expected i)
      (hbuild : call.build i = .ok result) :
      Move call s .builder { s with
        outcome := s.outcome.record i (.ok result)
        builder := .releasing i (.receive (expected + 1)) }
  | buildError {expected i : Nat} {err : AnnError} (hb : s.builder = .building expected i)
      (hbuild : call.build i = .error err) :
      Move call s .builder { s with
        outcome := s.outcome.record i (.error err)
        builder := .releasing i .drop }
  | release {i : Nat} {after : After} (hb : s.builder = .releasing i after) :
      Move call s .builder { s with
        live := s.live.saturatingSub (call.bytes i)
        builder := .notifying after }
  | notify {after : After} (hb : s.builder = .notifying after) :
      Move call s .builder { s with producer := s.producer.woken, builder := after.pc }
  | drop (hb : s.builder = .dropping) :
      Move call s .builder { s with disconnected := true, builder := .draining }
  | drain {i : Nat} {queue : List Message} (hb : s.builder = .draining)
      (hqueue : s.queue = .ok i :: queue) :
      Move call s .builder { s with queue, builder := .releasing i .drain }
  | drainError {err : AnnError} {queue : List Message} (hb : s.builder = .draining)
      (hqueue : s.queue = .error err :: queue) :
      Move call s .builder { s with queue, builder := .draining }
  | drained (hb : s.builder = .draining) (hqueue : s.queue = []) :
      Move call s .builder { s with builder := .storing }
  | store (hb : s.builder = .storing) :
      Move call s .builder { s with abort := s.outcome.error.isSome, builder := .joining }
  | join (hb : s.builder = .joining) (hp : s.producer = .stopped) :
      Move call s .builder { s with builder := .returned }

theorem move_producerStep (hs : producerStep call s = some t) : Move call s .producer t := by
  cases hp : s.producer with
  | checking i =>
      simp only [producerStep, hp] at hs
      split_ifs at hs with hnext <;> cases hs
      · exact .next hp hnext.1 hnext.2
      · exact .stop hp fun hi => by simpa [hi] using hnext
  | acquiring i =>
      simp only [producerStep, hp] at hs
      split_ifs at hs with hcan <;> cases hs
      · exact .acquire hp hcan
      · exact .wait hp (Bool.eq_false_iff.mpr hcan)
  | hydrating i =>
      simp only [producerStep, hp] at hs
      split at hs <;> cases hs
      · exact .fail hp ‹_›
      · exact .hydrate hp ‹_›
  | failing i err =>
      simp only [producerStep, hp] at hs
      cases hs
      exact .failed hp
  | sending message =>
      simp only [producerStep, hp] at hs
      split_ifs at hs with habort <;> cases hs
      · exact .discard (.inl hp) (.inl habort)
      · exact .offer hp (Bool.eq_false_iff.mpr habort)
  | offering message =>
      simp only [producerStep, hp] at hs
      split_ifs at hs with hgone hroom <;> cases hs
      · exact .discard (.inr hp) (.inr hgone)
      · exact .send hp (Bool.eq_false_iff.mpr hgone) hroom
  | discarding i =>
      simp only [producerStep, hp] at hs
      cases hs
      exact .discarded hp
  | waiting i | stopped =>
      simp only [producerStep, hp] at hs
      cases hs

theorem move_timeoutStep (hs : timeoutStep s = some t) : Move call s .timeout t := by
  rw [timeoutStep] at hs
  split at hs
  · rename_i message hp
    split_ifs at hs with habort
    cases hs
    exact .discard (.inr hp) (.inl habort)
  · cases hs

theorem move_builderStep (hs : builderStep call s = some t) : Move call s .builder t := by
  cases hb : s.builder with
  | receiving expected =>
      simp only [builderStep, hb] at hs
      by_cases hlt : expected < call.groupCount
      · rw [if_pos hlt] at hs
        split at hs
        · rename_i i queue hqueue
          split_ifs at hs with hindex <;> cases hs
          · subst hindex
            exact .receive hb hlt hqueue
          · exact .violate hb hlt hqueue hindex
        · rename_i err queue hqueue
          cases hs
          exact .receiveError hb hlt hqueue
        · rename_i hqueue
          split_ifs at hs with hp
          cases hs
          exact .closed hb hlt hqueue hp
      · rw [if_neg hlt] at hs
        cases hs
        exact .finish hb (Nat.le_of_not_lt hlt)
  | building expected i =>
      simp only [builderStep, hb] at hs
      split at hs <;> cases hs
      · exact .build hb ‹_›
      · exact .buildError hb ‹_›
  | releasing i after =>
      simp only [builderStep, hb] at hs
      cases hs
      exact .release hb
  | notifying after =>
      simp only [builderStep, hb] at hs
      cases hs
      exact .notify hb
  | dropping =>
      simp only [builderStep, hb] at hs
      cases hs
      exact .drop hb
  | draining =>
      simp only [builderStep, hb] at hs
      split at hs
      · rename_i i queue hqueue
        cases hs
        exact .drain hb hqueue
      · rename_i err queue hqueue
        cases hs
        exact .drainError hb hqueue
      · rename_i hqueue
        cases hs
        exact .drained hb hqueue
  | storing =>
      simp only [builderStep, hb] at hs
      cases hs
      exact .store hb
  | joining =>
      simp only [builderStep, hb] at hs
      split_ifs at hs with hp
      cases hs
      exact .join hb hp
  | returned =>
      simp only [builderStep, hb] at hs
      cases hs

theorem move_of_step (hs : step call s a = some t) : Move call s a t := by
  cases a with
  | producer => exact move_producerStep hs
  | timeout => exact move_timeoutStep hs
  | builder => exact move_builderStep hs

/-! ## What is to come -/

/-- The message of each group, up to the first one that cannot be hydrated. -/
def messages (call : Call β) : List Nat → List Message
  | [] => []
  | i :: rest =>
      match call.hydrate i with
      | some err => [.error err]
      | none => .ok i :: messages call rest

/-- The messages from a group on. -/
def messagesFrom (call : Call β) (i : Nat) : List Message :=
  messages call (List.range' i (call.groupCount - i))

/-- What the builder makes of some messages. -/
def consume (call : Call β) : List Message → Outcome β → Outcome β
  | [], outcome => outcome
  | .error err :: _, outcome => outcome.fail err
  | .ok i :: rest, outcome =>
      match call.build i with
      | .ok result => consume call rest (outcome.record i (.ok result))
      | .error err => outcome.record i (.error err)

theorem serialLoop_eq_consume (l : List Nat) (outcome : Outcome β) :
    serialLoop call l outcome = consume call (messages call l) outcome := by
  induction l generalizing outcome with
  | nil => rfl
  | cons i rest ih =>
      rw [serialLoop, messages]
      cases hhydrate : call.hydrate i with
      | some err => rfl
      | none =>
          simp only [consume]
          cases hbuild : call.build i with
          | ok result => exact ih _
          | error err => rfl

theorem serial_eq_consume (call : Call β) : serial call = consume call (messagesFrom call 0) .start := by
  rw [serial, serialLoop_eq_consume, messagesFrom, Nat.sub_zero, List.range_eq_range']

theorem messagesFrom_of_le {i : Nat} (h : call.groupCount ≤ i) : messagesFrom call i = [] := by
  rw [messagesFrom, Nat.sub_eq_zero_of_le h]
  rfl

/-- The message of a group, and those behind it. -/
def messagesAt (call : Call β) (i : Nat) : List Message :=
  match call.hydrate i with
  | some err => [.error err]
  | none => .ok i :: messagesFrom call (i + 1)

theorem messagesFrom_of_lt {i : Nat} (h : i < call.groupCount) :
    messagesFrom call i = messagesAt call i := by
  have hcount : call.groupCount - i = call.groupCount - (i + 1) + 1 := by omega
  rw [messagesFrom, hcount, List.range'_succ, messages, messagesAt, messagesFrom]

theorem messagesAt_ne_nil (call : Call β) (i : Nat) : messagesAt call i ≠ [] := by
  rw [messagesAt]
  split
  · exact List.cons_ne_nil _ _
  · exact List.cons_ne_nil _ _

/-- What follows a message. -/
def behind (call : Call β) : Message → List Message
  | .ok i => messagesFrom call (i + 1)
  | .error _ => []

def ProducerPc.toCome (call : Call β) : ProducerPc → List Message
  | .checking i => messagesFrom call i
  | .acquiring i | .waiting i | .hydrating i => messagesAt call i
  | .failing _ err => [.error err]
  | .sending message | .offering message => message :: behind call message
  | .discarding _ | .stopped => []

/-- The group the builder will receive next, as long as it goes on. -/
def BuilderPc.expects : BuilderPc → Option Nat
  | .receiving expected => some expected
  | .building expected _ => some (expected + 1)
  | .releasing _ (.receive expected) | .notifying (.receive expected) => some expected
  | _ => none

theorem toCome_woken (call : Call β) (producer : ProducerPc) :
    producer.woken.toCome call = producer.toCome call := by
  cases producer <;> rfl

theorem toCome_afterSend (call : Call β) (message : Message) :
    (ProducerPc.afterSend message).toCome call = behind call message := by
  cases message <;> rfl

theorem messagesAt_of_error {i : Nat} {err : AnnError} (h : call.hydrate i = some err) :
    messagesAt call i = [.error err] := by
  rw [messagesAt, h]

theorem messagesAt_of_none {i : Nat} (h : call.hydrate i = none) :
    messagesAt call i = .ok i :: messagesFrom call (i + 1) := by
  rw [messagesAt, h]

/-- The first message is of the first group. -/
theorem messagesAt_ok {expected i : Nat} {rest : List Message}
    (h : messagesAt call expected = .ok i :: rest) :
    i = expected ∧ rest = messagesFrom call (expected + 1) := by
  rw [messagesAt] at h
  split at h
  · cases h
  · obtain ⟨hhead, hrest⟩ := List.cons.inj h
    exact ⟨(Except.ok.inj hhead).symm, hrest.symm⟩

theorem messagesAt_error {expected : Nat} {err : AnnError} {rest : List Message}
    (h : messagesAt call expected = .error err :: rest) : messagesAt call expected = [.error err] := by
  rw [messagesAt] at h ⊢
  split at h
  · rw [(List.cons.inj h).1]
  · cases (List.cons.inj h).1

/-- As long as the builder goes on, everything comes in its turn. -/
structure Flow (call : Call β) (s : State β) (expected : Nat) : Prop where
  messages : s.queue ++ s.producer.toCome call = messagesFrom call expected
  connected : s.disconnected = false
  running : s.abort = false

/-- What the builder makes of all the messages in the end. -/
def finalOf (call : Call β) (outcome : Outcome β) : BuilderPc → Outcome β
  | .receiving expected | .releasing _ (.receive expected) | .notifying (.receive expected) =>
      consume call (messagesFrom call expected) outcome
  | .building expected i => consume call (.ok i :: messagesFrom call (expected + 1)) outcome
  | _ => outcome

/-! ## Permits -/

/-- The permits that are out, and the limiter's counter. -/
abbrev Booked (call : Call β) (live : UInt64) (held : List Nat) : Prop :=
  Permits (fun i => (call.bytes i).toNat) call.limiterBudgetBytes live held

theorem bytes_pos (call : Call β) (i : Nat) : 0 < (call.bytes i).toNat := by
  have hone : (1 : UInt64).toNat = 1 := rfl
  rw [Call.bytes]
  split
  · rw [UInt64.toNat_max, hone]
    exact Nat.lt_of_lt_of_le Nat.one_pos (Nat.le_max_right ..)
  · exact Nat.one_pos

@[simp] theorem queueHeld_nil : queueHeld [] = [] := rfl

@[simp] theorem queueHeld_ok (i : Nat) (queue : List Message) :
    queueHeld (.ok i :: queue) = i :: queueHeld queue := rfl

@[simp] theorem queueHeld_error (err : AnnError) (queue : List Message) :
    queueHeld (.error err :: queue) = queueHeld queue := rfl

theorem queueHeld_append (queue queue' : List Message) :
    queueHeld (queue ++ queue') = queueHeld queue ++ queueHeld queue' := List.filterMap_append

theorem count_held (x : Nat) : s.held.count x =
    s.producer.held.count x + ((queueHeld s.queue).count x + s.builder.held.count x) := by
  rw [State.held, List.count_append, List.count_append]

theorem held_woken (producer : ProducerPc) : producer.woken.held = producer.held := by
  cases producer <;> rfl

theorem held_after (after : After) : after.pc.held = [] := by
  cases after <;> rfl

theorem held_afterSend (message : Message) : (ProducerPc.afterSend message).held = [] := by
  cases message <;> rfl

/-- A permit goes with the message. -/
theorem held_message {message : Message} {producer : ProducerPc}
    (hp : producer = .sending message ∨ producer = .offering message) :
    producer.held = queueHeld [message] := by
  rcases hp with rfl | rfl
  · cases message <;> rfl
  · cases message <;> rfl

theorem held_discard (message : Message) : (ProducerPc.discard message).held = queueHeld [message] := by
  cases message <;> rfl

theorem Move.booked (hmove : Move call s a t) (h : Booked call s.live s.held) :
    Booked call t.live t.held := by
  cases hmove with
  | next hp | stop hp | wait hp | fail hp | hydrate hp =>
      refine h.perm (.of_eq ?_)
      rw [State.held, hp]
      rfl
  | offer hp =>
      refine h.perm (.of_eq ?_)
      rw [State.held, held_message (.inl hp), State.held, held_message (.inr rfl)]
  | @acquire i hp hcan =>
      have hacquire : Booked call (s.live.saturatingAdd (call.bytes i)) (i :: s.held) :=
        h.acquire rfl (bytes_pos call i) hcan
      refine hacquire.perm (.of_eq ?_)
      rw [State.held, hp]
      rfl
  | failed hp =>
      rw [State.held, hp] at h
      exact h.release rfl
  | discarded hp =>
      rw [State.held, hp] at h
      exact h.release rfl
  | send hp hconnected hroom =>
      refine h.perm ?_
      rw [List.perm_iff_count]
      intro x
      rw [count_held, count_held, held_message (.inr hp)]
      simp only [held_afterSend, queueHeld_append, List.count_append, List.count_nil]
      omega
  | discard hp hleft =>
      refine h.perm (.of_eq ?_)
      rw [State.held, held_message hp, State.held, held_discard]
  | receive hb hlt hqueue | violate hb hlt hqueue | drain hb hqueue =>
      refine h.perm ?_
      rw [List.perm_iff_count]
      intro x
      rw [count_held, count_held, hb, hqueue]
      simp only [queueHeld_ok, BuilderPc.held, List.count_cons, List.count_nil]
      omega
  | receiveError hb hlt hqueue | drainError hb hqueue =>
      refine h.perm (.of_eq ?_)
      rw [State.held, hb, hqueue]
      rfl
  | closed hb | finish hb | build hb | buildError hb | drop hb | drained hb | store hb | join hb =>
      refine h.perm (.of_eq ?_)
      rw [State.held, hb]
      rfl
  | @release i after hb =>
      have hperm : s.held.Perm (i :: State.held { s with
          live := s.live.saturatingSub (call.bytes i)
          builder := .notifying after }) := by
        rw [List.perm_iff_count]
        intro x
        rw [List.count_cons, count_held, count_held, hb]
        simp only [BuilderPc.held, List.count_cons, List.count_nil]
        omega
      exact (h.perm hperm).release rfl
  | notify hb =>
      refine h.perm (.of_eq ?_)
      rw [State.held, hb, State.held, held_woken, held_after]
      rfl

/-! ## Waiting -/

/-- Who waits for a permit cannot have it, or will be woken. -/
def Parked (call : Call β) (s : State β) : Prop :=
  ∀ i, s.producer = .waiting i →
    canAdmit call.limiterBudgetBytes s.live (call.bytes i) = false ∨
      ∃ after, s.builder = .notifying after

theorem woken_ne_waiting (producer : ProducerPc) (i : Nat) : producer.woken ≠ .waiting i := by
  cases producer <;> simp [ProducerPc.woken]

theorem Move.parked (hmove : Move call s a t) (h : Parked call s) : Parked call t := by
  intro i hi
  cases hmove with
  | next | stop | acquire | fail | hydrate | failed | offer | discarded => cases hi
  | @send message => cases message <;> cases hi
  | @discard message => cases message <;> cases hi
  | wait hp hcan =>
      cases hi
      exact .inl hcan
  | release hb => exact .inr ⟨_, rfl⟩
  | notify hb => exact absurd hi (woken_ne_waiting _ _)
  | receive hb | violate hb | receiveError hb | finish hb | build hb | buildError hb | drop hb
  | drain hb | drainError hb | drained hb | store hb =>
      rcases h i hi with hfull | ⟨after, hnotifying⟩
      · exact .inl hfull
      · rw [hb] at hnotifying
        cases hnotifying
  | closed hb hlt hqueue hp => cases hp.symm.trans hi
  | join hb hp => cases hp.symm.trans hi

/-! ## In its turn -/

namespace Flow

variable {expected : Nat}

/-- The producer goes on. -/
theorem producer (h : Flow call s expected) {producer : ProducerPc} (live : UInt64)
    (hsame : producer.toCome call = s.producer.toCome call) :
    Flow call { s with live, producer } expected where
  messages := by
    rw [← h.messages, hsame]
  connected := h.connected
  running := h.running

/-- What the builder receives is what it expects. -/
theorem received (h : Flow call s expected) (hlt : expected < call.groupCount) {i : Nat}
    {queue : List Message} (hqueue : s.queue = .ok i :: queue) :
    i = expected ∧ messagesFrom call expected = .ok i :: messagesFrom call (expected + 1) ∧
      queue ++ s.producer.toCome call = messagesFrom call (expected + 1) := by
  have hmessages := h.messages
  rw [hqueue, messagesFrom_of_lt hlt, List.cons_append] at hmessages
  obtain ⟨rfl, hrest⟩ := messagesAt_ok hmessages.symm
  refine ⟨rfl, ?_, hrest⟩
  rw [messagesFrom_of_lt hlt, ← hmessages, hrest]

theorem receivedError (h : Flow call s expected) (hlt : expected < call.groupCount) {err : AnnError}
    {queue : List Message} (hqueue : s.queue = .error err :: queue) :
    messagesFrom call expected = [.error err] := by
  have hmessages := h.messages
  rw [hqueue, messagesFrom_of_lt hlt, List.cons_append] at hmessages
  rw [messagesFrom_of_lt hlt]
  exact messagesAt_error hmessages.symm

/-- The producer does not end before everything has come. -/
theorem not_closed (h : Flow call s expected) (hlt : expected < call.groupCount)
    (hqueue : s.queue = []) (hp : s.producer = .stopped) : False := by
  have hmessages := h.messages
  rw [hqueue, hp, messagesFrom_of_lt hlt] at hmessages
  exact messagesAt_ne_nil call expected hmessages.symm

end Flow

/-- As long as the builder goes on, everything comes in its turn. -/
def Flows (call : Call β) (s : State β) : Prop :=
  ∀ expected, s.builder.expects = some expected → Flow call s expected

theorem Move.flows (hmove : Move call s a t) (h : Flows call s) : Flows call t := by
  intro expected hexpects
  cases hmove with
  | @next i hp hi habort =>
      refine (h expected hexpects).producer s.live ?_
      rw [hp]
      exact (messagesFrom_of_lt hi).symm
  | @stop i hp hend =>
      have hflow := h expected hexpects
      refine hflow.producer s.live ?_
      rw [hp]
      refine (messagesFrom_of_le (Nat.le_of_not_lt fun hi => ?_)).symm
      cases (hend hi).symm.trans hflow.running
  | acquire hp | wait hp | offer hp =>
      refine (h expected hexpects).producer _ ?_
      rw [hp]
      rfl
  | fail hp hhydrate =>
      refine (h expected hexpects).producer s.live ?_
      rw [hp]
      exact (messagesAt_of_error hhydrate).symm
  | hydrate hp hhydrate =>
      refine (h expected hexpects).producer s.live ?_
      rw [hp]
      exact (messagesAt_of_none hhydrate).symm
  | failed hp =>
      refine (h expected hexpects).producer _ ?_
      rw [hp]
      rfl
  | @send message hp hconnected hroom =>
      have hflow := h expected hexpects
      refine ⟨?_, hflow.connected, hflow.running⟩
      have hmessages := hflow.messages
      rw [hp] at hmessages
      rw [toCome_afterSend, List.append_assoc]
      exact hmessages
  | discard hp hleft =>
      have hflow := h expected hexpects
      rw [hflow.connected, hflow.running] at hleft
      simp at hleft
  | discarded hp =>
      refine (h expected hexpects).producer _ ?_
      rw [hp]
      rfl
  | receive hb hlt hqueue =>
      cases hexpects
      have hflow := h _ (congrArg BuilderPc.expects hb)
      exact ⟨(hflow.received hlt hqueue).2.2, hflow.connected, hflow.running⟩
  | build hb hbuild =>
      cases hexpects
      have hflow := h _ (congrArg BuilderPc.expects hb)
      exact ⟨hflow.messages, hflow.connected, hflow.running⟩
  | @release i after hb =>
      cases after with
      | receive e =>
          cases hexpects
          have hflow := h _ (congrArg BuilderPc.expects hb)
          exact ⟨hflow.messages, hflow.connected, hflow.running⟩
      | drop | drain => cases hexpects
  | @notify after hb =>
      cases after with
      | receive e =>
          cases hexpects
          have hflow := h _ (congrArg BuilderPc.expects hb)
          refine ⟨?_, hflow.connected, hflow.running⟩
          rw [toCome_woken]
          exact hflow.messages
      | drop | drain => cases hexpects
  | violate | receiveError | closed | finish | buildError | drop | drain | drainError | drained
  | store | join => cases hexpects

/-- The groups stand where their indices say. -/
def Indexed (call : Call β) : Prop := ∀ i < call.groupCount, call.groupIndex i = i

theorem Move.finalOf (hindex : Indexed call) (hmove : Move call s a t) (h : Flows call s) :
    finalOf call t.outcome t.builder = finalOf call s.outcome s.builder := by
  cases hmove with
  | next | stop | acquire | wait | fail | hydrate | failed | offer | send | discard | discarded => rfl
  | receive hb hlt hqueue =>
      have hflow := h _ (congrArg BuilderPc.expects hb)
      rw [hb, GroupPipeline.finalOf, GroupPipeline.finalOf, (hflow.received hlt hqueue).2.1]
  | violate hb hlt hqueue hne =>
      have hflow := h _ (congrArg BuilderPc.expects hb)
      obtain ⟨rfl, -⟩ := hflow.received hlt hqueue
      exact absurd (hindex _ hlt) hne
  | receiveError hb hlt hqueue =>
      have hflow := h _ (congrArg BuilderPc.expects hb)
      rw [hb]
      simp only [GroupPipeline.finalOf, hflow.receivedError hlt hqueue, consume]
  | closed hb hlt hqueue hp =>
      have hflow := h _ (congrArg BuilderPc.expects hb)
      exact (hflow.not_closed hlt hqueue hp).elim
  | finish hb hend =>
      rw [hb]
      simp only [GroupPipeline.finalOf, messagesFrom_of_le hend, consume]
  | build hb hbuild =>
      rw [hb]
      simp only [GroupPipeline.finalOf, consume, hbuild]
  | buildError hb hbuild =>
      rw [hb]
      simp only [GroupPipeline.finalOf, consume, hbuild]
  | @release i after hb =>
      rw [hb]
      cases after <;> rfl
  | @notify after hb =>
      rw [hb]
      cases after <;> rfl
  | drainError hb => rw [hb]
  | drop hb | drain hb | drained hb | store hb | join hb =>
      rw [hb]
      rfl

/-! ## The end -/

/-- The receiver has been dropped. -/
def BuilderPc.left : BuilderPc → Bool
  | .draining | .storing | .joining | .returned | .releasing _ .drain | .notifying .drain => true
  | _ => false

/-- And what was left in the channel as well. -/
def BuilderPc.emptied : BuilderPc → Bool
  | .storing | .joining | .returned => true
  | _ => false

structure Leaves (s : State β) : Prop where
  gone : s.builder.left = true → s.disconnected = true
  emptied : s.builder.emptied = true → s.queue = []
  stopped : s.builder = .returned → s.producer = .stopped

theorem left_of_emptied {builder : BuilderPc} (h : builder.emptied = true) : builder.left = true := by
  cases builder <;> first | rfl | cases h

theorem Move.leaves (hmove : Move call s a t) (h : Leaves s) : Leaves t := by
  cases hmove with
  | next hp | stop hp | acquire hp | wait hp | fail hp | hydrate hp | failed hp | offer hp
  | discarded hp => exact ⟨h.gone, h.emptied, fun hb => nomatch hp.symm.trans (h.stopped hb)⟩
  | discard hp hleft =>
      refine ⟨h.gone, h.emptied, fun hb => ?_⟩
      rw [h.stopped hb] at hp
      simp at hp
  | send hp hconnected hroom =>
      refine ⟨h.gone, fun hempty => ?_, fun hb => nomatch hp.symm.trans (h.stopped hb)⟩
      cases hconnected.symm.trans (h.gone (left_of_emptied hempty))
  | receive | violate | receiveError | closed | finish | build | buildError =>
      exact ⟨nofun, nofun, nofun⟩
  | @release i after hb =>
      cases after with
      | receive e | drop => exact ⟨nofun, nofun, nofun⟩
      | drain => exact ⟨fun _ => h.gone (by rw [hb]; rfl), nofun, nofun⟩
  | @notify after hb =>
      cases after with
      | receive e | drop => exact ⟨nofun, nofun, nofun⟩
      | drain => exact ⟨fun _ => h.gone (by rw [hb]; rfl), nofun, nofun⟩
  | drop hb => exact ⟨fun _ => rfl, nofun, nofun⟩
  | drain hb hqueue | drainError hb hqueue =>
      exact ⟨fun _ => h.gone (by rw [hb]; rfl), nofun, nofun⟩
  | drained hb hqueue => exact ⟨fun _ => h.gone (by rw [hb]; rfl), fun _ => hqueue, nofun⟩
  | store hb =>
      exact ⟨fun _ => h.gone (by rw [hb]; rfl), fun _ => h.emptied (by rw [hb]; rfl), nofun⟩
  | join hb hp =>
      exact ⟨fun _ => h.gone (by rw [hb]; rfl), fun _ => h.emptied (by rw [hb]; rfl), fun _ => hp⟩

/-- The course of a call. -/
structure Course (call : Call β) (s : State β) : Prop where
  booked : Booked call s.live s.held
  parked : Parked call s
  flows : Flows call s
  leaves : Leaves s

namespace Course

theorem initial (call : Call β) : Course call GroupPipeline.initial where
  booked := .empty _ _
  parked _ h := by cases h
  flows expected h := by
    cases h
    exact ⟨rfl, rfl, rfl⟩
  leaves := ⟨nofun, nofun, nofun⟩

theorem step (h : Course call s) (hs : GroupPipeline.step call s a = some t) : Course call t := by
  have hmove := move_of_step hs
  exact {
    booked := hmove.booked h.booked
    parked := hmove.parked h.parked
    flows := hmove.flows h.flows
    leaves := hmove.leaves h.leaves }

theorem of_reaches (h : Reaches (GroupPipeline.step call) GroupPipeline.initial s) : Course call s :=
  h.invariant (initial call) fun _ _ _ hcourse hs => hcourse.step hs

end Course

theorem finalOf_of_reaches (hindex : Indexed call)
    (h : Reaches (step call) initial s) : finalOf call s.outcome s.builder = serial call := by
  have hstart : Course call (initial : State β) ∧
      finalOf call (initial : State β).outcome (initial : State β).builder = serial call :=
    ⟨Course.initial call, (serial_eq_consume call).symm⟩
  have hboth := h.invariant (P := fun s : State β => Course call s ∧
    finalOf call s.outcome s.builder = serial call) hstart fun u a v hu hs =>
      ⟨hu.1.step hs, ((move_of_step hs).finalOf hindex hu.1.flows).trans hu.2⟩
  exact hboth.2

/-! ## Progress -/

theorem readyQueueCapacity_pos (call : Call β) : 0 < call.readyQueueCapacity :=
  Nat.lt_of_lt_of_le Nat.one_pos (Nat.le_max_right ..)

/-- Where the producer stops for good. -/
theorem producer_of_halted (h : producerStep call s = none) : (∃ i, s.producer = .waiting i) ∨
    (s.disconnected = false ∧ s.queue ≠ []) ∨ s.producer = .stopped := by
  cases hp : s.producer with
  | waiting i => exact .inl ⟨i, rfl⟩
  | stopped => exact .inr (.inr rfl)
  | offering message =>
      simp only [producerStep, hp] at h
      split_ifs at h with hgone hroom
      refine .inr (.inl ⟨Bool.eq_false_iff.mpr hgone, fun hnil => hroom ?_⟩)
      rw [hnil]
      exact readyQueueCapacity_pos call
  | checking i | acquiring i | sending message =>
      simp only [producerStep, hp] at h
      split_ifs at h
  | hydrating i =>
      simp only [producerStep, hp] at h
      split at h <;> cases h
  | failing i err | discarding i =>
      simp only [producerStep, hp] at h
      cases h

/-- Where the builder stops for good. -/
theorem builder_of_halted (h : builderStep call s = none) :
    (∃ expected, s.builder = .receiving expected ∧ expected < call.groupCount ∧ s.queue = [] ∧
        s.producer ≠ .stopped) ∨
      (s.builder = .joining ∧ s.producer ≠ .stopped) ∨ s.builder = .returned := by
  cases hb : s.builder with
  | receiving expected =>
      simp only [builderStep, hb] at h
      by_cases hlt : expected < call.groupCount
      · rw [if_pos hlt] at h
        split at h
        · split_ifs at h
        · cases h
        · rename_i hqueue
          split_ifs at h with hp
          exact .inl ⟨expected, rfl, hlt, hqueue, hp⟩
      · rw [if_neg hlt] at h
        cases h
  | joining =>
      simp only [builderStep, hb] at h
      split_ifs at h with hp
      exact .inr (.inl ⟨rfl, hp⟩)
  | returned => exact .inr (.inr rfl)
  | building expected i | draining =>
      simp only [builderStep, hb] at h
      split at h <;> cases h
  | releasing i after | notifying after | dropping | storing =>
      simp only [builderStep, hb] at h
      cases h

/-- Who waits with no permit out would have been let through. -/
theorem Course.not_waiting (h : Course call s) {i : Nat} (hp : s.producer = .waiting i)
    (hnotify : ∀ after, s.builder ≠ .notifying after) (hheld : s.held = []) : False := by
  rcases h.parked i hp with hfull | ⟨after, hb⟩
  · have hbooked := h.booked
    rw [hheld] at hbooked
    rw [hbooked.live_eq_zero, canAdmit_zero] at hfull
    cases hfull
  · exact hnotify after hb

/-- Nothing stands still before the call has returned. -/
theorem Course.returned_of_halted (h : Course call s) (hhalted : Halted (GroupPipeline.step call) s) :
    s.builder = .returned := by
  have hproducer := producer_of_halted (hhalted .producer)
  rcases builder_of_halted (hhalted .builder) with ⟨expected, hb, hlt, hqueue, hp⟩ | ⟨hb, hp⟩ | hb
  · rcases hproducer with ⟨i, hwait⟩ | ⟨-, hfull⟩ | hstopped
    · have hheld : s.held = [] := by
        rw [State.held, hwait, hqueue, hb]
        rfl
      exact (h.not_waiting hwait (fun after => by simp [hb]) hheld).elim
    · exact absurd hqueue hfull
    · exact absurd hstopped hp
  · have hqueue := h.leaves.emptied (by rw [hb]; rfl)
    rcases hproducer with ⟨i, hwait⟩ | ⟨-, hfull⟩ | hstopped
    · have hheld : s.held = [] := by
        rw [State.held, hwait, hqueue, hb]
        rfl
      exact (h.not_waiting hwait (fun after => by simp [hb]) hheld).elim
    · exact absurd hqueue hfull
    · exact absurd hstopped hp
  · exact hb

/-- After the call nothing is held. -/
theorem Course.held_of_returned (h : Course call s) (hb : s.builder = .returned) : s.held = [] := by
  rw [State.held, h.leaves.stopped hb, h.leaves.emptied (by rw [hb]; rfl), hb]
  rfl

/-! ## Every run ends -/

/-- A woken producer may find that it has to wait again. -/
def ProducerPc.cost (call : Call β) : ProducerPc → Nat
  | .checking i => (call.groupCount - i) * 20 + 1
  | .acquiring i => (call.groupCount - (i + 1)) * 20 + 20
  | .waiting i => (call.groupCount - (i + 1)) * 20 + 19
  | .hydrating i => (call.groupCount - (i + 1)) * 20 + 18
  | .sending (.ok i) => (call.groupCount - (i + 1)) * 20 + 13
  | .offering (.ok i) => (call.groupCount - (i + 1)) * 20 + 12
  | .failing _ _ => 14
  | .sending (.error _) => 13
  | .offering (.error _) => 12
  | .discarding _ => 1
  | .stopped => 0

def After.cost : After → Nat
  | .receive _ => 10
  | .drop => 9
  | .drain => 7

/-- To notify may cost the producer another look at the counter. -/
def BuilderPc.cost : BuilderPc → Nat
  | .receiving _ => 10
  | .building _ _ => 16
  | .releasing _ after => after.cost + 5
  | .notifying after => after.cost + 3
  | .dropping => 9
  | .draining => 7
  | .storing => 6
  | .joining => 5
  | .returned => 0

def State.cost (call : Call β) (s : State β) : Nat :=
  s.producer.cost call + (s.builder.cost + 8 * s.queue.length)

theorem cost_woken (call : Call β) (producer : ProducerPc) :
    producer.woken.cost call ≤ producer.cost call + 1 := by
  cases producer with
  | waiting i => exact Nat.le_refl _
  | checking | acquiring | hydrating | failing | sending | offering | discarding | stopped =>
      exact Nat.le_succ _

theorem cost_after (after : After) : after.pc.cost = after.cost := by
  cases after <;> rfl

theorem cost_discard (call : Call β) {message : Message} {producer : ProducerPc}
    (hp : producer = .sending message ∨ producer = .offering message) :
    (ProducerPc.discard message).cost call < producer.cost call := by
  rcases hp with rfl | rfl
  · cases message <;> simp only [ProducerPc.discard, ProducerPc.cost] <;> omega
  · cases message <;> simp only [ProducerPc.discard, ProducerPc.cost] <;> omega

/-- Each step costs something. -/
theorem Move.cost_lt (hmove : Move call s a t) : t.cost call < s.cost call := by
  cases hmove with
  | @next i hp hi habort =>
      have hcount : call.groupCount - i = call.groupCount - (i + 1) + 1 := by omega
      simp only [State.cost, hp, ProducerPc.cost]
      omega
  | stop hp | acquire hp | wait hp | fail hp | hydrate hp | failed hp | discarded hp =>
      simp only [State.cost, hp, ProducerPc.cost]
      omega
  | @offer message hp =>
      cases message <;> simp only [State.cost, hp, ProducerPc.cost] <;> omega
  | @send message hp =>
      cases message <;>
        simp only [State.cost, hp, ProducerPc.afterSend, ProducerPc.cost, List.length_append,
          List.length_singleton] <;> omega
  | discard hp hleft => exact Nat.add_lt_add_right (cost_discard call hp) _
  | receive hb hlt hqueue | violate hb hlt hqueue | receiveError hb hlt hqueue | drain hb hqueue
  | drainError hb hqueue =>
      simp only [State.cost, hb, hqueue, BuilderPc.cost, After.cost, List.length_cons]
      omega
  | closed hb | finish hb | build hb | buildError hb | release hb | drop hb | drained hb | store hb
  | join hb =>
      simp only [State.cost, hb, BuilderPc.cost, After.cost]
      omega
  | @notify after hb =>
      have hwoken := cost_woken call s.producer
      have hbuilder : s.builder.cost = after.cost + 3 := congrArg BuilderPc.cost hb
      have hafter := cost_after after
      simp only [State.cost]
      omega

/-! ## The pipeline against the loop -/

theorem indexed_of_map (h : call.groups.map D1ResidentSubtreeGroup.groupIndex =
    List.range call.groups.length) : Indexed call := by
  intro i hlt
  have hi : i < call.groups.length := hlt
  have hget : (call.groups.map D1ResidentSubtreeGroup.groupIndex)[i]? =
      (List.range call.groups.length)[i]? := by rw [h]
  rw [List.getElem?_map, List.getElem?_eq_getElem hi, List.getElem?_range hi] at hget
  rw [Call.groupIndex, List.getElem?_eq_getElem hi]
  exact Option.some.inj hget

/-- The pipeline of groups, in all its interleavings: it always comes to its end, where it has built
what one slot builds and has given all permits back; and a budget is kept to at all times, but
for a group that is larger than it and alone. -/
theorem groups_pipeline_as_serial
    (hindex : call.groups.map D1ResidentSubtreeGroup.groupIndex = List.range call.groups.length) :
    (∀ as s, Run (step call) initial as s → as.length ≤ 20 * call.groups.length + 11) ∧
      ∀ s, Reaches (step call) initial s →
        (Limits call.limiterBudgetBytes →
          s.live.toNat = weigh (fun i => (call.bytes i).toNat) s.held ∧
            Within (fun i => (call.bytes i).toNat) call.limiterBudgetBytes s.held) ∧
        (Halted (step call) s → s.builder = .returned) ∧
        (s.builder = .returned → s.outcome = serial call ∧ s.live = 0) := by
  constructor
  · intro as s hrun
    have hle := hrun.length_add_le (P := fun _ => True) (μ := State.cost call)
      (fun _ _ _ _ _ => trivial) (fun _ _ _ _ hs => (move_of_step hs).cost_lt) trivial
    have hcost : (initial : State β).cost call = call.groups.length * 20 + 11 := rfl
    omega
  · intro s hreach
    have hcourse := Course.of_reaches hreach
    refine ⟨fun hlimits => ⟨hcourse.booked.exact hlimits, hcourse.booked.within hlimits⟩,
      hcourse.returned_of_halted, fun hreturned => ⟨?_, ?_⟩⟩
    · have hfinal := finalOf_of_reaches (indexed_of_map hindex) hreach
      rwa [hreturned] at hfinal
    · have hbooked := hcourse.booked
      rw [hcourse.held_of_returned hreturned] at hbooked
      exact hbooked.live_eq_zero

/-- Two groups of six bytes each, under a budget of ten. -/
def sixByteGroup (groupIndex : Nat) : D1ResidentSubtreeGroup where
  groupIndex
  pairs := []
  uniqueIds := []
  sourceRuns := 1
  selectedPoints := 1
  logicalBytes := 6
  physicalBytes := 6
  plannedWindows := 1
  bufferRatio := 1.0
  residentBytes := 6
  expectedLeaves := 4

def twoGroupCall : Call Nat where
  groups := [sixByteGroup 0, sixByteGroup 1]
  groupPipelineSlots := 2
  configGroupPipelineSlots := 2
  limiterBudgetBytes := 10
  sketchWidth := none
  accessorBytes := 64
  hydrate _ := none
  build i := .ok (i + 7)

/-- The second group waits until the first one has been built. -/
def twoGroupRun : List Action :=
  List.replicate 7 .producer ++ List.replicate 4 .builder ++ List.replicate 4 .producer ++
    List.replicate 4 .builder ++ [.producer] ++ List.replicate 5 .builder

theorem groups_pipeline_as_serial_two : ∃ s, Reaches (step twoGroupCall) initial s ∧
    s.builder = .returned ∧ s.outcome = serial twoGroupCall ∧ s.live = 0 := by
  have hfollow : (follow (step twoGroupCall) initial twoGroupRun).map State.builder =
      some .returned := by decide
  obtain ⟨s, hrun, hreturned⟩ := exists_run_of_follow hfollow
  have hindex : twoGroupCall.groups.map D1ResidentSubtreeGroup.groupIndex =
      List.range twoGroupCall.groups.length := rfl
  have hall := (groups_pipeline_as_serial hindex).2 s ⟨_, hrun⟩
  exact ⟨s, ⟨_, hrun⟩, hreturned, hall.2.2 hreturned⟩

end GroupPipeline

end ForgeANN
