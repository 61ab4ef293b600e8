-- SUMMARY: The prefetch pipeline as a step relation: a producer, a consumer, a bounded queue and a permit gate.
import ForgeANN.Rbc.Materialize
import ForgeANN.Lib.Transition

/-!
# The prefetch pipeline

A scoped thread reads the chunks of the ids and sends them through a bounded
channel; the calling thread receives them and hands them to its callback. Every
batch carries a permit, acquired from the gate before the read and released
after the callback.
-/
namespace ForgeANN

open Lib

structure StrictPrefetchGate where
  capacityBytes : Nat
  usedBytes : Nat
deriving Repr

structure StrictPrefetchPipelineConfig where
  enabled : Bool
  queueDepth : Nat
  budgetBytes : Nat
deriving Repr

/-- The arguments of `for_each_prefetched_point_batch_profiled`. `readOk j` says whether the read of
    chunk `j` succeeds, `callbackOk j` whether the `j`-th call of the callback does. -/
structure PrefetchCall where
  ids : List UInt32
  dim : Nat
  batchPoints : Nat
  queueDepth : Nat
  strictConfig : Option StrictPrefetchPipelineConfig
  strictGate : Option StrictPrefetchGate
  readOk : Nat → Bool
  callbackOk : Nat → Bool

structure PrefetchedPointBatch where
  ids : List UInt32
  prefetchPermitBytes : Nat
deriving Repr

/-- What the channel carries: an `AnnResult<PrefetchedPointBatch>`. -/
inductive PrefetchMessage where
  | batch (batch : PrefetchedPointBatch)
  | failed
deriving Repr

/-- What a message holds of the gate. -/
@[simp] def PrefetchMessage.permitBytes : PrefetchMessage → Nat
  | .batch b => b.prefetchPermitBytes
  | .failed => 0

namespace PrefetchCall

variable (call : PrefetchCall)

/-! ## What is fixed before the threads start -/

def enabledConfig : Option StrictPrefetchPipelineConfig := call.strictConfig.filter (·.enabled)

/-- The configuration, where it sets a budget. -/
def budgetConfig : Option StrictPrefetchPipelineConfig :=
  call.enabledConfig.filter (fun config => 0 < config.budgetBytes)

def rowBytes : Nat := max (call.dim * 4) 1

def effectiveBatchPoints : Nat :=
  match call.budgetConfig with
  | some config => min (max call.batchPoints 1) (max (config.budgetBytes / call.rowBytes) 1)
  | none => max call.batchPoints 1

def effectiveQueueDepth : Nat :=
  match call.enabledConfig with
  | some config => max config.queueDepth 1
  | none => max call.queueDepth 1

/-- The gate of the caller, else one of this call's own. -/
def gate : Option StrictPrefetchGate :=
  match call.strictGate with
  | some gate => some gate
  | none => call.budgetConfig.map fun config => ⟨config.budgetBytes, 0⟩

/-- The value of `used_bytes` at entry. -/
def usedAtEntry : Nat := (call.gate.map (·.usedBytes)).getD 0

def batches : List (List UInt32) := chunks call.effectiveBatchPoints call.ids

def chunk (i : Nat) : List UInt32 := call.batches.getD i []

def batchBytes (i : Nat) : Nat := (call.chunk i).length * call.dim * 4

/-! ## The two threads -/

/-- Where the producer stands, in the iteration of chunk `i`. -/
inductive ProducerPc where
  | chunk (i : Nat)
  | load (i : Nat)
  | cas (i current : Nat)
  | read (i permitBytes : Nat)
  | send (i : Nat) (message : PrefetchMessage)
  | done

inductive ConsumerPc where
  | recv (c : Nat)
  | call (c : Nat) (batch : PrefetchedPointBatch)
  | release (c permitBytes : Nat) (ok : Bool)
  | done (ok : Bool)

structure State where
  usedBytes : Nat
  queue : List PrefetchMessage
  producer : ProducerPc
  consumer : ConsumerPc
  /-- The chunks the callback has been given. -/
  seen : List (List UInt32)

/-- `spurious` is the failure a weak compare-exchange may report at any time. -/
inductive Action where
  | produce (spurious : Bool)
  | consume

def initial : State := ⟨call.usedAtEntry, [], .chunk 0, .recv 0, []⟩

/-- `StrictPrefetchGate::release`, where there is a gate. -/
def release (usedBytes bytes : Nat) : Nat :=
  match call.gate with
  | some _ => usedBytes - bytes
  | none => usedBytes

def produce (spurious : Bool) (s : State) : Option State :=
  match s.producer with
  | .chunk i =>
      if i < call.batches.length then
        match call.gate with
        | none => some { s with producer := .read i 0 }
        | some gate =>
            -- a batch of no bytes, or of more than the gate has, passes without a permit
            if call.batchBytes i = 0 ∨ gate.capacityBytes < call.batchBytes i then
              some { s with producer := .read i 0 }
            else some { s with producer := .load i }
      else some { s with producer := .done }
  | .load i => some { s with producer := .cas i s.usedBytes }
  | .cas i current =>
      match call.gate with
      | none => none
      | some gate =>
          let next := current + call.batchBytes i
          if next ≤ gate.capacityBytes then
            if s.usedBytes = current ∧ !spurious then
              some { s with usedBytes := next, producer := .read i (call.batchBytes i) }
            else some { s with producer := .cas i s.usedBytes }
          else some { s with producer := .load i }
  | .read i permitBytes =>
      if call.readOk i then
        some { s with producer := .send i (.batch ⟨call.chunk i, permitBytes⟩) }
      else
        some { s with usedBytes := call.release s.usedBytes permitBytes, producer := .send i .failed }
  | .send i message =>
      -- the receiver outlives the scope: a full queue is tried again, never found disconnected
      if s.queue.length < call.effectiveQueueDepth then
        some { s with queue := s.queue ++ [message], producer := .chunk (i + 1) }
      else some s
  | .done => none

def consume (s : State) : Option State :=
  match s.consumer with
  | .recv c =>
      if c < call.batches.length then
        match s.queue with
        | [] =>
            match s.producer with
            | .done => some { s with consumer := .done false }
            | _ => none
        | .failed :: queue => some { s with queue, consumer := .done false }
        | .batch batch :: queue => some { s with queue, consumer := .call c batch }
      else some { s with consumer := .done true }
  | .call c batch =>
      some { s with
        seen := s.seen ++ [batch.ids]
        consumer := .release c batch.prefetchPermitBytes (call.callbackOk c) }
  | .release c permitBytes ok =>
      some { s with
        usedBytes := call.release s.usedBytes permitBytes
        consumer := if ok then .recv (c + 1) else .done false }
  | .done _ => none

def step (s : State) : Action → Option State
  | .produce spurious => call.produce spurious s
  | .consume => call.consume s

def State.ProducerDone (s : State) : Prop := s.producer = .done

def State.ConsumerDone (s : State) : Prop := ∃ ok, s.consumer = .done ok

/-- The call has returned: the scope has joined the producer. -/
def State.Exited (s : State) : Prop := s.ProducerDone ∧ s.ConsumerDone

/-! ## What each chunk comes to -/

/-- What chunk `i` takes from the gate. -/
def permitBytes (i : Nat) : Nat :=
  match call.gate with
  | none => 0
  | some gate => if gate.capacityBytes < call.batchBytes i then 0 else call.batchBytes i

/-- What is sent for chunk `i`. -/
def message (i : Nat) : PrefetchMessage :=
  if call.readOk i then .batch ⟨call.chunk i, call.permitBytes i⟩ else .failed

/-- The messages of the chunks from `c` up to `i`. -/
def inFlight (c i : Nat) : List PrefetchMessage := (List.range' c (i - c)).map call.message

def heldBy (messages : List PrefetchMessage) : Nat := (messages.map (·.permitBytes)).sum

def fails (i : Nat) : Bool := !(call.readOk i && call.callbackOk i)

/-- The first chunk whose read or callback fails; the number of chunks where none does. -/
def firstFailure : Nat := (List.range call.batches.length).findIdx call.fails

/-- What the chunks sent before `i` keep of the gate once the consumer has left. -/
def leftBehind (i : Nat) : Nat := heldBy (call.inFlight (call.firstFailure + 1) i)

@[simp] theorem length_inFlight (c i : Nat) : (call.inFlight c i).length = i - c := by
  simp [inFlight]

@[simp] theorem inFlight_self (c : Nat) : call.inFlight c c = [] := by simp [inFlight]

theorem inFlight_of_le {c i : Nat} (h : i ≤ c) : call.inFlight c i = [] := by
  simp [inFlight, Nat.sub_eq_zero_of_le h]

theorem inFlight_append {c m i : Nat} (hcm : c ≤ m) (hmi : m ≤ i) :
    call.inFlight c i = call.inFlight c m ++ call.inFlight m i := by
  have hsum : i - c = (m - c) + (i - m) := by omega
  have hm : c + (m - c) = m := by omega
  rw [inFlight, hsum, ← List.range'_append_1, List.map_append, hm]
  rfl

theorem inFlight_succ {c i : Nat} (h : c ≤ i) :
    call.inFlight c (i + 1) = call.inFlight c i ++ [call.message i] := by
  rw [call.inFlight_append h (Nat.le_succ i)]
  simp [inFlight]

theorem inFlight_cons {c i : Nat} (h : c < i) :
    call.inFlight c i = call.message c :: call.inFlight (c + 1) i := by
  rw [call.inFlight_append (Nat.le_succ c) h, call.inFlight_succ (Nat.le_refl c)]
  simp

@[simp] theorem heldBy_append (l l' : List PrefetchMessage) : heldBy (l ++ l') = heldBy l + heldBy l' := by
  simp [heldBy]

@[simp] theorem heldBy_nil : heldBy [] = 0 := rfl

@[simp] theorem heldBy_cons (m : PrefetchMessage) (l : List PrefetchMessage) :
    heldBy (m :: l) = m.permitBytes + heldBy l := by
  simp [heldBy]

theorem firstFailure_le : call.firstFailure ≤ call.batches.length := by
  have h : call.firstFailure ≤ (List.range call.batches.length).length := List.findIdx_le_length
  simpa using h

theorem ok_of_lt_firstFailure {i : Nat} (h : i < call.firstFailure) :
    call.readOk i = true ∧ call.callbackOk i = true := by
  have hnot := List.not_of_lt_findIdx h
  simpa [fails] using hnot

theorem not_ok_firstFailure (h : call.firstFailure < call.batches.length) :
    ¬ (call.readOk call.firstFailure = true ∧ call.callbackOk call.firstFailure = true) := by
  have hlt : call.firstFailure < (List.range call.batches.length).length := by simpa using h
  have hfail : call.fails (List.range call.batches.length)[call.firstFailure] = true :=
    List.findIdx_getElem (w := hlt)
  rw [List.getElem_range] at hfail
  intro ⟨hread, hcall⟩
  simp [fails, hread, hcall] at hfail

/-- A chunk that both succeeds in being read and in its callback, with all before it, is not the first failure. -/
theorem lt_firstFailure {c : Nat} (hc : c ≤ call.firstFailure) (hlt : c < call.batches.length)
    (hread : call.readOk c = true) (hcall : call.callbackOk c = true) : c < call.firstFailure := by
  rcases Nat.lt_or_eq_of_le hc with h | h
  · exact h
  · subst h
    exact absurd ⟨hread, hcall⟩ (call.not_ok_firstFailure hlt)

theorem permitBytes_of_none (h : call.gate = none) (i : Nat) : call.permitBytes i = 0 := by
  simp [permitBytes, h]

theorem permitBytes_of_gate {gate : StrictPrefetchGate} (h : call.gate = some gate) (i : Nat) :
    call.permitBytes i = if gate.capacityBytes < call.batchBytes i then 0 else call.batchBytes i := by
  simp [permitBytes, h]

end PrefetchCall

end ForgeANN
