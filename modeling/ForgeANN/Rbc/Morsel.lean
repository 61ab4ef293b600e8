-- SUMMARY: The queue of leaf morsels of a resident subtree: its submitting threads, its workers and its one condition variable.
import ForgeANN.Common.Basic
import ForgeANN.Lib.Pool
import Mathlib.Data.List.Sort

/-!
# Leaf morsels of a resident subtree

Threads that build a resident group submit its leaves to a bounded priority
queue, and workers drain it in batches. Both sides wait on one condition
variable; only the submitting side gives up waiting after a while.
-/
namespace ForgeANN

open Lib

namespace Morsel

abbrev Leaf := List UInt32

/-- `D1ResidentLeafMorselPolicy`; `from_params` clamps the workers to one at least. -/
structure Policy where
  workers : Nat
  queueCapacity : Nat
  maxBatchLeaves : Nat
  maxBatchPoints : Nat
  maxBatchWork : Nat
  workers_pos : 0 < workers

def leafMorselQuadraticWork (points : Nat) : Nat := points * points

/-- `D1ResidentLeafMorselItem`. -/
structure Item where
  points : Nat
  seq : UInt64
  leaf : Leaf
deriving DecidableEq, Repr

/-- The heap's order, the greatest first: more points, and then the earlier submission. -/
def Item.before (a b : Item) : Prop := b.points < a.points ∨ a.points = b.points ∧ a.seq ≤ b.seq

instance : DecidableRel Item.before := fun a b =>
  inferInstanceAs (Decidable (b.points < a.points ∨ a.points = b.points ∧ a.seq ≤ b.seq))

/-! ## Threads -/

/-- Where a submitting thread is in `submit`, and with which leaf. -/
inductive SubmitPc where
  | idle
  | checking (leaf : Leaf)
  | locking (leaf : Leaf)
  | waiting (leaf : Leaf)
deriving DecidableEq, Repr

structure Submitter where
  todo : List Leaf
  pc : SubmitPc
  returned : List (AnnResult Unit)

/-- Where a worker is in `d1_resident_leaf_morsel_worker_loop`. -/
inductive WorkerPc where
  | top
  | popping
  | sleeping
  | batching (batch : List Leaf)
  /-- `rest` is what is left to emit of the batch. -/
  | emitting (batch rest : List Leaf)
  | exited
  | failed (err : AnnError) (batch rest : List Leaf)
deriving DecidableEq, Repr

/-- `D1ResidentLeafMorselStats`. -/
structure Stats where
  drainedLeaves : Nat
  drainBatches : Nat
deriving DecidableEq, Repr

/-- The queue, the metrics, the threads, and a log of what happened to the leaves. -/
structure State where
  heap : List Item
  closed : Bool
  nextSeq : UInt64
  error : Option AnnError
  drainedLeaves : Nat
  drainBatches : Nat
  submitters : List Submitter
  workers : List WorkerPc
  finished : Option (AnnResult Stats)
  submitted : List Leaf
  emitted : List (Nat × Leaf)
  batches : List (List Leaf)

/-- What a run is about: the limits, the leaves each thread submits, and those that cannot be
processed. -/
structure Config where
  policy : Policy
  submissions : List (List Leaf)
  fails : Leaf → Option AnnError

def Config.capacity (cfg : Config) : Nat := max cfg.policy.queueCapacity 1

def initial (cfg : Config) : State where
  heap := []
  closed := false
  nextSeq := 0
  error := none
  drainedLeaves := 0
  drainBatches := 0
  submitters := cfg.submissions.map fun todo => ⟨todo, .idle, []⟩
  workers := List.replicate cfg.policy.workers .top
  finished := none
  submitted := []
  emitted := []
  batches := []

namespace State

variable (s : State)

def setSubmitter (i : Nat) (submitter : Submitter) : State :=
  { s with submitters := s.submitters.set i submitter }

def setWorker (j : Nat) (pc : WorkerPc) : State := { s with workers := s.workers.set j pc }

def checkError : AnnResult Unit :=
  match s.error with
  | some err => .error err
  | none => .ok ()

/-! ## The condition variable -/

end State

inductive Waiter where
  | submitter (i : Nat)
  | worker (j : Nat)
deriving DecidableEq, Repr

def SubmitPc.isWaiting : SubmitPc → Bool
  | .waiting _ => true
  | _ => false

/-- After its wait, a submitter looks for an error before it locks again. -/
def SubmitPc.awake : SubmitPc → SubmitPc
  | .waiting leaf => .checking leaf
  | pc => pc

def WorkerPc.awake : WorkerPc → WorkerPc
  | .sleeping => .popping
  | pc => pc

def Submitter.awake (submitter : Submitter) : Submitter :=
  { submitter with pc := submitter.pc.awake }

namespace State

variable (s : State)

def anyWaiting : Prop :=
  (∃ submitter ∈ s.submitters, submitter.pc.isWaiting) ∨ WorkerPc.sleeping ∈ s.workers

instance : Decidable s.anyWaiting := inferInstanceAs (Decidable (_ ∨ _))

/-- `notify_one` wakes one of those that wait, whichever, if there are any. -/
def notifyOne : Option Waiter → Option State
  | none => if s.anyWaiting then none else some s
  | some (.submitter i) =>
      match s.submitters[i]? with
      | some submitter =>
          if submitter.pc.isWaiting then some (s.setSubmitter i submitter.awake) else none
      | none => none
  | some (.worker j) =>
      if s.workers[j]? = some .sleeping then some (s.setWorker j .popping) else none

def notifyAll : State :=
  { s with
    submitters := s.submitters.map Submitter.awake
    workers := s.workers.map WorkerPc.awake }

/-! ## Steps -/

def push (leaf : Leaf) : State :=
  { s with
    heap := s.heap.orderedInsert Item.before ⟨leaf.length, s.nextSeq, leaf⟩
    nextSeq := s.nextSeq + 1
    submitted := s.submitted ++ [leaf] }

/-- A round of the loop in `submit`, with the queue locked. -/
def lockSubmit (cfg : Config) (i : Nat) (submitter : Submitter) (leaf : Leaf)
    (notified : Option Waiter) : Option State :=
  if s.closed then
    if notified = none then
      some (s.setSubmitter i ⟨submitter.todo, .idle, submitter.returned ++
        [.error (.index "D1 resident leaf morsel queue closed while submitting leaf")]⟩)
    else none
  else if s.heap.length < cfg.capacity then
    ((s.push leaf).setSubmitter i
      ⟨submitter.todo, .idle, submitter.returned ++ [.ok ()]⟩).notifyOne notified
  else if notified = none then some (s.setSubmitter i { submitter with pc := .waiting leaf })
  else none

/-- `pop`, with the queue locked. -/
def lockPop (j : Nat) (notified : Option Waiter) : Option State :=
  match s.heap with
  | item :: heap => ({ s with heap }.setWorker j (.batching [item.leaf])).notifyOne notified
  | [] =>
      if notified = none then some (s.setWorker j (if s.closed then .exited else .sleeping))
      else none

end State

def batchPoints (batch : List Leaf) : Nat := (batch.map List.length).sum

def batchWork (batch : List Leaf) : Nat :=
  (batch.map fun leaf => leafMorselQuadraticWork leaf.length).sum

/-- What `try_pop_for_batch` asks of the next leaf. -/
def fitsBatch (policy : Policy) (batch : List Leaf) (item : Item) : Prop :=
  batchPoints batch + item.points ≤ policy.maxBatchPoints ∧
    batchWork batch + leafMorselQuadraticWork item.points ≤ policy.maxBatchWork

instance (policy : Policy) (batch : List Leaf) (item : Item) :
    Decidable (fitsBatch policy batch item) := inferInstanceAs (Decidable (_ ∧ _))

namespace State

variable (s : State)

/-- A round of the loop that fills the batch. -/
def lockTryPop (policy : Policy) (j : Nat) (batch : List Leaf) (notified : Option Waiter) :
    Option State :=
  match s.heap with
  | item :: heap =>
      if batch.length < policy.maxBatchLeaves ∧ batchPoints batch < policy.maxBatchPoints ∧
          fitsBatch policy batch item then
        ({ s with heap }.setWorker j (.batching (batch ++ [item.leaf]))).notifyOne notified
      else if notified = none then some (s.setWorker j (.emitting batch batch))
      else none
  | [] => if notified = none then some (s.setWorker j (.emitting batch batch)) else none

/-- The next leaf of a batch, or the end of it. -/
def emitNext (cfg : Config) (j : Nat) (batch : List Leaf) : List Leaf → State
  | leaf :: rest =>
      match cfg.fails leaf with
      | some err => s.setWorker j (.failed err batch (leaf :: rest))
      | none =>
          { s with emitted := s.emitted ++ [(j, leaf)] }.setWorker j (.emitting batch rest)
  | [] =>
      { s with
        drainedLeaves := s.drainedLeaves + batch.length
        drainBatches := s.drainBatches + 1
        batches := s.batches ++ [batch] }.setWorker j .top

def ended : WorkerPc → Bool
  | .exited => true
  | .failed .. => true
  | _ => false

/-- `record_error`: the first one stays. -/
def recordError (error : Option AnnError) : WorkerPc → Option AnnError
  | .failed err _ _ => error.or (some err)
  | _ => error

/-- `finish_d1_resident_leaf_morsels`, once all workers can be joined. The source joins them one by
one, and the others see the error of a worker once it is joined: only runs that end in an error
differ. -/
def finish : State :=
  let s := { s with error := s.workers.foldl recordError s.error }
  { s with finished := some (s.checkError.map fun _ => ⟨s.drainedLeaves, s.drainBatches⟩) }

end State

inductive Action where
  /-- A thread calls `submit` with its next leaf. -/
  | call (i : Nat)
  | check (i : Nat)
  | lock (i : Nat) (notified : Option Waiter)
  | timeout (i : Nat)
  | loopTop (j : Nat)
  | pop (j : Nat) (notified : Option Waiter)
  | tryPop (j : Nat) (notified : Option Waiter)
  | emit (j : Nat)
  /-- The group is built: the sink is dropped, which closes the queue. -/
  | close
  | join
deriving DecidableEq, Repr

def step (cfg : Config) (s : State) : Action → Option State
  | .call i =>
      match s.submitters[i]? with
      | some ⟨leaf :: todo, .idle, returned⟩ =>
          if s.closed then none else some (s.setSubmitter i ⟨todo, .checking leaf, returned⟩)
      | _ => none
  | .check i =>
      match s.submitters[i]? with
      | some ⟨todo, .checking leaf, returned⟩ =>
          match s.checkError with
          | .ok () => some (s.setSubmitter i ⟨todo, .locking leaf, returned⟩)
          | .error err => some (s.setSubmitter i ⟨todo, .idle, returned ++ [.error err]⟩)
      | _ => none
  | .lock i notified =>
      match s.submitters[i]? with
      | some ⟨todo, .locking leaf, returned⟩ =>
          s.lockSubmit cfg i ⟨todo, .locking leaf, returned⟩ leaf notified
      | _ => none
  | .timeout i =>
      match s.submitters[i]? with
      | some ⟨todo, .waiting leaf, returned⟩ =>
          some (s.setSubmitter i ⟨todo, .checking leaf, returned⟩)
      | _ => none
  | .loopTop j =>
      match s.workers[j]? with
      | some .top =>
          match s.checkError with
          | .ok () => some (s.setWorker j .popping)
          | .error err => some (s.setWorker j (.failed err [] []))
      | _ => none
  | .pop j notified =>
      match s.workers[j]? with
      | some .popping => s.lockPop j notified
      | _ => none
  | .tryPop j notified =>
      match s.workers[j]? with
      | some (.batching batch) => s.lockTryPop cfg.policy j batch notified
      | _ => none
  | .emit j =>
      match s.workers[j]? with
      | some (.emitting batch rest) => some (s.emitNext cfg j batch rest)
      | _ => none
  | .close =>
      if s.closed ∨ ∃ submitter ∈ s.submitters, submitter.pc ≠ .idle then none
      else some { s.notifyAll with closed := true }
  | .join =>
      if s.closed ∧ s.finished = none ∧ ∀ pc ∈ s.workers, State.ended pc then some s.finish
      else none

end Morsel

end ForgeANN
