-- SUMMARY: The point pipeline: a producer, I/O workers under a byte budget, and a consumer that takes the batches in order.
import ForgeANN.Common.Basic
import ForgeANN.Common.Chunks
import ForgeANN.Common.Float
import ForgeANN.Lib.Reorder
import ForgeANN.Lib.Transition

/-!
# The point pipeline

Chunks of ids go to I/O workers through one bounded channel, and what was read
for them comes back through another one. A worker takes a permit for the bytes
of its chunk before it reads; the permit goes with the batch until the consumer,
which takes the batches in the order of the chunks, is done with it.
-/
namespace ForgeANN

open Lib

namespace PointPipeline

/-- What `PointPipelineConfig` has of use here. -/
structure PointPipelineConfig where
  ioThreads : Nat
  queueDepth : Nat
  budgetBytes : Nat
  maxWindowBytes : Nat
  maxReadAmplification : Float
  windowCacheBytes : Nat

/-- The arguments of `for_each_pipelined_point_batch`. -/
structure Call where
  dim : Nat
  ids : List UInt32
  batchPoints : Nat
  config : PointPipelineConfig

namespace Call

variable (call : Call)

def rowBytes : Nat := max (call.dim * 4) 1
def queueDepth : Nat := max call.config.queueDepth 1
def ioThreads : Nat := max call.config.ioThreads 1
def budgetBytes : Nat := max call.config.budgetBytes (call.rowBytes * call.ioThreads)
def maxPointsByBudget : Nat := max (call.budgetBytes / call.rowBytes / call.ioThreads) 1
def effectiveBatchPoints : Nat := min (max call.batchPoints 1) call.maxPointsByBudget
def chunkIds : List (List UInt32) := chunks call.effectiveBatchPoints call.ids
def batchCount : Nat := call.chunkIds.length

/-- The ids of a batch. -/
def chunk (seq : Nat) : List UInt32 := call.chunkIds[seq]?.getD []

/-- The bytes a batch asks of the budget. -/
def bytes (seq : Nat) : Nat := max ((call.chunk seq).length * call.dim * 4) 1

/-- The capacity of `PointPipelineBudget::new`. -/
def capacity : Nat := max call.budgetBytes 1

end Call

/-- How a worker reads the rows of a chunk: in steps, between which others use the shared cache. -/
structure Reader (κ ρ : Type) where
  start : List UInt32 → ρ
  step : κ → ρ → κ × (ρ ⊕ List F32)
  fuel : ρ → Nat
  fuel_lt : ∀ {cache cache' r r'}, step cache r = (cache', .inl r') → fuel r' < fuel r

/-! ## States -/

inductive WorkerPc (ρ : Type) where
  | receiving
  | acquiring (seq : Nat)
  /-- In `cv.wait`. -/
  | parked (seq : Nat)
  | woken (seq : Nat)
  | reading (seq : Nat) (r : ρ)
  | sending (result : AnnResult (Nat × List F32))
  | stopped

inductive ConsumerPc where
  | receiving (expected : Nat)
  /-- On the way out with an error: the batches still pending are dropped. -/
  | dropping (err : AnnError)
  | finished (result : AnnResult Unit)

/-- `consumed` is what the callback was given. The job of a batch is its chunk. -/
structure State (κ ρ : Type) where
  nextJob : Nat
  jobs : List Nat
  workers : List (WorkerPc ρ)
  ready : List (AnnResult (Nat × List F32))
  used : Nat
  cache : κ
  pending : Pending (List F32)
  consumer : ConsumerPc
  consumed : List (List F32)
  returned : Option (AnnResult Unit)

variable {κ ρ : Type} (call : Call) (reader : Reader κ ρ)

/-- Without ids there is no chunk, and the call returns as soon as the threads have found that out. -/
def initial (cache : κ) : State κ ρ where
  nextJob := 0
  jobs := []
  workers := List.replicate call.ioThreads .receiving
  ready := []
  used := 0
  cache
  pending := []
  consumer := .receiving 0
  consumed := []
  returned := none

/-! ## Steps -/

def WorkerPc.isParked : WorkerPc ρ → Bool
  | .parked _ => true
  | _ => false

def WorkerPc.isStopped : WorkerPc ρ → Bool
  | .stopped => true
  | _ => false

/-- The permits of the batches in the channel. -/
def readySeqs (ready : List (AnnResult (Nat × List F32))) : List Nat :=
  ready.filterMap fun message => message.toOption.map Prod.fst

namespace State

variable (s : State κ ρ)

def setWorker (j : Nat) (pc : WorkerPc ρ) : State κ ρ := { s with workers := s.workers.set j pc }

/-- `PointPipelineBudget::release`: one of those that wait is woken, if there is one. -/
def release (bytes : Nat) (wake : Option Nat) : Option (State κ ρ) :=
  let released := { s with used := s.used - bytes }
  match wake with
  | some j =>
      match s.workers[j]? with
      | some (.parked seq) => some (released.setWorker j (.woken seq))
      | _ => none
  | none => if s.workers.any WorkerPc.isParked then none else some released

/-- The loop of `acquire`. -/
def acquire (j seq : Nat) : State κ ρ :=
  if call.capacity < s.used + call.bytes seq then s.setWorker j (.parked seq)
  else { s with used := s.used + call.bytes seq }.setWorker j
    (.reading seq (reader.start (call.chunk seq)))

end State

inductive Action where
  | produce
  | worker (j : Nat)
  /-- A read fails; the permit is dropped. -/
  | fault (j : Nat) (err : AnnError) (wake : Option Nat)
  | consumer (wake : Option Nat)
  /-- The callback fails. -/
  | consumeFails (err : AnnError) (wake : Option Nat)
  /-- All threads of the scope have ended. -/
  | join
deriving DecidableEq, Repr

def Action.isFailure : Action → Bool
  | .fault .. | .consumeFails .. => true
  | _ => false

def tooLarge (bytes capacity : Nat) : AnnError :=
  .index s!"Point pipeline batch requires {bytes} bytes, exceeding budget {capacity}"

def workersEnded : AnnError :=
  .index "Point pipeline I/O workers ended before ready batch: receiving on an empty and disconnected channel"

def workerStep (s : State κ ρ) (j : Nat) : Option (State κ ρ) :=
  match s.workers[j]? with
  | some .receiving =>
      match s.jobs with
      | seq :: jobs => some ({ s with jobs }.setWorker j (.acquiring seq))
      | [] => if s.nextJob < call.batchCount then none else some (s.setWorker j .stopped)
  | some (.acquiring seq) =>
      if call.capacity < call.bytes seq then
        some (s.setWorker j (.sending (.error (tooLarge (call.bytes seq) call.capacity))))
      else some (s.acquire call reader j seq)
  | some (.woken seq) => some (s.acquire call reader j seq)
  | some (.reading seq r) =>
      match reader.step s.cache r with
      | (cache, .inl r) => some ({ s with cache }.setWorker j (.reading seq r))
      | (cache, .inr data) => some ({ s with cache }.setWorker j (.sending (.ok (seq, data))))
  | some (.sending result) =>
      -- the receiver outlives the scope: a send never finds the channel disconnected
      if s.ready.length < call.queueDepth then
        some ({ s with ready := s.ready ++ [result] }.setWorker j .receiving)
      else none
  | _ => none

def faultStep (s : State κ ρ) (j : Nat) (err : AnnError) (wake : Option Nat) :
    Option (State κ ρ) :=
  match s.workers[j]? with
  | some (.reading seq _) => (s.setWorker j (.sending (.error err))).release (call.bytes seq) wake
  | _ => none

def consumerStep (s : State κ ρ) (wake : Option Nat) : Option (State κ ρ) :=
  match s.consumer with
  | .receiving expected =>
      if expected = call.batchCount then some { s with consumer := .finished (.ok ()) }
      else
        match s.pending.take? expected with
        | some (data, pending) =>
            { s with
              pending
              consumed := s.consumed ++ [data]
              consumer := .receiving (expected + 1) }.release (call.bytes expected) wake
        | none =>
            match s.ready with
            | .ok (seq, data) :: ready => some { s with ready, pending := s.pending.put seq data }
            | .error err :: ready => some { s with ready, consumer := .dropping err }
            | [] =>
                if s.workers.all WorkerPc.isStopped then
                  some { s with consumer := .dropping workersEnded }
                else none
  | .dropping err =>
      match s.pending with
      | (seq, _) :: pending => { s with pending }.release (call.bytes seq) wake
      | [] => some { s with consumer := .finished (.error err) }
  | .finished _ => none

def consumeFailsStep (s : State κ ρ) (err : AnnError) (wake : Option Nat) : Option (State κ ρ) :=
  match s.consumer with
  | .receiving expected =>
      match s.pending.take? expected with
      | some (_, pending) =>
          { s with pending, consumer := .dropping err }.release (call.bytes expected) wake
      | none => none
  | _ => none

/-- The scope ends with its last thread, and what is still in the channel is dropped. -/
def joinStep (s : State κ ρ) : Option (State κ ρ) :=
  match s.consumer, s.returned with
  | .finished result, none =>
      if s.workers.all WorkerPc.isStopped ∧ call.batchCount ≤ s.nextJob then
        some { s with
          ready := []
          used := s.used - ((readySeqs s.ready).map call.bytes).sum
          returned := some result }
      else none
  | _, _ => none

def step (s : State κ ρ) : Action → Option (State κ ρ)
  | .produce =>
      if s.nextJob < call.batchCount ∧ s.jobs.length < call.queueDepth then
        some { s with jobs := s.jobs ++ [s.nextJob], nextJob := s.nextJob + 1 }
      else none
  | .worker j => workerStep call reader s j
  | .fault j err wake => faultStep call s j err wake
  | .consumer wake => consumerStep call s wake
  | .consumeFails err wake => consumeFailsStep call s err wake
  | .join => joinStep call s

end PointPipeline

end ForgeANN
