-- SUMMARY: The pipeline of the level scan: a planner that also applies, a reader and compute workers, whatever their interleaving.
import ForgeANN.Lib.Reorder
import ForgeANN.Rbc.LevelScanRoutes

/-!
# Pipeline of the level scan

Plans, rows and outputs go through bounded channels, each with the index of its
batch. The main thread makes the plans and applies the outputs in the order of
their batches, however the reader and the workers interleave.
-/
namespace ForgeANN

open Lib

namespace ScanPipeline

/-- The scan, `pipeline_inflight`, `computed_reorder_capacity` and the number of compute workers. -/
structure Config (Row : Type) where
  scan : LevelScan Row
  pipelineInflight : Nat
  computedReorderCapacity : Nat
  computeWorkers : Nat

variable {Row : Type}

def Config.maxOutstandingBatches (cfg : Config Row) : Nat :=
  max (max cfg.computedReorderCapacity cfg.pipelineInflight) 1

abbrev PlanItem := Nat × D1LevelScanBatchPlan

/-- `D1LevelScanLoadedBatch`. -/
abbrev LoadedItem (Row : Type) := Nat × D1LevelScanBatchPlan × List Row

/-- `D1LevelScanComputedBatch`. -/
abbrev ComputedItem := Nat × List D1LevelScanRunBatchOutput

inductive ReaderPc (Row : Type) where
  | receiving
  | reading (item : PlanItem)
  | sending (loaded : AnnResult (LoadedItem Row))
  | stopped

inductive WorkerPc (Row : Type) where
  | receiving
  | computing (loaded : LoadedItem Row)
  | sending (computed : AnnResult ComputedItem)
  | stopped

inductive MainPc where
  /-- In `fill_d1_sequential_ads_plan_queue`. -/
  | filling
  /-- At the head of the loop, with what the planner said last. -/
  | receiving (plannerExhausted : Bool)
  /-- In `drain_ordered_d1_level_scan_batches`. -/
  | draining
  | finished (result : AnnResult Unit)

structure State (Row : Type) where
  heap : D1LevelScanHeap
  /-- The sender of the plans is there until the planner is exhausted. -/
  senderOpen : Bool
  pendingPlan : Option PlanItem
  nextBatchIdx : Nat
  sentBatches : Nat
  appliedBatches : Nat
  nextApplyBatchIdx : Nat
  planQueue : List PlanItem
  reader : ReaderPc Row
  loadedQueue : List (AnnResult (LoadedItem Row))
  workers : List (WorkerPc Row)
  computedQueue : List (AnnResult ComputedItem)
  pendingApply : Pending (List D1LevelScanRunBatchOutput)
  result : D1LevelScanResult
  main : MainPc

def initial (cfg : Config Row) : State Row where
  heap := startHeap cfg.scan.points
  senderOpen := true
  pendingPlan := none
  nextBatchIdx := 0
  sentBatches := 0
  appliedBatches := 0
  nextApplyBatchIdx := 0
  planQueue := []
  reader := .receiving
  loadedQueue := []
  workers := List.replicate cfg.computeWorkers .receiving
  computedQueue := []
  pendingApply := []
  result := cfg.scan.start
  main := .filling

def ReaderPc.isStopped : ReaderPc Row → Bool
  | .stopped => true
  | _ => false

def WorkerPc.isStopped : WorkerPc Row → Bool
  | .stopped => true
  | _ => false

namespace State

variable (cfg : Config Row) (s : State Row)

/-- The next plan to send: the one that did not fit before, or a new one. -/
def nextPlan : Option (PlanItem × State Row) :=
  match s.pendingPlan with
  | some item => some (item, { s with pendingPlan := none })
  | none =>
      match nextD1LevelScanBatch cfg.scan.points cfg.scan.batchPoints s.heap with
      | some (plan, heap) =>
          some ((s.nextBatchIdx, plan), { s with heap, nextBatchIdx := s.nextBatchIdx + 1 })
      | none => none

/-- A round of `fill_d1_sequential_ads_plan_queue`. -/
def fill : State Row :=
  if !s.senderOpen then { s with main := .receiving true }
  else if s.sentBatches - s.appliedBatches < cfg.maxOutstandingBatches then
    match s.nextPlan cfg with
    | none => { s with senderOpen := false, main := .receiving true }
    | some (item, s) =>
        if s.reader.isStopped then
          { s with main := .finished (.error (.index
            "D1 sequential ADS reader stopped before accepting the next plan")) }
        else if s.planQueue.length < max cfg.pipelineInflight 1 then
          { s with planQueue := s.planQueue ++ [item], sentBatches := s.sentBatches + 1 }
        else { s with pendingPlan := some item, main := .receiving false }
  else { s with main := .receiving false }

/-- The loop of the main thread until a result has been received. -/
def receive (plannerExhausted : Bool) : Option (State Row) :=
  if plannerExhausted ∧ s.appliedBatches = s.sentBatches then
    some { s with main := .finished (.ok ()) }
  else
    match s.computedQueue with
    | .ok (batchIdx, outputs) :: computedQueue =>
        some { s with
          computedQueue
          pendingApply := s.pendingApply.put batchIdx outputs
          main := .draining }
    | .error err :: computedQueue =>
        some { s with computedQueue, main := .finished (.error err) }
    | [] =>
        if s.workers.all WorkerPc.isStopped then
          some { s with main := .finished (.error (.index
            "D1 sequential ADS compute queue closed before all batches applied")) }
        else none

/-- A round of `drain_ordered_d1_level_scan_batches`. -/
def drain : State Row :=
  match s.pendingApply.take? s.nextApplyBatchIdx with
  | some (outputs, pendingApply) =>
      { s with
        pendingApply
        result := s.result.applyD1LevelScanComputedBatch outputs
        appliedBatches := s.appliedBatches + 1
        nextApplyBatchIdx := s.nextApplyBatchIdx + 1 }
  | none => { s with main := .filling }

def setWorker (j : Nat) (pc : WorkerPc Row) : State Row := { s with workers := s.workers.set j pc }

end State

/-- `read_d1_level_scan_batch`. -/
def readBatch (cfg : Config Row) (item : PlanItem) : AnnResult (LoadedItem Row) := do
  let data ← cfg.scan.readPoints (item.2.map Prod.fst)
  .ok (item.1, item.2, data)

def computeBatch (cfg : Config Row) (loaded : LoadedItem Row) : AnnResult ComputedItem := do
  let outputs ← cfg.scan.computeD1LevelScanLoadedBatch loaded.2.1 loaded.2.2
  .ok (loaded.1, outputs)

inductive Action where
  | main
  | reader
  | worker (j : Nat)
deriving DecidableEq, Repr

def readerStep (cfg : Config Row) (s : State Row) : Option (State Row) :=
  match s.reader with
  | .receiving =>
      match s.planQueue with
      | item :: planQueue => some { s with planQueue, reader := .reading item }
      | [] => if s.senderOpen then none else some { s with reader := .stopped }
  | .reading item => some { s with reader := .sending (readBatch cfg item) }
  | .sending loaded =>
      if s.loadedQueue.length < max cfg.pipelineInflight 1 then
        some { s with
          loadedQueue := s.loadedQueue ++ [loaded]
          reader := if loaded.isOk then .receiving else .stopped }
      else none
  | .stopped => none

def workerStep (cfg : Config Row) (s : State Row) (j : Nat) : Option (State Row) :=
  match s.workers[j]? with
  | some .receiving =>
      match s.loadedQueue with
      | .ok loaded :: loadedQueue =>
          some ({ s with loadedQueue }.setWorker j (.computing loaded))
      | .error err :: loadedQueue =>
          some ({ s with loadedQueue }.setWorker j (.sending (.error err)))
      | [] => if s.reader.isStopped then some (s.setWorker j .stopped) else none
  | some (.computing loaded) => some (s.setWorker j (.sending (computeBatch cfg loaded)))
  | some (.sending computed) =>
      if s.computedQueue.length < max cfg.computedReorderCapacity 1 then
        some ({ s with computedQueue := s.computedQueue ++ [computed] }.setWorker j
          (if computed.isOk then .receiving else .stopped))
      else none
  | _ => none

def mainStep (cfg : Config Row) (s : State Row) : Option (State Row) :=
  match s.main with
  | .filling => some (s.fill cfg)
  | .receiving plannerExhausted => s.receive plannerExhausted
  | .draining => some s.drain
  | .finished _ => none

def step (cfg : Config Row) (s : State Row) : Action → Option (State Row)
  | .main => mainStep cfg s
  | .reader => readerStep cfg s
  | .worker j => workerStep cfg s j

end ScanPipeline

end ForgeANN
