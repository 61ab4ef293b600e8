-- SUMMARY: The leaf scheduler as threads over shared atomics: emitters, drainers, helpers and the waiting thread.
import ForgeANN.Lib.Pool
import ForgeANN.Scheduler.Budget

/-!
# The leaf scheduler

Every atomic, queue or mutex access of the scheduler is one step. A thread is
its program counter with the locals it still needs. Thread `0` runs the closure
of `run_scheduler_scope`; the producer's calls of the emitter and the spawned
drainers are threads of their own. Telemetry counters, which nothing reads back,
are left out.
-/
namespace ForgeANN

open Lib

/-- A batch in the middle of its processing. Its leaves may be processed one by
one or in parallel; a hydrated batch collects the edges of its leaves and
flushes them together. -/
structure Batch where
  /-- Leaves it was taken with. -/
  count : Nat
  count_pos : 0 < count
  todo : List Leaf
  running : List Leaf
  collected : List Leaf
  failed : Bool
deriving DecidableEq

/-- A batch just taken from the backlog. -/
def Batch.new (first : Leaf) (rest : List Leaf) : Batch :=
  ⟨rest.length + 1, Nat.succ_pos _, first :: rest, [], [], false⟩

/-- Who helps with the backlog, and so where a batch's result goes. -/
inductive Helper where
  /-- `emit_leaf` with its leaf still in hand, the backlog being full. -/
  | retry (leaf : Leaf) (wait : Bool)
  /-- `wait_for_leaf_backlog_below`; with `credit`, on the way to the work-graph wait. -/
  | soft (target : Nat) (credit : Bool)
  /-- `maybe_wait_for_work_graph_credit`. -/
  | credit
  /-- `wait_until_idle`. -/
  | idle
  /-- A leaf drainer. -/
  | drain
deriving DecidableEq

/-- Where `maybe_spawn_leaf_drainer` returns to. -/
inductive SpawnFor where
  | pushed (wait : Bool)
  | help (h : Helper)
  | idle
  | exit
deriving DecidableEq

inductive Pc where
  -- the closure of `run_scheduler_scope`
  | produce
  | markProducerFinished (ok : Bool)
  | discardPop
  | discardCredit (leaf : Leaf)
  | discardRelease
  | idleOutstanding
  | idleFinalCheck
  -- `emit_leaf`
  | emitCheck (leaf : Leaf) (wait : Bool)
  | emitReserve (leaf : Leaf) (wait : Bool)
  | emitPush (leaf : Leaf) (wait : Bool)
  | emitCredit (leaf : Leaf) (wait : Bool)
  | emitRelease (leaf : Leaf) (wait : Bool)
  | softLen (target : Nat) (credit : Bool)
  | softFinalCheck (credit : Bool)
  | creditWork
  | creditOutstanding
  | creditFinalCheck
  | inlineCheck (leaf : Leaf)
  | inlineRun (leaf : Leaf)
  | inlineDone (ok : Bool)
  -- `check_for_error` inside a waiting loop
  | waitCheck (h : Helper)
  -- `maybe_spawn_leaf_drainer`
  | spawnLen (k : SpawnFor)
  | spawnActive (k : SpawnFor) (backlog : Nat)
  | spawnTarget (k : SpawnFor) (backlog active : Nat)
  | spawnCas (k : SpawnFor) (active : Nat)
  -- `try_take_queued_leaf_batch`
  | takeFirst (h : Helper)
  | takeFirstCredit (h : Helper) (leaf : Leaf)
  | takeLen (h : Helper) (leaf : Leaf)
  | takeLimits (h : Helper) (leaf : Leaf) (available : Nat)
  | takeMore (h : Helper) (first : Leaf) (rest : List Leaf) (maxLeaves maxPoints : Nat)
  | takeMoreCredit (h : Helper) (first : Leaf) (rest : List Leaf) (leaf : Leaf)
      (maxLeaves maxPoints : Nat)
  -- `process_taken_leaf_batch`, its drop guard with `n + 1` leaves left to finish, `record_error`
  | process (h : Helper) (batch : Batch)
  | dropGuard (h : Helper) (n : Nat) (ok : Bool)
  | recordError
  /-- Helping has failed, and `?` is about to return the error. -/
  | helpFailed (h : Helper)
  -- `run_leaf_drainer` and `finish_leaf_drainer`
  | drainCheck
  | drainLen
  | reserveTarget (backlog : Nat)
  | reserveActive (target : Nat)
  | reserveRetiring (target active : Nat)
  | reserveCas (target retiring : Nat)
  | exitRetiring
  | exitActive
  | finished
deriving DecidableEq

/-- The atomics, the backlog and the first error; below them what the calls
around the scheduler have come to so far. -/
structure Shared where
  leafBacklog : List Leaf
  outstandingLeafTasks : Nat
  activeLeafDrainers : Nat
  retiringLeafDrainers : Nat
  producerActive : Bool
  queuedWorkMs : UInt64
  /-- `first_error` is set. -/
  firstError : Bool
  /-- Emitter calls of the producer that have not returned. -/
  emitters : Nat
  /-- Some emitter call has returned an error. -/
  emitFailed : Bool
  /-- The producer has returned, with `Ok` or not. -/
  producerResult : Option Bool
  /-- What `run_scheduler_scope` returns. -/
  result : Option Bool
  emitted : List Leaf
  processed : List Leaf
  /-- Leaves dropped without having been processed. -/
  lost : List Leaf
  /-- Leaves whose processing returned an error. -/
  failed : List Leaf
deriving DecidableEq

inductive LeafOutcome where
  | processed
  | collected
  | failed
deriving DecidableEq, Repr

inductive Move where
  | go
  | limits (reading : LimitReading)
  /-- A weak compare-exchange may also fail without a reason. -/
  | cas (strong : Bool)
  | beginLeaf (leaf : Leaf)
  | endLeaf (leaf : Leaf) (outcome : LeafOutcome)
  | flush
  /-- Hydrating the batch or flushing its edges fails. -/
  | abort
  | finishBatch
  | emit (leaf : Leaf) (wait : Bool)
  | emitInline (leaf : Leaf)
  | waitBelow (target : Nat)
  | ret (ok : Bool)
deriving DecidableEq

/-! ## Returning -/

/-- What a thread does without another access: its next state and the threads it spawns. -/
abbrev Next := Shared × Pc × List Pc

namespace Shared

/-- An emitter call returns `Ok`. -/
def emitOk (s : Shared) : Next := ({ s with emitters := s.emitters - 1 }, .finished, [])

/-- An emitter call returns an error, dropping the leaves it has in hand. -/
def emitErr (s : Shared) (dropped : List Leaf) : Next :=
  ({ s with
    emitters := s.emitters - 1
    emitFailed := true
    lost := s.lost ++ dropped }, .finished, [])

/-- The closure of `run_scheduler_scope` returns. -/
def finish (s : Shared) (ok : Bool) : Next := ({ s with result := some ok }, .finished, [])

/-- On to the work-graph wait, or out of `emit_leaf`. -/
def afterSoft (cfg : SchedulerConfig) (s : Shared) : Next :=
  if cfg.workGraphEnabled then (s, .creditWork, []) else s.emitOk

/-- `maybe_spawn_leaf_drainer` returns. -/
def afterSpawn (cfg : SchedulerConfig) (s : Shared) : SpawnFor → Next
  | .pushed wait =>
      if !wait then s.emitOk
      else if cfg.producerLeafBacklogSoftLimit = 0 then s.afterSoft cfg
      else (s, .softLen cfg.producerLeafBacklogSoftLimit true, [])
  | .help h => (s, .takeFirst h, [])
  | .idle => (s, .idleOutstanding, [])
  | .exit => (s, .finished, [])

/-- The helper found no leaf, or its batch went well. -/
def afterHelp (h : Helper) : Pc :=
  match h with
  | .retry leaf wait => .emitReserve leaf wait
  | .soft target credit => .softLen target credit
  | .credit => .creditWork
  | .idle => .idleOutstanding
  | .drain => .drainCheck

/-- The batch is finished and its drop guard has run. -/
def afterGuard (h : Helper) (ok : Bool) : Pc :=
  if ok then afterHelp h else if h = .drain then .recordError else .helpFailed h

/-- The helper's batch, or its check for an error, returned an error. -/
def afterError (s : Shared) (h : Helper) : Next :=
  match h with
  | .retry leaf _ => s.emitErr [leaf]
  | .soft _ _ => s.emitErr []
  | .credit => s.emitErr []
  | .idle => s.finish false
  | .drain => (s, .recordError, [])

end Shared

/-! ## Steps -/

/-- The steps of `process_queued_leaf_batch` within a batch. -/
def Batch.step (s : Shared) (h : Helper) (b : Batch) : Move → Option Next
  | .beginLeaf leaf =>
      if leaf ∈ b.todo then
        if s.firstError then
          some ({ s with lost := s.lost ++ [leaf] },
            .process h { b with todo := b.todo.erase leaf, failed := true }, [])
        else
          some (s, .process h { b with
            todo := b.todo.erase leaf
            running := leaf :: b.running }, [])
      else none
  | .endLeaf leaf outcome =>
      if leaf ∈ b.running then
        let b := { b with running := b.running.erase leaf }
        match outcome with
        | .processed => some ({ s with processed := s.processed ++ [leaf] }, .process h b, [])
        | .collected => some (s, .process h { b with collected := leaf :: b.collected }, [])
        | .failed =>
            some ({ s with lost := s.lost ++ [leaf], failed := s.failed ++ [leaf] },
              .process h { b with failed := true }, [])
      else none
  | .flush =>
      if b.running = [] ∧ !b.failed then
        some ({ s with processed := s.processed ++ b.collected },
          .process h { b with collected := [] }, [])
      else none
  | .abort =>
      if b.running = [] ∧ !b.failed ∧ b.todo ++ b.collected ≠ [] then
        some ({ s with
            lost := s.lost ++ (b.todo ++ b.collected)
            failed := s.failed ++ (b.todo ++ b.collected) },
          .process h { b with todo := [], collected := [], failed := true }, [])
      else none
  | .finishBatch =>
      if b.running = [] ∧ (b.failed ∨ b.todo ++ b.collected = []) then
        some ({ s with lost := s.lost ++ (b.todo ++ b.collected) },
          .dropGuard h (b.count - 1) (!b.failed), [])
      else none
  | _ => none

/-- What the producer may do next. It hands on the errors of the emitter's calls. -/
def produceStep (s : Shared) : Move → Option Next
  | .emit leaf wait =>
      some ({ s with emitters := s.emitters + 1, emitted := s.emitted ++ [leaf] },
        .produce, [.emitCheck leaf wait])
  | .emitInline leaf =>
      some ({ s with emitters := s.emitters + 1, emitted := s.emitted ++ [leaf] },
        .produce, [.inlineCheck leaf])
  | .waitBelow target =>
      some ({ s with emitters := s.emitters + 1 }, .produce, [.softLen target false])
  | .ret ok =>
      if s.emitters = 0 ∧ (ok → !s.emitFailed) then
        some ({ s with producerResult := some ok }, .markProducerFinished ok, [])
      else none
  | _ => none

/-- The accesses without a choice. -/
def goStep (cfg : SchedulerConfig) (s : Shared) : Pc → Option Next
  | .markProducerFinished ok =>
      let s := { s with producerActive := false }
      if ok then some (s, .spawnLen .idle, []) else some (s, .discardPop, [])
  | .discardPop =>
      match s.leafBacklog with
      | [] => some (s, .idleOutstanding, [])
      | leaf :: backlog =>
          some ({ s with leafBacklog := backlog, lost := s.lost ++ [leaf] }, .discardCredit leaf, [])
  | .discardCredit leaf =>
      some ({ s with queuedWorkMs := s.queuedWorkMs - cfg.estimateLeafWorkMs leaf },
        .discardRelease, [])
  | .discardRelease =>
      some ({ s with outstandingLeafTasks := s.outstandingLeafTasks - 1 }, .discardPop, [])
  | .idleOutstanding =>
      if s.outstandingLeafTasks = 0 then some (s, .idleFinalCheck, [])
      else some (s, .waitCheck .idle, [])
  | .idleFinalCheck =>
      -- `result.and(idle_result)`
      if s.firstError then some (s.finish false) else some (s.finish (s.producerResult = some true))
  | .emitCheck leaf wait =>
      if s.firstError then some (s.emitErr [leaf]) else some (s, .emitReserve leaf wait, [])
  | .emitReserve leaf wait =>
      some ({ s with outstandingLeafTasks := s.outstandingLeafTasks + 1 }, .emitPush leaf wait, [])
  | .emitPush leaf wait =>
      if s.leafBacklog.length < cfg.queueCapacity then
        some ({ s with leafBacklog := s.leafBacklog ++ [leaf] }, .emitCredit leaf wait, [])
      else some (s, .emitRelease leaf wait, [])
  | .emitCredit leaf wait =>
      some ({ s with queuedWorkMs := s.queuedWorkMs + cfg.estimateLeafWorkMs leaf },
        .spawnLen (.pushed wait), [])
  | .emitRelease leaf wait =>
      some ({ s with outstandingLeafTasks := s.outstandingLeafTasks - 1 },
        .spawnLen (.help (.retry leaf wait)), [])
  | .softLen target credit =>
      if target < s.leafBacklog.length then some (s, .waitCheck (.soft target credit), [])
      else some (s, .softFinalCheck credit, [])
  | .softFinalCheck credit =>
      if s.firstError then some (s.emitErr [])
      else if credit then some (s.afterSoft cfg)
      else some s.emitOk
  | .creditWork =>
      if cfg.targetQueuedWorkMs ≤ s.queuedWorkMs then some (s, .creditOutstanding, [])
      else some (s, .creditFinalCheck, [])
  | .creditOutstanding =>
      if s.outstandingLeafTasks ≠ 0 then some (s, .waitCheck .credit, [])
      else some (s, .creditFinalCheck, [])
  | .creditFinalCheck => if s.firstError then some (s.emitErr []) else some s.emitOk
  | .inlineCheck leaf =>
      if s.firstError then some (s.emitErr [leaf]) else some (s, .inlineRun leaf, [])
  | .inlineDone ok => if ok then some s.emitOk else some (s.emitErr [])
  | .waitCheck h =>
      if s.firstError then some (s.afterError h)
      else
        match h with
        | .idle => some (s, .takeFirst .idle, [])
        | h => some (s, .spawnLen (.help h), [])
  | .spawnLen k =>
      if s.leafBacklog.length = 0 then some (s.afterSpawn cfg k)
      else some (s, .spawnActive k s.leafBacklog.length, [])
  | .spawnActive k backlog => some (s, .spawnTarget k backlog s.activeLeafDrainers, [])
  | .takeFirst h =>
      match s.leafBacklog with
      | [] =>
          match h with
          | .drain => some (s, .exitActive, [])
          | h => some (s, Shared.afterHelp h, [])
      | leaf :: backlog => some ({ s with leafBacklog := backlog }, .takeFirstCredit h leaf, [])
  | .takeFirstCredit h leaf =>
      some ({ s with queuedWorkMs := s.queuedWorkMs - cfg.estimateLeafWorkMs leaf },
        .takeLen h leaf, [])
  | .takeLen h leaf =>
      let available := s.leafBacklog.length + 1
      if cfg.batchesFrom available then some (s, .takeLimits h leaf available, [])
      else some (s, .process h (.new leaf []), [])
  | .takeLimits h leaf available =>
      let limits := cfg.effectiveLeafBatchLimits s.producerActive available
      some (s, .takeMore h leaf [] limits.1 limits.2, [])
  | .takeMore h first rest maxLeaves maxPoints =>
      if rest.length + 1 < maxLeaves ∧ ((first :: rest).map List.length).sum < maxPoints then
        match s.leafBacklog with
        | [] => some (s, .process h (.new first rest), [])
        | leaf :: backlog =>
            some ({ s with leafBacklog := backlog },
              .takeMoreCredit h first rest leaf maxLeaves maxPoints, [])
      else some (s, .process h (.new first rest), [])
  | .takeMoreCredit h first rest leaf maxLeaves maxPoints =>
      some ({ s with queuedWorkMs := s.queuedWorkMs - cfg.estimateLeafWorkMs leaf },
        .takeMore h first (rest ++ [leaf]) maxLeaves maxPoints, [])
  | .dropGuard h n ok =>
      let s := { s with outstandingLeafTasks := s.outstandingLeafTasks - 1 }
      match n with
      | n + 1 => some (s, .dropGuard h n ok, [])
      | 0 => some (s, Shared.afterGuard h ok, [])
  | .recordError => some ({ s with firstError := true }, .exitActive, [])
  | .helpFailed h => some (s.afterError h)
  | .drainCheck => if s.firstError then some (s, .exitActive, []) else some (s, .drainLen, [])
  | .drainLen => some (s, .reserveTarget s.leafBacklog.length, [])
  | .reserveActive target => some (s, .reserveRetiring target s.activeLeafDrainers, [])
  | .reserveRetiring target active =>
      if active - s.retiringLeafDrainers ≤ target then some (s, .takeFirst .drain, [])
      else some (s, .reserveCas target s.retiringLeafDrainers, [])
  | .exitRetiring =>
      some ({ s with retiringLeafDrainers := s.retiringLeafDrainers - 1 }, .exitActive, [])
  | .exitActive =>
      some ({ s with activeLeafDrainers := s.activeLeafDrainers - 1 }, .spawnLen .exit, [])
  | _ => none

/-- Reading the limits on drainers. -/
def limitsStep (cfg : SchedulerConfig) (s : Shared) (reading : LimitReading) : Pc → Option Next
  | .spawnTarget k backlog active =>
      if cfg.leafWorkerLimitForBacklog reading backlog ≤ active then some (s.afterSpawn cfg k)
      else some (s, .spawnCas k active, [])
  | .reserveTarget backlog =>
      if backlog = 0 then some (s, .takeFirst .drain, [])
      else some (s, .reserveActive (cfg.leafWorkerLimitForBacklog reading backlog), [])
  | _ => none

/-- Compare-exchanges: a drainer is spawned, or one retires. -/
def casStep (s : Shared) (strong : Bool) : Pc → Option Next
  | .spawnCas k active =>
      if strong ∧ s.activeLeafDrainers = active then
        some ({ s with activeLeafDrainers := active + 1 }, .spawnLen k, [.drainCheck])
      else some (s, .spawnLen k, [])
  | .reserveCas target retiring =>
      if strong ∧ s.retiringLeafDrainers = retiring then
        some ({ s with retiringLeafDrainers := retiring + 1 }, .exitRetiring, [])
      else some (s, .reserveActive target, [])
  | _ => none

/-- An inline leaf ends. -/
def inlineStep (s : Shared) (leaf : Leaf) : Move → Option Next
  | .endLeaf _ .processed =>
      some ({ s with processed := s.processed ++ [leaf] }, .inlineDone true, [])
  | .endLeaf _ .failed =>
      some ({ s with lost := s.lost ++ [leaf], failed := s.failed ++ [leaf] },
        .inlineDone false, [])
  | _ => none

def schedulerStep (cfg : SchedulerConfig) : Program Shared Pc Move := fun s pc move =>
  match pc with
  | .produce => produceStep s move
  | .process h batch => batch.step s h move
  | .inlineRun leaf => inlineStep s leaf move
  | pc =>
      match move with
      | .go => goStep cfg s pc
      | .limits reading => limitsStep cfg s reading pc
      | .cas strong => casStep s strong pc
      | _ => none

/-! ## The system -/

abbrev SchedulerState := Pool Shared Pc

/-- `ForgeannScheduler::new`, and the producer about to run. -/
def SchedulerState.initial : SchedulerState where
  shared := {
    leafBacklog := []
    outstandingLeafTasks := 0
    activeLeafDrainers := 0
    retiringLeafDrainers := 0
    producerActive := true
    queuedWorkMs := 0
    firstError := false
    emitters := 0
    emitFailed := false
    producerResult := none
    result := none
    emitted := []
    processed := []
    lost := []
    failed := [] }
  threads := [.produce]

abbrev SchedulerAction := Nat × Move

abbrev SchedulerConfig.step (cfg : SchedulerConfig) :
    SchedulerState → SchedulerAction → Option SchedulerState :=
  Pool.step (schedulerStep cfg)

end ForgeANN
