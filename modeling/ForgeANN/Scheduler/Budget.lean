-- SUMMARY: The scheduler's configuration: budgets, batch policy, and how many leaf drainers a backlog calls for.
import Mathlib.Data.UInt
import Mathlib.Tactic.SplitIfs

/-!
# Budgets and limits

Pure functions of the scheduler's configuration and of what it has just read
from its atomics.
-/
namespace ForgeANN

/-- `Vec<u32>`: the points of a leaf. -/
abbrev Leaf := List UInt32

structure LeafBatchDrainPolicy where
  enabled : Bool
  maxLeaves : Nat
  maxPoints : Nat
  minBacklog : Nat
  postProducerScale : Nat
  postProducerMaxLeaves : Nat
  postProducerMaxPoints : Nat
deriving DecidableEq, Repr

def LeafBatchDrainPolicy.default : LeafBatchDrainPolicy := ⟨false, 0, 0, 0, 0, 0, 0⟩

/-- `SchedulerBudget`, the batch policy, and the work-graph parameters. -/
structure SchedulerConfig where
  workerCount : Nat
  leafBacklogCapacity : Nat
  producerLeafBacklogSoftLimit : Nat
  leafBatchDrainPolicy : LeafBatchDrainPolicy
  workGraphEnabled : Bool
  workGraphTargetQueueMs : Nat
  workGraphQuantumMs : Nat
  workGraphMinTileRows : Nat
deriving DecidableEq, Repr

/-- What the atomics behind the drainer limit were when they were read. -/
structure LimitReading where
  activeLargeAssignmentCount : Nat
  producerActive : Bool
  leafDrainerLimit : Nat
  leafDrainerBackpressureLimit : Nat
deriving DecidableEq, Repr

namespace SchedulerConfig

variable (cfg : SchedulerConfig)

def queueCapacity : Nat := max cfg.leafBacklogCapacity 1

def maxLeafWorkerCapacity : Nat := max (cfg.workerCount - 1) 1

def activeProducerLeafWorkerCap : Nat :=
  if cfg.workerCount ≤ 1 then 1 else cfg.maxLeafWorkerCapacity

def effectiveLeafDrainerLimitForBacklog (reading : LimitReading) (backlog : Nat) : Nat :=
  let limit := reading.leafDrainerLimit
  if limit = 0 ∨ backlog = 0 then limit
  else if backlog * 4 < cfg.queueCapacity * 3 then limit
  else if reading.leafDrainerBackpressureLimit = 0 then limit
  else max (min reading.leafDrainerBackpressureLimit cfg.maxLeafWorkerCapacity) 1

def leafWorkerLimitForBacklog (reading : LimitReading) (backlog : Nat) : Nat :=
  if backlog = 0 then 0
  else
    let cap :=
      if 0 < reading.activeLargeAssignmentCount then max (min cfg.maxLeafWorkerCapacity 2) 1
      else if reading.producerActive then cfg.activeProducerLeafWorkerCap
      else cfg.maxLeafWorkerCapacity
    let limit := cfg.effectiveLeafDrainerLimitForBacklog reading backlog
    let cap := if limit = 0 then cap else min cap limit
    min backlog cap

/-- A backlog always calls for a drainer. -/
theorem leafWorkerLimitForBacklog_pos (reading : LimitReading) {backlog : Nat} (h : 0 < backlog) :
    0 < cfg.leafWorkerLimitForBacklog reading backlog := by
  have hcap : 0 < cfg.maxLeafWorkerCapacity := by unfold maxLeafWorkerCapacity; omega
  have hactive : 0 < cfg.activeProducerLeafWorkerCap := by
    unfold activeProducerLeafWorkerCap
    split_ifs <;> omega
  simp only [leafWorkerLimitForBacklog]
  split_ifs <;> omega

/-- The bounds `(max_leaves, max_points)` on a batch. -/
def effectiveLeafBatchLimits (producerActive : Bool) (availableWithFirst : Nat) : Nat × Nat :=
  let policy := cfg.leafBatchDrainPolicy
  if producerActive ∨ policy.postProducerScale ≤ 1 then (policy.maxLeaves, policy.maxPoints)
  else if availableWithFirst < max (policy.maxLeaves * cfg.maxLeafWorkerCapacity) policy.minBacklog then
    (policy.maxLeaves, policy.maxPoints)
  else (policy.postProducerMaxLeaves, policy.postProducerMaxPoints)

def batchesFrom (availableWithFirst : Nat) : Bool :=
  cfg.leafBatchDrainPolicy.enabled ∧ cfg.leafBatchDrainPolicy.minBacklog ≤ availableWithFirst

/-- `u64` arithmetic that saturates. -/
def saturate (n : Nat) : UInt64 := UInt64.ofNat (min n (2 ^ 64 - 1))

def targetQueuedWorkMs : UInt64 :=
  saturate (max (max cfg.workerCount 1 * max cfg.workGraphTargetQueueMs 1) 1)

def estimateLeafWorkMs (leaf : Leaf) : UInt64 :=
  if !cfg.workGraphEnabled then 0
  else
    let tileRows := max cfg.workGraphMinTileRows 1
    let tiles := max ((leaf.length + tileRows - 1) / tileRows) 1
    saturate (max (tiles * max cfg.workGraphQuantumMs 1) 1)

end SchedulerConfig
end ForgeANN
