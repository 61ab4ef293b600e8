-- SUMMARY: Which steps of the scheduler touch the queue's credit and the count of retiring drainers.
import ForgeANN.Scheduler.Effect

/-!
# Credit and retirement

A queued leaf is credited after its push and the credit taken back after its
pop; a drainer that retires is counted from its reservation to its exit. Each of
these accesses is a program counter of its own, and no other step touches them.
-/
namespace ForgeANN

open Lib

/-- An access to the queued-work counters. -/
inductive Credit where
  /-- `add_queued_leaf_credit` -/
  | add (leaf : Leaf)
  /-- `remove_queued_leaf_credit` -/
  | remove (leaf : Leaf)
deriving DecidableEq

namespace Pc

/-- The access to `queued_work_ms` that the thread is about to make. -/
def credit : Pc → Option Credit
  | .emitCredit leaf _ => some (.add leaf)
  | .takeFirstCredit _ leaf | .takeMoreCredit _ _ _ leaf _ _ | .discardCredit leaf =>
      some (.remove leaf)
  | _ => none

/-- The thread is counted in `retiring_leaf_drainers`. -/
def retires : Pc → Bool
  | .exitRetiring => true
  | _ => false

/-- The thread neither credits a leaf nor retires. -/
structure Quiet (pc : Pc) : Prop where
  credit : pc.credit = none
  retires : pc.retires = false

end Pc

/-- What a step does to the queue, to the credit of its leaves and to the count of retiring drainers. -/
inductive LedgerEffect (cfg : SchedulerConfig) (s : Shared) (pc : Pc) : Next → Prop
  | quiet {n : Next} (hbacklog : n.1.leafBacklog = s.leafBacklog)
      (hwork : n.1.queuedWorkMs = s.queuedWorkMs)
      (hretiring : n.1.retiringLeafDrainers = s.retiringLeafDrainers) (hpc : pc.Quiet)
      (hnext : n.2.1.Quiet) (hnew : ∀ o ∈ n.2.2, o.Quiet) : LedgerEffect cfg s pc n
  | push {leaf : Leaf} {wait : Bool} (hpc : pc = .emitPush leaf wait)
      (hroom : s.leafBacklog.length < cfg.queueCapacity) :
      LedgerEffect cfg s pc
        ({ s with leafBacklog := s.leafBacklog ++ [leaf] }, .emitCredit leaf wait, [])
  | add {leaf : Leaf} {wait : Bool} (hpc : pc = .emitCredit leaf wait) :
      LedgerEffect cfg s pc
        ({ s with queuedWorkMs := s.queuedWorkMs + cfg.estimateLeafWorkMs leaf },
          .spawnLen (.pushed wait), [])
  | pop {leaf : Leaf} {backlog lost : List Leaf} {pc' : Pc}
      (hbacklog : s.leafBacklog = leaf :: backlog) (hpc : pc.Quiet)
      (hcredit : pc'.credit = some (.remove leaf)) (hretires : pc'.retires = false) :
      LedgerEffect cfg s pc ({ s with leafBacklog := backlog, lost }, pc', [])
  | remove {leaf : Leaf} {pc' : Pc} (hcredit : pc.credit = some (.remove leaf))
      (hnext : pc'.Quiet) (hhand : leaf ∈ pc'.carried ∨ pc' = .discardRelease) :
      LedgerEffect cfg s pc
        ({ s with queuedWorkMs := s.queuedWorkMs - cfg.estimateLeafWorkMs leaf }, pc', [])
  | retire {target : Nat} (hpc : pc = .reserveCas target s.retiringLeafDrainers) :
      LedgerEffect cfg s pc
        ({ s with retiringLeafDrainers := s.retiringLeafDrainers + 1 }, .exitRetiring, [])
  | retired (hpc : pc = .exitRetiring) :
      LedgerEffect cfg s pc
        ({ s with retiringLeafDrainers := s.retiringLeafDrainers - 1 }, .exitActive, [])

section

variable {cfg : SchedulerConfig} {s : Shared} {pc : Pc} {n : Next}

/-- A step that touches neither counter nor the queue, and spawns nobody. -/
theorem LedgerEffect.same {s' : Shared} {pc' : Pc} (hbacklog : s'.leafBacklog = s.leafBacklog)
    (hwork : s'.queuedWorkMs = s.queuedWorkMs)
    (hretiring : s'.retiringLeafDrainers = s.retiringLeafDrainers) (hpc : pc.Quiet)
    (hnext : pc'.Quiet) : LedgerEffect cfg s pc (s', pc', []) :=
  .quiet hbacklog hwork hretiring hpc hnext (by simp)

theorem LedgerEffect.reads {pc' : Pc} (hpc : pc.Quiet) (hnext : pc'.Quiet) :
    LedgerEffect cfg s pc (s, pc', []) :=
  .same rfl rfl rfl hpc hnext

theorem afterSpawn_ledger (k : SpawnFor) (hpc : pc.Quiet) :
    LedgerEffect cfg s pc (s.afterSpawn cfg k) := by
  cases k with
  | pushed wait =>
      simp only [Shared.afterSpawn, Shared.afterSoft]
      split_ifs
      · exact .same rfl rfl rfl hpc ⟨rfl, rfl⟩
      · exact .reads hpc ⟨rfl, rfl⟩
      · exact .same rfl rfl rfl hpc ⟨rfl, rfl⟩
      · exact .reads hpc ⟨rfl, rfl⟩
  | help h => exact .reads hpc ⟨rfl, rfl⟩
  | idle => exact .reads hpc ⟨rfl, rfl⟩
  | exit => exact .reads hpc ⟨rfl, rfl⟩

theorem afterHelp_quiet (h : Helper) : (Shared.afterHelp h).Quiet := by
  cases h <;> exact ⟨rfl, rfl⟩

theorem afterGuard_quiet (h : Helper) (ok : Bool) : (Shared.afterGuard h ok).Quiet := by
  cases ok <;> cases h <;> exact ⟨rfl, rfl⟩

theorem afterError_ledger (h : Helper) (hpc : pc.Quiet) :
    LedgerEffect cfg s pc (s.afterError h) := by
  cases h <;> exact .same rfl rfl rfl hpc ⟨rfl, rfl⟩

theorem produceStep_ledger {m : Move} (h : produceStep s m = some n) :
    LedgerEffect cfg s .produce n := by
  unfold produceStep at h
  split at h
  · cases h
    exact .quiet rfl rfl rfl ⟨rfl, rfl⟩ ⟨rfl, rfl⟩ (by simp; exact ⟨rfl, rfl⟩)
  · cases h
    exact .quiet rfl rfl rfl ⟨rfl, rfl⟩ ⟨rfl, rfl⟩ (by simp; exact ⟨rfl, rfl⟩)
  · cases h
    exact .quiet rfl rfl rfl ⟨rfl, rfl⟩ ⟨rfl, rfl⟩ (by simp; exact ⟨rfl, rfl⟩)
  · split_ifs at h
    cases h
    exact .same rfl rfl rfl ⟨rfl, rfl⟩ ⟨rfl, rfl⟩
  · cases h

theorem batchStep_ledger {h : Helper} {b : Batch} {m : Move} (hs : b.step s h m = some n) :
    LedgerEffect cfg s (.process h b) n := by
  unfold Batch.step at hs
  split at hs
  · split_ifs at hs <;> cases hs <;> exact .same rfl rfl rfl ⟨rfl, rfl⟩ ⟨rfl, rfl⟩
  · rename_i outcome
    split_ifs at hs
    cases outcome <;> cases hs <;> exact .same rfl rfl rfl ⟨rfl, rfl⟩ ⟨rfl, rfl⟩
  · split_ifs at hs
    cases hs
    exact .same rfl rfl rfl ⟨rfl, rfl⟩ ⟨rfl, rfl⟩
  · split_ifs at hs
    cases hs
    exact .same rfl rfl rfl ⟨rfl, rfl⟩ ⟨rfl, rfl⟩
  · split_ifs at hs
    cases hs
    exact .same rfl rfl rfl ⟨rfl, rfl⟩ ⟨rfl, rfl⟩
  · cases hs

theorem goStep_ledger (h : goStep cfg s pc = some n) : LedgerEffect cfg s pc n := by
  cases pc <;> simp only [goStep, reduceCtorEq] at h
  case discardPop =>
    split at h <;> cases h
    · exact .reads ⟨rfl, rfl⟩ ⟨rfl, rfl⟩
    · exact .pop ‹_› ⟨rfl, rfl⟩ rfl rfl
  case discardCredit leaf =>
    cases h
    exact .remove rfl ⟨rfl, rfl⟩ (.inr rfl)
  case emitPush leaf wait =>
    split_ifs at h <;> cases h
    · exact .push rfl ‹_›
    · exact .reads ⟨rfl, rfl⟩ ⟨rfl, rfl⟩
  case emitCredit leaf wait =>
    cases h
    exact .add rfl
  case softFinalCheck credit =>
    split_ifs at h <;> cases h
    · exact .same rfl rfl rfl ⟨rfl, rfl⟩ ⟨rfl, rfl⟩
    · rw [Shared.afterSoft]
      split_ifs <;> exact .same rfl rfl rfl ⟨rfl, rfl⟩ ⟨rfl, rfl⟩
    · exact .same rfl rfl rfl ⟨rfl, rfl⟩ ⟨rfl, rfl⟩
  case waitCheck h' =>
    split_ifs at h
    · cases h
      exact afterError_ledger h' ⟨rfl, rfl⟩
    · split at h <;> cases h <;> exact .reads ⟨rfl, rfl⟩ ⟨rfl, rfl⟩
  case spawnLen k =>
    split_ifs at h <;> cases h
    · exact afterSpawn_ledger k ⟨rfl, rfl⟩
    · exact .reads ⟨rfl, rfl⟩ ⟨rfl, rfl⟩
  case takeFirst h' =>
    split at h
    · split at h <;> cases h
      · exact .reads ⟨rfl, rfl⟩ ⟨rfl, rfl⟩
      · exact .reads ⟨rfl, rfl⟩ (afterHelp_quiet h')
    · cases h
      exact .pop ‹_› ⟨rfl, rfl⟩ rfl rfl
  case takeFirstCredit h' leaf =>
    cases h
    exact .remove rfl ⟨rfl, rfl⟩ (.inl (by simp [Pc.carried]))
  case takeMore h' first rest maxLeaves maxPoints =>
    split_ifs at h
    · split at h <;> cases h
      · exact .reads ⟨rfl, rfl⟩ ⟨rfl, rfl⟩
      · exact .pop ‹_› ⟨rfl, rfl⟩ rfl rfl
    · cases h
      exact .reads ⟨rfl, rfl⟩ ⟨rfl, rfl⟩
  case takeMoreCredit h' first rest leaf maxLeaves maxPoints =>
    cases h
    exact .remove rfl ⟨rfl, rfl⟩ (.inl (by simp [Pc.carried]))
  case dropGuard h' n ok =>
    split at h <;> cases h
    · exact .same rfl rfl rfl ⟨rfl, rfl⟩ ⟨rfl, rfl⟩
    · exact .same rfl rfl rfl ⟨rfl, rfl⟩ (afterGuard_quiet h' ok)
  case helpFailed h' =>
    cases h
    exact afterError_ledger h' ⟨rfl, rfl⟩
  case exitRetiring =>
    cases h
    exact .retired rfl
  all_goals first
    | cases h; exact .same rfl rfl rfl ⟨rfl, rfl⟩ ⟨rfl, rfl⟩
    | split_ifs at h <;> cases h <;> exact .same rfl rfl rfl ⟨rfl, rfl⟩ ⟨rfl, rfl⟩

/-- Every step of a thread has one of these effects on the ledger. -/
theorem schedulerStep_ledger {m : Move} (h : schedulerStep cfg s pc m = some n) :
    LedgerEffect cfg s pc n := by
  unfold schedulerStep at h
  split at h
  · exact produceStep_ledger h
  · exact batchStep_ledger h
  · unfold inlineStep at h
    split at h <;> cases h <;> exact .same rfl rfl rfl ⟨rfl, rfl⟩ ⟨rfl, rfl⟩
  · split at h
    · exact goStep_ledger h
    · unfold limitsStep at h
      split at h
      · split_ifs at h <;> cases h
        · exact afterSpawn_ledger _ ⟨rfl, rfl⟩
        · exact .reads ⟨rfl, rfl⟩ ⟨rfl, rfl⟩
      · split_ifs at h <;> cases h <;> exact .reads ⟨rfl, rfl⟩ ⟨rfl, rfl⟩
      · cases h
    · unfold casStep at h
      split at h
      · split_ifs at h <;> cases h
        · exact .quiet rfl rfl rfl ⟨rfl, rfl⟩ ⟨rfl, rfl⟩ (by simp; exact ⟨rfl, rfl⟩)
        · exact .reads ⟨rfl, rfl⟩ ⟨rfl, rfl⟩
      · split_ifs at h with hcas <;> cases h
        · rw [← hcas.2]
          exact .retire rfl
        · exact .reads ⟨rfl, rfl⟩ ⟨rfl, rfl⟩
      · cases h
    · cases h

end

end ForgeANN
