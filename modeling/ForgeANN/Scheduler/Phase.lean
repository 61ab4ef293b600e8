-- SUMMARY: What the program counters of the waiting thread say about the shared state.
import ForgeANN.Scheduler.Books

/-!
# Phases of the waiting thread

The queue is discarded only after a failed producer, and the last check for an
error is made only with no leaf outstanding.
-/
namespace ForgeANN

open Lib

/-- The queue is being discarded. -/
def Pc.discards : Pc → Bool
  | .markProducerFinished ok => !ok
  | .discardPop | .discardCredit _ | .discardRelease => true
  | _ => false

/-- What the program counters of the waiting thread say about the shared state. -/
structure Phase (s : Shared) (pc : Pc) : Prop where
  checked : pc = .idleFinalCheck → s.outstandingLeafTasks = 0
  discards : pc.discards = true → s.producerResult = some false
  drain : pc ≠ .helpFailed .drain

/-- A program counter that `Phase` says nothing about. -/
def Pc.plain : Pc → Bool
  | .markProducerFinished ok => ok
  | .discardPop | .discardCredit _ | .discardRelease | .idleFinalCheck | .helpFailed .drain => false
  | _ => true

section

variable {cfg : SchedulerConfig} {s s' : Shared} {pc pc' : Pc} {new : List Pc}

theorem Phase.of_plain (h : pc.plain = true) : Phase s pc := by
  constructor
  · rintro rfl
    cases h
  · intro hdiscards
    cases pc <;> simp_all [Pc.plain, Pc.discards]
  · rintro rfl
    cases h

theorem afterSpawn_plain (k : SpawnFor) : (s.afterSpawn cfg k).2.1.plain = true := by
  cases k with
  | pushed wait =>
      simp only [Shared.afterSpawn, Shared.afterSoft]
      split_ifs <;> rfl
  | help h => rfl
  | idle => rfl
  | exit => rfl

theorem afterHelp_plain (h : Helper) : (Shared.afterHelp h).plain = true := by
  cases h <;> rfl

theorem afterGuard_plain (h : Helper) (ok : Bool) : (Shared.afterGuard h ok).plain = true := by
  cases ok <;> cases h <;> rfl

theorem afterError_plain (h : Helper) : (s.afterError h).2.1.plain = true := by
  cases h <;> rfl

theorem produceStep_phase {m : Move} {n : Next} (h : produceStep s m = some n) :
    Phase n.1 n.2.1 := by
  unfold produceStep at h
  split at h
  · cases h; exact .of_plain rfl
  · cases h; exact .of_plain rfl
  · cases h; exact .of_plain rfl
  · rename_i ok
    split_ifs at h
    cases h
    cases ok with
    | true => exact .of_plain rfl
    | false => exact ⟨by simp, fun _ => rfl, by simp⟩
  · cases h

theorem batchStep_plain {h : Helper} {b : Batch} {m : Move} {n : Next}
    (hs : b.step s h m = some n) : n.2.1.plain = true := by
  unfold Batch.step at hs
  split at hs
  · split_ifs at hs <;> cases hs <;> rfl
  · rename_i outcome
    split_ifs at hs
    cases outcome <;> cases hs <;> rfl
  · split_ifs at hs
    cases hs; rfl
  · split_ifs at hs
    cases hs; rfl
  · split_ifs at hs
    cases hs; rfl
  · cases hs

theorem goStep_phase {n : Next} (h : goStep cfg s pc = some n) (hphase : Phase s pc) :
    Phase n.1 n.2.1 := by
  cases pc <;> simp only [goStep, reduceCtorEq] at h
  case markProducerFinished ok =>
    split_ifs at h with hok <;> cases h
    · exact .of_plain rfl
    · exact ⟨by simp, fun _ => hphase.discards (by simpa [Pc.discards] using hok), by simp⟩
  case discardPop =>
    split at h <;> cases h
    · exact .of_plain rfl
    · exact ⟨by simp, fun _ => hphase.discards rfl, by simp⟩
  case discardCredit leaf =>
    cases h
    exact ⟨by simp, fun _ => hphase.discards rfl, by simp⟩
  case discardRelease =>
    cases h
    exact ⟨by simp, fun _ => hphase.discards rfl, by simp⟩
  case idleOutstanding =>
    split_ifs at h with hzero <;> cases h
    · exact ⟨fun _ => hzero, by simp [Pc.discards], by simp⟩
    · exact .of_plain rfl
  case softFinalCheck credit =>
    split_ifs at h <;> cases h
    · exact .of_plain rfl
    · exact .of_plain (by simp only [Shared.afterSoft]; split_ifs <;> rfl)
    · exact .of_plain rfl
  case waitCheck h' =>
    split_ifs at h
    · cases h; exact .of_plain (afterError_plain h')
    · split at h <;> cases h <;> exact .of_plain rfl
  case spawnLen k =>
    split_ifs at h <;> cases h
    · exact .of_plain (afterSpawn_plain k)
    · exact .of_plain rfl
  case takeFirst h' =>
    split at h
    · split at h <;> cases h
      · exact .of_plain rfl
      · exact .of_plain (afterHelp_plain h')
    · cases h; exact .of_plain rfl
  case takeMore h' first rest maxLeaves maxPoints =>
    split_ifs at h
    · split at h <;> cases h <;> exact .of_plain rfl
    · cases h; exact .of_plain rfl
  case dropGuard h' n ok =>
    split at h <;> cases h
    · exact .of_plain rfl
    · exact .of_plain (afterGuard_plain h' ok)
  case helpFailed h' =>
    cases h
    exact .of_plain (afterError_plain h')
  all_goals first
    | cases h; exact .of_plain rfl
    | split_ifs at h <;> cases h <;> exact .of_plain rfl

theorem schedulerStep_phase {m : Move} {n : Next} (h : schedulerStep cfg s pc m = some n)
    (hphase : Phase s pc) : Phase n.1 n.2.1 := by
  unfold schedulerStep at h
  split at h
  · exact produceStep_phase h
  · exact .of_plain (batchStep_plain h)
  · unfold inlineStep at h
    split at h <;> cases h <;> exact .of_plain rfl
  · split at h
    · exact goStep_phase h hphase
    · unfold limitsStep at h
      split at h
      · split_ifs at h <;> cases h
        · exact .of_plain (afterSpawn_plain _)
        · exact .of_plain rfl
      · split_ifs at h <;> cases h <;> exact .of_plain rfl
      · cases h
    · unfold casStep at h
      split at h
      · split_ifs at h <;> cases h <;> exact .of_plain rfl
      · split_ifs at h <;> cases h <;> exact .of_plain rfl
      · cases h
    · cases h

end

end ForgeANN
