-- SUMMARY: What one step of the scheduler can do, in terms of what each thread accounts for.
import ForgeANN.Scheduler.Model

/-!
# Effects

Each program counter accounts for some of the shared counters and leaves. A step
has one of a few effects on these accounts; every invariant of the scheduler is
derived from them.
-/
namespace ForgeANN

open Lib

/-! ## What a thread accounts for -/

inductive Owner where
  /-- The producer. -/
  | producer
  /-- `run_scheduler_scope` after the producer. -/
  | main
  | emitter
  /-- Counted in `active_leaf_drainers`. -/
  | drainer
  /-- A drainer in its last `maybe_spawn_leaf_drainer`. -/
  | leaving
  | done
deriving DecidableEq, Repr

namespace Helper

def owner : Helper → Owner
  | .retry _ _ | .soft _ _ | .credit => .emitter
  | .idle => .main
  | .drain => .drainer

def inHand : Helper → List Leaf
  | .retry leaf _ => [leaf]
  | _ => []

end Helper

namespace SpawnFor

def owner : SpawnFor → Owner
  | .pushed _ => .emitter
  | .help h => h.owner
  | .idle => .main
  | .exit => .leaving

def inHand : SpawnFor → List Leaf
  | .help h => h.inHand
  | _ => []

end SpawnFor

namespace Pc

def owner : Pc → Owner
  | .produce => .producer
  | .markProducerFinished _ | .discardPop | .discardCredit _ | .discardRelease
  | .idleOutstanding | .idleFinalCheck => .main
  | .emitCheck _ _ | .emitReserve _ _ | .emitPush _ _ | .emitCredit _ _ | .emitRelease _ _
  | .softLen _ _ | .softFinalCheck _ | .creditWork | .creditOutstanding | .creditFinalCheck
  | .inlineCheck _ | .inlineRun _ | .inlineDone _ => .emitter
  | .waitCheck h | .takeFirst h | .takeFirstCredit h _ | .takeLen h _ | .takeLimits h _ _
  | .takeMore h _ _ _ _ | .takeMoreCredit h _ _ _ _ _ | .process h _ | .dropGuard h _ _
  | .helpFailed h => h.owner
  | .spawnLen k | .spawnActive k _ | .spawnTarget k _ _ | .spawnCas k _ => k.owner
  | .recordError | .drainCheck | .drainLen | .reserveTarget _ | .reserveActive _
  | .reserveRetiring _ _ | .reserveCas _ _ | .exitRetiring | .exitActive => .drainer
  | .finished => .done

/-- The thread's part of `outstanding_leaf_tasks`. -/
def held : Pc → Nat
  | .emitPush _ _ | .emitRelease _ _ | .discardCredit _ | .discardRelease => 1
  | .takeFirstCredit _ _ | .takeLen _ _ | .takeLimits _ _ _ => 1
  | .takeMore _ _ rest _ _ => rest.length + 1
  | .takeMoreCredit _ _ rest _ _ _ => rest.length + 2
  | .process _ batch => batch.count
  | .dropGuard _ n _ => n + 1
  | _ => 0

/-- The leaves only this thread knows of. -/
def carried : Pc → List Leaf
  | .emitCheck leaf _ | .emitReserve leaf _ | .emitPush leaf _ | .emitRelease leaf _
  | .inlineCheck leaf | .inlineRun leaf => [leaf]
  | .waitCheck h | .takeFirst h | .dropGuard h _ _ | .helpFailed h => h.inHand
  | .takeFirstCredit h leaf | .takeLen h leaf | .takeLimits h leaf _ => leaf :: h.inHand
  | .takeMore h first rest _ _ => (first :: rest) ++ h.inHand
  | .takeMoreCredit h first rest leaf _ _ => leaf :: (first :: rest) ++ h.inHand
  | .process h b => b.todo ++ b.running ++ b.collected ++ h.inHand
  | .spawnLen k | .spawnActive k _ | .spawnTarget k _ _ | .spawnCas k _ => k.inHand
  | _ => []

/-- The thread is about to report an error. -/
def failing : Pc → Bool
  | .process _ b => b.failed
  | .dropGuard _ _ ok | .inlineDone ok => !ok
  | .recordError | .helpFailed _ => true
  | _ => false

@[simp] theorem produce_account : Pc.produce.owner = .producer ∧ Pc.produce.held = 0 ∧
    Pc.produce.carried = [] ∧ Pc.produce.failing = false := ⟨rfl, rfl, rfl, rfl⟩

@[simp] theorem finished_account : Pc.finished.owner = .done ∧ Pc.finished.held = 0 ∧
    Pc.finished.carried = [] ∧ Pc.finished.failing = false := ⟨rfl, rfl, rfl, rfl⟩

@[simp] theorem discardPop_account : Pc.discardPop.owner = .main ∧ Pc.discardPop.held = 0 ∧
    Pc.discardPop.carried = [] ∧ Pc.discardPop.failing = false := ⟨rfl, rfl, rfl, rfl⟩

@[simp] theorem recordError_account : Pc.recordError.owner = .drainer ∧ Pc.recordError.held = 0 ∧
    Pc.recordError.carried = [] ∧ Pc.recordError.failing = true := ⟨rfl, rfl, rfl, rfl⟩

@[simp] theorem exitActive_account : Pc.exitActive.owner = .drainer ∧ Pc.exitActive.held = 0 ∧
    Pc.exitActive.carried = [] ∧ Pc.exitActive.failing = false := ⟨rfl, rfl, rfl, rfl⟩

@[simp] theorem drainCheck_account : Pc.drainCheck.owner = .drainer ∧ Pc.drainCheck.held = 0 ∧
    Pc.drainCheck.carried = [] ∧ Pc.drainCheck.failing = false := ⟨rfl, rfl, rfl, rfl⟩

@[simp] theorem markProducerFinished_account (ok : Bool) :
    (markProducerFinished ok).owner = .main ∧ (markProducerFinished ok).held = 0 ∧
      (markProducerFinished ok).carried = [] ∧ (markProducerFinished ok).failing = false :=
  ⟨rfl, rfl, rfl, rfl⟩

@[simp] theorem emitCredit_account (leaf : Leaf) (wait : Bool) :
    (emitCredit leaf wait).owner = .emitter ∧ (emitCredit leaf wait).held = 0 ∧
      (emitCredit leaf wait).carried = [] ∧ (emitCredit leaf wait).failing = false :=
  ⟨rfl, rfl, rfl, rfl⟩

@[simp] theorem discardCredit_account (leaf : Leaf) :
    (discardCredit leaf).owner = .main ∧ (discardCredit leaf).held = 1 ∧
      (discardCredit leaf).carried = [] ∧ (discardCredit leaf).failing = false :=
  ⟨rfl, rfl, rfl, rfl⟩

@[simp] theorem spawnLen_account (k : SpawnFor) :
    (spawnLen k).owner = k.owner ∧ (spawnLen k).held = 0 ∧
      (spawnLen k).carried = k.inHand ∧ (spawnLen k).failing = false :=
  ⟨rfl, rfl, rfl, rfl⟩

end Pc

/-- The accounts of a thread are those of another. -/
structure SameAccount (pc pc' : Pc) : Prop where
  owner : pc'.owner = pc.owner
  held : pc'.held = pc.held
  carried : pc'.carried.Perm pc.carried
  failing : pc'.failing = pc.failing

/-- What a step can do. -/
inductive Effect (s : Shared) (pc : Pc) : Next → Prop
  /-- No account changes; the untracked fields may. -/
  | stay (work : UInt64) (active : Bool) (retiring : Nat) {pc' : Pc} (h : SameAccount pc pc') :
      Effect s pc ({ s with
        queuedWorkMs := work
        producerActive := active
        retiringLeafDrainers := retiring }, pc', [])
  | start (hpc : pc = .produce) (leaves : List Leaf) {first : Pc} (howner : first.owner = .emitter)
      (hheld : first.held = 0) (hcarried : first.carried = leaves) (hfailing : first.failing = false) :
      Effect s pc ({ s with
        emitters := s.emitters + 1
        emitted := s.emitted ++ leaves }, .produce, [first])
  | ret (hpc : pc = .produce) (ok : Bool) (hemitters : s.emitters = 0)
      (hok : ok = true → s.emitFailed = false) :
      Effect s pc ({ s with producerResult := some ok }, .markProducerFinished ok, [])
  | reserve {pc' : Pc} (howner : pc.owner = .emitter ∧ pc'.owner = .emitter)
      (hheld : pc'.held = pc.held + 1) (hcarried : pc'.carried = pc.carried)
      (hfailing : pc'.failing = pc.failing) :
      Effect s pc ({ s with outstandingLeafTasks := s.outstandingLeafTasks + 1 }, pc', [])
  | release {pc' : Pc} (howner : pc'.owner = pc.owner) (hheld : pc.held = pc'.held + 1)
      (hcarried : pc'.carried = pc.carried) (hfailing : pc'.failing = pc.failing) :
      Effect s pc ({ s with outstandingLeafTasks := s.outstandingLeafTasks - 1 }, pc', [])
  | push (leaf : Leaf) (wait : Bool) (howner : pc.owner = .emitter) (hheld : pc.held = 1)
      (hcarried : pc.carried = [leaf]) (hfailing : pc.failing = false) :
      Effect s pc ({ s with leafBacklog := s.leafBacklog ++ [leaf] }, .emitCredit leaf wait, [])
  | pop {pc' : Pc} {leaf : Leaf} {backlog : List Leaf} (hbacklog : s.leafBacklog = leaf :: backlog)
      (howner : pc'.owner = pc.owner) (hheld : pc'.held = pc.held + 1)
      (hcarried : pc'.carried = leaf :: pc.carried) (hfailing : pc'.failing = pc.failing) :
      Effect s pc ({ s with leafBacklog := backlog }, pc', [])
  | discard (hpc : pc = .discardPop) {leaf : Leaf} {backlog : List Leaf}
      (hbacklog : s.leafBacklog = leaf :: backlog) :
      Effect s pc ({ s with
        leafBacklog := backlog
        lost := s.lost ++ [leaf] }, .discardCredit leaf, [])
  | process {pc' : Pc} (leaves : List Leaf) (howner : pc'.owner = pc.owner)
      (hheld : pc'.held = pc.held) (hcarried : pc.carried.Perm (leaves ++ pc'.carried))
      (hfailing : pc'.failing = pc.failing) :
      Effect s pc ({ s with processed := s.processed ++ leaves }, pc', [])
  | lose {pc' : Pc} (leaves failed : List Leaf) (howner : pc'.owner = pc.owner)
      (hheld : pc'.held = pc.held) (hcarried : pc.carried.Perm (leaves ++ pc'.carried))
      (hfailing : pc'.failing = true) (hfailed : failed ≠ [] → leaves ≠ [])
      (hcause : pc.failing = true ∨ s.firstError = true ∨ failed ≠ []) :
      Effect s pc ({ s with
        lost := s.lost ++ leaves
        failed := s.failed ++ failed }, pc', [])
  | emitOk (howner : pc.owner = .emitter) (hheld : pc.held = 0) (hcarried : pc.carried = [])
      (hfailing : pc.failing = false) : Effect s pc s.emitOk
  | emitErr (dropped : List Leaf) (howner : pc.owner = .emitter) (hheld : pc.held = 0)
      (hcarried : pc.carried = dropped) : Effect s pc (s.emitErr dropped)
  | finish (ok : Bool) (howner : pc.owner = .main) (hheld : pc.held = 0) (hcarried : pc.carried = [])
      (hok : ok = true → pc = .idleFinalCheck ∧ s.firstError = false ∧ s.producerResult = some true) :
      Effect s pc (s.finish ok)
  | record (hpc : pc = .recordError) : Effect s pc ({ s with firstError := true }, .exitActive, [])
  | spawn {pc' : Pc} (h : SameAccount pc pc') :
      Effect s pc ({ s with activeLeafDrainers := s.activeLeafDrainers + 1 }, pc', [.drainCheck])
  | leave (hpc : pc = .exitActive) :
      Effect s pc ({ s with activeLeafDrainers := s.activeLeafDrainers - 1 }, .spawnLen .exit, [])
  | gone (howner : pc.owner = .leaving) (hheld : pc.held = 0) (hcarried : pc.carried = [])
      (hfailing : pc.failing = false) : Effect s pc (s, .finished, [])

namespace Effect

variable {s : Shared} {pc pc' : Pc}

/-- A step that only reads. -/
theorem read (h : SameAccount pc pc') : Effect s pc (s, pc', []) :=
  .stay s.queuedWorkMs s.producerActive s.retiringLeafDrainers h

end Effect

/-! ## Every step has an effect -/

section

variable {cfg : SchedulerConfig} {s : Shared} {pc : Pc} {n : Next}

@[simp] theorem Batch.new_count (first : Leaf) (rest : List Leaf) :
    (Batch.new first rest).count = rest.length + 1 := rfl

theorem afterHelp_account (h : Helper) :
    (Shared.afterHelp h).owner = h.owner ∧ (Shared.afterHelp h).held = 0 ∧
      (Shared.afterHelp h).carried = h.inHand ∧ (Shared.afterHelp h).failing = false := by
  cases h <;> exact ⟨rfl, rfl, rfl, rfl⟩

theorem afterGuard_account (h : Helper) (ok : Bool) :
    (Shared.afterGuard h ok).owner = h.owner ∧ (Shared.afterGuard h ok).held = 0 ∧
      (Shared.afterGuard h ok).carried = h.inHand ∧ (Shared.afterGuard h ok).failing = !ok := by
  cases ok <;> cases h <;> exact ⟨rfl, rfl, rfl, rfl⟩

/-- Leaving `maybe_spawn_leaf_drainer`. -/
theorem afterSpawn_effect {k : SpawnFor} (howner : pc.owner = k.owner) (hheld : pc.held = 0)
    (hcarried : pc.carried = k.inHand) (hfailing : pc.failing = false) :
    Effect s pc (s.afterSpawn cfg k) := by
  cases k with
  | pushed wait =>
      simp only [Shared.afterSpawn, Shared.afterSoft]
      split_ifs
      · exact .emitOk howner hheld hcarried hfailing
      · exact .read ⟨howner.symm, hheld.symm, .of_eq hcarried.symm, hfailing.symm⟩
      · exact .emitOk howner hheld hcarried hfailing
      · exact .read ⟨howner.symm, hheld.symm, .of_eq hcarried.symm, hfailing.symm⟩
  | help h => exact .read ⟨howner.symm, hheld.symm, .of_eq hcarried.symm, hfailing.symm⟩
  | idle => exact .read ⟨howner.symm, hheld.symm, .of_eq hcarried.symm, hfailing.symm⟩
  | exit => exact .gone howner hheld hcarried hfailing

/-- Returning an error that has been recorded, or is in hand. -/
theorem afterError_effect {h : Helper} (howner : pc.owner = h.owner) (hheld : pc.held = 0)
    (hcarried : pc.carried = h.inHand)
    (hcause : pc.failing = true ∨ s.firstError = true) : Effect s pc (s.afterError h) := by
  cases h with
  | retry leaf wait => exact .emitErr [leaf] howner hheld hcarried
  | soft target credit => exact .emitErr [] howner hheld hcarried
  | credit => exact .emitErr [] howner hheld hcarried
  | idle => exact .finish false howner hheld hcarried (by simp)
  | drain =>
      have h : Effect s pc ({ s with lost := s.lost ++ [], failed := s.failed ++ [] }, .recordError, []) :=
        .lose [] [] howner.symm hheld.symm (.of_eq hcarried) rfl (by simp)
          (hcause.elim .inl fun h => .inr (.inl h))
      rw [List.append_nil, List.append_nil] at h
      exact h

/-- The accounts of two program counters agree by computation. -/
theorem Effect.reads {pc' : Pc} (howner : pc'.owner = pc.owner) (hheld : pc'.held = pc.held)
    (hcarried : pc'.carried = pc.carried) (hfailing : pc'.failing = pc.failing) :
    Effect s pc (s, pc', []) :=
  .read ⟨howner, hheld, .of_eq hcarried, hfailing⟩

theorem produceStep_effect {m : Move} (h : produceStep s m = some n) : Effect s .produce n := by
  cases m <;> simp only [produceStep, reduceCtorEq] at h
  case emit leaf wait => cases h; exact .start rfl [leaf] rfl rfl rfl rfl
  case emitInline leaf => cases h; exact .start rfl [leaf] rfl rfl rfl rfl
  case waitBelow target =>
    cases h
    have h : Effect s .produce ({ s with emitters := s.emitters + 1, emitted := s.emitted ++ [] },
        .produce, [.softLen target false]) := .start rfl [] rfl rfl rfl rfl
    simpa only [List.append_nil] using h
  case ret ok =>
    split_ifs at h with hret
    cases h
    exact .ret rfl ok hret.1 fun hok => by simpa using hret.2 hok

theorem inlineStep_effect {leaf : Leaf} {m : Move} (h : inlineStep s leaf m = some n) :
    Effect s (.inlineRun leaf) n := by
  unfold inlineStep at h
  split at h <;> cases h
  · exact .process [leaf] rfl rfl (.refl _) rfl
  · exact .lose [leaf] [leaf] rfl rfl (.refl _) rfl (by simp) (.inr (.inr (by simp)))

/-- Taking a leaf out of the first of three lists. -/
private theorem erase_perm {leaf : Leaf} {todo : List Leaf} (hmem : leaf ∈ todo)
    (rest : List Leaf) : (todo ++ rest).Perm ([leaf] ++ (todo.erase leaf ++ rest)) :=
  (List.perm_cons_erase hmem).append_right rest

theorem batchStep_effect {h : Helper} {b : Batch} {m : Move} (hs : b.step s h m = some n) :
    Effect s (.process h b) n := by
  unfold Batch.step at hs
  split at hs
  · -- a leaf begins
    rename_i leaf
    split_ifs at hs with hmem herr <;> cases hs
    · have heffect : Effect s (.process h b) ({ s with
            lost := s.lost ++ [leaf]
            failed := s.failed ++ [] },
          .process h { b with todo := b.todo.erase leaf, failed := true }, []) :=
        .lose [leaf] [] rfl rfl
          (by simpa only [Pc.carried, List.append_assoc] using erase_perm hmem _) rfl (by simp)
          (.inr (.inl herr))
      rw [List.append_nil] at heffect
      exact heffect
    · refine .read ⟨rfl, rfl, ?_, rfl⟩
      simp only [Pc.carried, List.append_assoc, List.cons_append]
      exact List.perm_middle.trans (erase_perm hmem _).symm
  · -- a leaf ends
    rename_i leaf outcome
    split_ifs at hs with hmem
    have htake : ∀ rest, (b.todo ++ (b.running ++ rest)).Perm
        ([leaf] ++ (b.todo ++ (b.running.erase leaf ++ rest))) :=
      fun rest => ((erase_perm hmem rest).append_left _).trans List.perm_middle
    cases outcome <;> simp only [Option.some.injEq] at hs <;> subst hs
    · refine .process [leaf] rfl rfl ?_ rfl
      simpa only [Pc.carried, List.append_assoc] using htake _
    · refine .read ⟨rfl, rfl, ?_, rfl⟩
      simp only [Pc.carried, List.append_assoc, List.cons_append]
      exact ((List.perm_middle.append_left _).trans List.perm_middle).trans (htake _).symm
    · refine .lose [leaf] [leaf] rfl rfl ?_ rfl (by simp) (.inr (.inr (by simp)))
      simpa only [Pc.carried, List.append_assoc] using htake _
  · -- the collected edges are flushed
    split_ifs at hs with hflush
    cases hs
    refine .process b.collected rfl rfl ?_ rfl
    simp only [Pc.carried, hflush.1, List.append_nil, ← List.append_assoc]
    exact List.perm_append_comm.append_right _
  · -- hydrating or flushing fails
    split_ifs at hs with habort
    cases hs
    refine .lose (b.todo ++ b.collected) (b.todo ++ b.collected) rfl rfl ?_ rfl id
      (.inr (.inr habort.2.2))
    simp [Pc.carried, habort.1]
  · -- the batch is finished
    split_ifs at hs with hfinish
    cases hs
    obtain ⟨hrunning, hend⟩ := hfinish
    have hcount : b.count = b.count - 1 + 1 := (Nat.sub_add_cancel b.count_pos).symm
    cases hfailed : b.failed with
    | true =>
        have heffect : Effect s (.process h b) ({ s with
            lost := s.lost ++ (b.todo ++ b.collected)
            failed := s.failed ++ [] }, .dropGuard h (b.count - 1) false, []) :=
          .lose (b.todo ++ b.collected) [] rfl hcount.symm (by simp [Pc.carried, hrunning]) rfl
            (by simp) (.inl hfailed)
        rw [List.append_nil] at heffect
        exact heffect
    | false =>
        have hnone : b.todo ++ b.collected = [] := by simpa [hfailed] using hend
        rw [hnone, List.append_nil]
        refine .reads rfl hcount.symm ?_ (by simp [Pc.failing, hfailed])
        have hboth := List.append_eq_nil_iff.mp hnone
        simp [Pc.carried, hrunning, hboth.1, hboth.2]
  · cases hs

theorem casStep_effect {strong : Bool} (h : casStep s strong pc = some n) : Effect s pc n := by
  unfold casStep at h
  split at h
  · rename_i k active
    split_ifs at h with hcas <;> cases h
    · rw [← hcas.2]
      exact .spawn ⟨rfl, rfl, .refl _, rfl⟩
    · exact .reads rfl rfl rfl rfl
  · split_ifs at h with hcas <;> cases h
    · exact .stay s.queuedWorkMs s.producerActive _ ⟨rfl, rfl, .refl _, rfl⟩
    · exact .reads rfl rfl rfl rfl
  · cases h

theorem limitsStep_effect {reading : LimitReading} (h : limitsStep cfg s reading pc = some n) :
    Effect s pc n := by
  unfold limitsStep at h
  split at h
  · split_ifs at h <;> cases h
    · exact afterSpawn_effect rfl rfl rfl rfl
    · exact .reads rfl rfl rfl rfl
  · split_ifs at h <;> cases h
    · exact .reads rfl rfl rfl rfl
    · exact .reads rfl rfl rfl rfl
  · cases h

theorem goStep_effect (h : goStep cfg s pc = some n) : Effect s pc n := by
  cases pc <;> simp only [goStep, reduceCtorEq] at h
  case markProducerFinished ok =>
    split_ifs at h <;> cases h
    · exact .stay s.queuedWorkMs false s.retiringLeafDrainers ⟨rfl, rfl, .refl _, rfl⟩
    · exact .stay s.queuedWorkMs false s.retiringLeafDrainers ⟨rfl, rfl, .refl _, rfl⟩
  case discardPop =>
    split at h <;> cases h
    · exact .reads rfl rfl rfl rfl
    · exact .discard rfl ‹_›
  case discardCredit leaf =>
    cases h
    exact .stay _ s.producerActive s.retiringLeafDrainers ⟨rfl, rfl, .refl _, rfl⟩
  case discardRelease =>
    cases h
    exact .release rfl rfl rfl rfl
  case idleOutstanding =>
    split_ifs at h <;> cases h
    · exact .reads rfl rfl rfl rfl
    · exact .reads rfl rfl rfl rfl
  case idleFinalCheck =>
    split_ifs at h with herr <;> cases h
    · exact .finish false rfl rfl rfl (by simp)
    · exact .finish _ rfl rfl rfl fun hok => ⟨rfl, by simpa using herr, by simpa using hok⟩
  case emitCheck leaf wait =>
    split_ifs at h <;> cases h
    · exact .emitErr [leaf] rfl rfl rfl
    · exact .reads rfl rfl rfl rfl
  case emitReserve leaf wait =>
    cases h
    exact .reserve ⟨rfl, rfl⟩ rfl rfl rfl
  case emitPush leaf wait =>
    split_ifs at h <;> cases h
    · exact .push leaf wait rfl rfl rfl rfl
    · exact .reads rfl rfl rfl rfl
  case emitCredit leaf wait =>
    cases h
    exact .stay _ s.producerActive s.retiringLeafDrainers ⟨rfl, rfl, .refl _, rfl⟩
  case emitRelease leaf wait =>
    cases h
    exact .release rfl rfl rfl rfl
  case softLen target credit =>
    split_ifs at h <;> cases h
    · exact .reads rfl rfl rfl rfl
    · exact .reads rfl rfl rfl rfl
  case softFinalCheck credit =>
    split_ifs at h <;> cases h
    · exact .emitErr [] rfl rfl rfl
    · rw [Shared.afterSoft]
      split_ifs
      · exact .reads rfl rfl rfl rfl
      · exact .emitOk rfl rfl rfl rfl
    · exact .emitOk rfl rfl rfl rfl
  case creditWork =>
    split_ifs at h <;> cases h
    · exact .reads rfl rfl rfl rfl
    · exact .reads rfl rfl rfl rfl
  case creditOutstanding =>
    split_ifs at h <;> cases h
    · exact .reads rfl rfl rfl rfl
    · exact .reads rfl rfl rfl rfl
  case creditFinalCheck =>
    split_ifs at h <;> cases h
    · exact .emitErr [] rfl rfl rfl
    · exact .emitOk rfl rfl rfl rfl
  case inlineCheck leaf =>
    split_ifs at h <;> cases h
    · exact .emitErr [leaf] rfl rfl rfl
    · exact .reads rfl rfl rfl rfl
  case inlineDone ok =>
    split_ifs at h with hok <;> cases h
    · exact .emitOk rfl rfl rfl (by simp [Pc.failing, hok])
    · exact .emitErr [] rfl rfl rfl
  case waitCheck h' =>
    split_ifs at h with herr
    · cases h
      exact afterError_effect rfl rfl rfl (.inr herr)
    · split at h <;> cases h
      · exact .reads rfl rfl rfl rfl
      · exact .reads rfl rfl rfl rfl
  case spawnLen k =>
    split_ifs at h <;> cases h
    · exact afterSpawn_effect rfl rfl rfl rfl
    · exact .reads rfl rfl rfl rfl
  case spawnActive k backlog =>
    cases h
    exact .reads rfl rfl rfl rfl
  case takeFirst h' =>
    split at h
    · split at h <;> cases h
      · exact .reads rfl rfl rfl rfl
      · obtain ⟨howner, hheld, hcarried, hfailing⟩ := afterHelp_account h'
        exact .reads howner hheld hcarried hfailing
    · cases h
      exact .pop ‹_› rfl rfl rfl rfl
  case takeFirstCredit h' leaf =>
    cases h
    exact .stay _ s.producerActive s.retiringLeafDrainers ⟨rfl, rfl, .refl _, rfl⟩
  case takeLen h' leaf =>
    split_ifs at h <;> cases h
    · exact .reads rfl rfl rfl rfl
    · exact .reads rfl rfl (by simp [Pc.carried, Batch.new]) rfl
  case takeLimits h' leaf available =>
    cases h
    exact .reads rfl rfl rfl rfl
  case takeMore h' first rest maxLeaves maxPoints =>
    split_ifs at h
    · split at h <;> cases h
      · exact .reads rfl rfl (by simp [Pc.carried, Batch.new]) rfl
      · exact .pop ‹_› rfl rfl rfl rfl
    · cases h
      exact .reads rfl rfl (by simp [Pc.carried, Batch.new]) rfl
  case takeMoreCredit h' first rest leaf maxLeaves maxPoints =>
    cases h
    refine .stay _ s.producerActive s.retiringLeafDrainers ⟨rfl, by simp [Pc.held], ?_, rfl⟩
    simp only [Pc.carried, List.cons_append, List.append_assoc, List.nil_append]
    exact (List.perm_middle.cons first).trans (List.Perm.swap ..)
  case dropGuard h' n ok =>
    split at h <;> cases h
    · exact .release rfl rfl rfl rfl
    · obtain ⟨howner, hheld, hcarried, hfailing⟩ := afterGuard_account h' ok
      exact .release howner (by rw [hheld]; rfl) hcarried hfailing
  case recordError =>
    cases h
    exact .record rfl
  case helpFailed h' =>
    cases h
    exact afterError_effect rfl rfl rfl (.inl rfl)
  case drainCheck =>
    split_ifs at h <;> cases h
    · exact .reads rfl rfl rfl rfl
    · exact .reads rfl rfl rfl rfl
  case drainLen =>
    cases h
    exact .reads rfl rfl rfl rfl
  case reserveActive target =>
    cases h
    exact .reads rfl rfl rfl rfl
  case reserveRetiring target active =>
    split_ifs at h <;> cases h
    · exact .reads rfl rfl rfl rfl
    · exact .reads rfl rfl rfl rfl
  case exitRetiring =>
    cases h
    exact .stay s.queuedWorkMs s.producerActive _ ⟨rfl, rfl, .refl _, rfl⟩
  case exitActive =>
    cases h
    exact .leave rfl

/-- Every step of a thread has one of the effects. -/
theorem schedulerStep_effect {m : Move} (h : schedulerStep cfg s pc m = some n) :
    Effect s pc n := by
  unfold schedulerStep at h
  split at h
  · exact produceStep_effect h
  · exact batchStep_effect h
  · exact inlineStep_effect h
  · split at h
    · exact goStep_effect h
    · exact limitsStep_effect h
    · exact casStep_effect h
    · cases h

end

end ForgeANN
