-- SUMMARY: With an error recorded and the backlog empty, every thread runs to its end on its own.
import ForgeANN.Scheduler.Effect

/-!
# Draining

Once an error is recorded and no leaf is queued, a drainer or the waiting thread
needs nobody else to finish: it spawns no one and waits for no one.
-/
namespace ForgeANN

open Lib

/-- An error is recorded, and no leaf is queued. -/
structure Calm (s : Shared) : Prop where
  firstError : s.firstError = true
  backlog : s.leafBacklog = []

/-- A thread at `pc` can finish on its own, leaving the shared state calm. -/
def Ends (cfg : SchedulerConfig) (s : Shared) (pc : Pc) : Prop :=
  ∃ ms s', Run (soloStep (schedulerStep cfg)) (s, pc) ms (s', .finished) ∧ Calm s'

section

variable {cfg : SchedulerConfig} {s s' : Shared} {pc pc' : Pc}

theorem Ends.step (m : Move) (h : schedulerStep cfg s pc m = some (s', pc', []))
    (hends : Ends cfg s' pc') : Ends cfg s pc := by
  obtain ⟨ms, t, hr, ht⟩ := hends
  exact ⟨m :: ms, t, .cons (by rw [soloStep, h]) hr, ht⟩

theorem ends_finished (h : Calm s) : Ends cfg s .finished := ⟨[], s, .nil _, h⟩

/-! ## A drainer on its way out -/

theorem ends_exitActive (h : Calm s) : Ends cfg s .exitActive := by
  have hcalm : Calm { s with activeLeafDrainers := s.activeLeafDrainers - 1 } :=
    ⟨h.firstError, h.backlog⟩
  refine .step .go rfl (.step .go ?_ (ends_finished hcalm))
  simp [schedulerStep, goStep, h.backlog, Shared.afterSpawn]

theorem ends_exitRetiring (h : Calm s) : Ends cfg s .exitRetiring :=
  .step .go rfl (ends_exitActive ⟨h.firstError, h.backlog⟩)

theorem ends_recordError (h : Calm s) : Ends cfg s .recordError :=
  .step .go rfl (ends_exitActive ⟨rfl, h.backlog⟩)

theorem ends_drainCheck (h : Calm s) : Ends cfg s .drainCheck :=
  .step .go (by simp [schedulerStep, goStep, h.firstError]) (ends_exitActive h)

theorem ends_takeFirst_drain (h : Calm s) : Ends cfg s (.takeFirst .drain) :=
  .step .go (by simp [schedulerStep, goStep, h.backlog]) (ends_exitActive h)

/-- The retirement's compare-exchange succeeds on a fresh count. -/
theorem ends_reserveRetiring (target active : Nat) (h : Calm s) :
    Ends cfg s (.reserveRetiring target active) := by
  by_cases hle : active - s.retiringLeafDrainers ≤ target
  · exact .step .go (by simp [schedulerStep, goStep, hle]) (ends_takeFirst_drain h)
  · have hcalm : Calm { s with retiringLeafDrainers := s.retiringLeafDrainers + 1 } :=
      ⟨h.firstError, h.backlog⟩
    have hretire : Ends cfg s (.reserveCas target s.retiringLeafDrainers) :=
      .step (.cas true) (by simp [schedulerStep, casStep]) (ends_exitRetiring hcalm)
    exact .step .go (by simp [schedulerStep, goStep, hle]) hretire

theorem ends_reserveActive (target : Nat) (h : Calm s) : Ends cfg s (.reserveActive target) :=
  .step .go rfl (ends_reserveRetiring _ _ h)

theorem ends_reserveCas (target retiring : Nat) (h : Calm s) :
    Ends cfg s (.reserveCas target retiring) :=
  .step (.cas false) (by simp [schedulerStep, casStep]) (ends_reserveActive target h)

/-- Limits read with nothing in force. -/
def LimitReading.none : LimitReading := ⟨0, false, 0, 0⟩

theorem ends_reserveTarget (backlog : Nat) (h : Calm s) : Ends cfg s (.reserveTarget backlog) := by
  by_cases hzero : backlog = 0
  · exact .step (.limits .none) (by simp [schedulerStep, limitsStep, hzero]) (ends_takeFirst_drain h)
  · exact .step (.limits .none) (by simp [schedulerStep, limitsStep, hzero]; rfl)
      (ends_reserveActive _ h)

theorem ends_drainLen (h : Calm s) : Ends cfg s .drainLen :=
  .step .go rfl (ends_reserveTarget _ h)

/-! ## The waiting thread -/

/-- Returning the error. -/
theorem ends_finish (m : Move)
    (h : schedulerStep cfg s pc m = some ({ s with result := some false }, .finished, []))
    (hcalm : Calm s) : Ends cfg s pc :=
  .step m h (ends_finished ⟨hcalm.firstError, hcalm.backlog⟩)

theorem ends_waitCheck_idle (h : Calm s) : Ends cfg s (.waitCheck .idle) := by
  apply ends_finish .go _ h
  simp [schedulerStep, goStep, h.firstError, Shared.afterError, Shared.finish]

theorem ends_idleFinalCheck (h : Calm s) : Ends cfg s .idleFinalCheck := by
  apply ends_finish .go _ h
  simp [schedulerStep, goStep, h.firstError, Shared.finish]

theorem ends_idleOutstanding (h : Calm s) : Ends cfg s .idleOutstanding := by
  by_cases hzero : s.outstandingLeafTasks = 0
  · exact .step .go (by simp [schedulerStep, goStep, hzero]) (ends_idleFinalCheck h)
  · exact .step .go (by simp [schedulerStep, goStep, hzero]) (ends_waitCheck_idle h)

theorem ends_discardPop (h : Calm s) : Ends cfg s .discardPop :=
  .step .go (by simp [schedulerStep, goStep, h.backlog]) (ends_idleOutstanding h)

theorem ends_discardRelease (h : Calm s) : Ends cfg s .discardRelease :=
  .step .go rfl (ends_discardPop ⟨h.firstError, h.backlog⟩)

theorem ends_discardCredit (leaf : Leaf) (h : Calm s) : Ends cfg s (.discardCredit leaf) :=
  .step .go rfl (ends_discardRelease ⟨h.firstError, h.backlog⟩)

/-! ## Helping -/

section

variable {h : Helper}

theorem ends_takeFirst (hcalm : Calm s) (howner : h.owner ≠ .emitter) :
    Ends cfg s (.takeFirst h) := by
  cases h with
  | idle =>
      exact .step .go (by simp [schedulerStep, goStep, hcalm.backlog, Shared.afterHelp])
        (ends_idleOutstanding hcalm)
  | drain => exact ends_takeFirst_drain hcalm
  | _ => exact absurd rfl howner

theorem ends_helpFailed (hcalm : Calm s) (howner : h.owner ≠ .emitter) :
    Ends cfg s (.helpFailed h) := by
  cases h with
  | idle => exact ends_finish .go rfl hcalm
  | drain => exact .step .go rfl (ends_recordError hcalm)
  | _ => exact absurd rfl howner

theorem ends_afterGuard (ok : Bool) (hcalm : Calm s) (howner : h.owner ≠ .emitter) :
    Ends cfg s (Shared.afterGuard h ok) := by
  cases ok with
  | true =>
      cases h with
      | idle => exact ends_idleOutstanding hcalm
      | drain => exact ends_drainCheck hcalm
      | _ => exact absurd rfl howner
  | false =>
      cases h with
      | idle => exact ends_helpFailed hcalm howner
      | drain => exact ends_recordError hcalm
      | _ => exact absurd rfl howner

theorem ends_dropGuard (n : Nat) (ok : Bool) (hcalm : Calm s) (howner : h.owner ≠ .emitter) :
    Ends cfg s (.dropGuard h n ok) := by
  induction n generalizing s with
  | zero => exact .step .go rfl (ends_afterGuard ok ⟨hcalm.firstError, hcalm.backlog⟩ howner)
  | succ n ih => exact .step .go rfl (ih ⟨hcalm.firstError, hcalm.backlog⟩)

/-- A batch ends: running leaves end, waiting ones are dropped, and what was collected is flushed. -/
theorem ends_process (b : Batch) (hcalm : Calm s) (howner : h.owner ≠ .emitter) :
    Ends cfg s (.process h b) := by
  obtain ⟨count, hcount, todo, running, collected, failed⟩ := b
  induction running generalizing s with
  | cons leaf running ih =>
      have hnext : Calm { s with processed := s.processed ++ [leaf] } :=
        ⟨hcalm.firstError, hcalm.backlog⟩
      exact .step (.endLeaf leaf .processed) (by simp [schedulerStep, Batch.step]) (ih hnext)
  | nil =>
      induction todo generalizing s failed with
      | cons leaf todo ih =>
          have hnext : Calm { s with lost := s.lost ++ [leaf] } := ⟨hcalm.firstError, hcalm.backlog⟩
          exact .step (.beginLeaf leaf) (by simp [schedulerStep, Batch.step, hcalm.firstError])
            (ih true hnext)
      | nil =>
          cases failed with
          | true =>
              have hnext : Calm { s with lost := s.lost ++ collected } :=
                ⟨hcalm.firstError, hcalm.backlog⟩
              exact .step .finishBatch (by simp [schedulerStep, Batch.step])
                (ends_dropGuard (count - 1) false hnext howner)
          | false =>
              have hnext : Calm { s with processed := s.processed ++ collected } :=
                ⟨hcalm.firstError, hcalm.backlog⟩
              have hfinish : Ends cfg { s with processed := s.processed ++ collected }
                  (.process h ⟨count, hcount, [], [], [], false⟩) :=
                .step .finishBatch (by simp [schedulerStep, Batch.step])
                  (ends_dropGuard (count - 1) true hnext howner)
              exact .step .flush (by simp [schedulerStep, Batch.step]) hfinish

theorem ends_takeMore (first : Leaf) (rest : List Leaf) (maxLeaves maxPoints : Nat)
    (hcalm : Calm s) (howner : h.owner ≠ .emitter) :
    Ends cfg s (.takeMore h first rest maxLeaves maxPoints) :=
  .step .go (by simp [schedulerStep, goStep, hcalm.backlog])
    (ends_process (.new first rest) hcalm howner)

theorem ends_takeMoreCredit (first : Leaf) (rest : List Leaf) (leaf : Leaf)
    (maxLeaves maxPoints : Nat) (hcalm : Calm s) (howner : h.owner ≠ .emitter) :
    Ends cfg s (.takeMoreCredit h first rest leaf maxLeaves maxPoints) :=
  .step .go rfl (ends_takeMore _ _ _ _ ⟨hcalm.firstError, hcalm.backlog⟩ howner)

theorem ends_takeLimits (leaf : Leaf) (available : Nat) (hcalm : Calm s)
    (howner : h.owner ≠ .emitter) : Ends cfg s (.takeLimits h leaf available) :=
  .step .go rfl (ends_takeMore _ _ _ _ hcalm howner)

theorem ends_takeLen (leaf : Leaf) (hcalm : Calm s) (howner : h.owner ≠ .emitter) :
    Ends cfg s (.takeLen h leaf) := by
  by_cases hbatches : cfg.batchesFrom (s.leafBacklog.length + 1) = true
  · exact .step .go (by simp [schedulerStep, goStep, hbatches])
      (ends_takeLimits leaf (s.leafBacklog.length + 1) hcalm howner)
  · exact .step .go (by simp [schedulerStep, goStep, hbatches])
      (ends_process (.new leaf []) hcalm howner)

theorem ends_takeFirstCredit (leaf : Leaf) (hcalm : Calm s) (howner : h.owner ≠ .emitter) :
    Ends cfg s (.takeFirstCredit h leaf) :=
  .step .go rfl (ends_takeLen leaf ⟨hcalm.firstError, hcalm.backlog⟩ howner)

end

/-! ## Spawning -/

section

variable {k : SpawnFor}

theorem ends_afterSpawn (hcalm : Calm s) (howner : k.owner ≠ .emitter) : ∃ pc,
    s.afterSpawn cfg k = (s, pc, []) ∧ Ends cfg s pc := by
  cases k with
  | pushed => exact absurd rfl howner
  | help h => exact ⟨.takeFirst h, rfl, ends_takeFirst hcalm howner⟩
  | idle => exact ⟨.idleOutstanding, rfl, ends_idleOutstanding hcalm⟩
  | exit => exact ⟨.finished, rfl, ends_finished hcalm⟩

theorem ends_spawnLen (hcalm : Calm s) (howner : k.owner ≠ .emitter) :
    Ends cfg s (.spawnLen k) := by
  obtain ⟨pc, hpc, hends⟩ := ends_afterSpawn hcalm howner
  exact .step .go (by simp [schedulerStep, goStep, hcalm.backlog, hpc]) hends

theorem ends_spawnCas (active : Nat) (hcalm : Calm s) (howner : k.owner ≠ .emitter) :
    Ends cfg s (.spawnCas k active) :=
  .step (.cas false) (by simp [schedulerStep, casStep]) (ends_spawnLen hcalm howner)

theorem ends_spawnTarget (backlog active : Nat) (hcalm : Calm s) (howner : k.owner ≠ .emitter) :
    Ends cfg s (.spawnTarget k backlog active) := by
  obtain ⟨pc, hpc, hends⟩ := ends_afterSpawn hcalm howner
  by_cases hlimit : cfg.leafWorkerLimitForBacklog .none backlog ≤ active
  · exact .step (.limits .none) (by simp [schedulerStep, limitsStep, hlimit, hpc]) hends
  · exact .step (.limits .none) (by simp [schedulerStep, limitsStep, hlimit])
      (ends_spawnCas active hcalm howner)

theorem ends_spawnActive (backlog : Nat) (hcalm : Calm s) (howner : k.owner ≠ .emitter) :
    Ends cfg s (.spawnActive k backlog) :=
  .step .go rfl (ends_spawnTarget _ _ hcalm howner)

theorem ends_markProducerFinished (ok : Bool) (h : Calm s) :
    Ends cfg s (.markProducerFinished ok) := by
  have hcalm : Calm { s with producerActive := false } := ⟨h.firstError, h.backlog⟩
  cases ok with
  | true => exact .step .go rfl (ends_spawnLen hcalm (by simp [SpawnFor.owner]))
  | false => exact .step .go rfl (ends_discardPop hcalm)

end

/-- In a calm state every thread outside the producer and its emitter calls can finish on its own. -/
theorem ends_of_calm (h : Calm s) (hproducer : pc.owner ≠ .producer) (hemitter : pc.owner ≠ .emitter) :
    Ends cfg s pc := by
  cases pc with
  | produce => exact absurd rfl hproducer
  | markProducerFinished ok => exact ends_markProducerFinished ok h
  | discardPop => exact ends_discardPop h
  | discardCredit leaf => exact ends_discardCredit leaf h
  | discardRelease => exact ends_discardRelease h
  | idleOutstanding => exact ends_idleOutstanding h
  | idleFinalCheck => exact ends_idleFinalCheck h
  | waitCheck h' =>
      cases h' with
      | idle => exact ends_waitCheck_idle h
      | drain =>
          exact .step .go (by simp [schedulerStep, goStep, h.firstError, Shared.afterError])
            (ends_recordError h)
      | _ => exact absurd rfl hemitter
  | spawnLen k => exact ends_spawnLen h hemitter
  | spawnActive k backlog => exact ends_spawnActive backlog h hemitter
  | spawnTarget k backlog active => exact ends_spawnTarget backlog active h hemitter
  | spawnCas k active => exact ends_spawnCas active h hemitter
  | takeFirst h' => exact ends_takeFirst h hemitter
  | takeFirstCredit h' leaf => exact ends_takeFirstCredit leaf h hemitter
  | takeLen h' leaf => exact ends_takeLen leaf h hemitter
  | takeLimits h' leaf available => exact ends_takeLimits leaf available h hemitter
  | takeMore h' first rest maxLeaves maxPoints => exact ends_takeMore _ _ _ _ h hemitter
  | takeMoreCredit h' first rest leaf maxLeaves maxPoints =>
      exact ends_takeMoreCredit _ _ _ _ _ h hemitter
  | process h' batch => exact ends_process batch h hemitter
  | dropGuard h' n ok => exact ends_dropGuard n ok h hemitter
  | recordError => exact ends_recordError h
  | helpFailed h' => exact ends_helpFailed h hemitter
  | drainCheck => exact ends_drainCheck h
  | drainLen => exact ends_drainLen h
  | reserveTarget backlog => exact ends_reserveTarget backlog h
  | reserveActive target => exact ends_reserveActive target h
  | reserveRetiring target active => exact ends_reserveRetiring target active h
  | reserveCas target retiring => exact ends_reserveCas target retiring h
  | exitRetiring => exact ends_exitRetiring h
  | exitActive => exact ends_exitActive h
  | finished => exact ends_finished h
  | _ => exact absurd rfl hemitter

end

end ForgeANN
