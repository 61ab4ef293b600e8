-- SUMMARY: When the scheduler's scope can be left after an error, and how a queue left behind keeps drainers respawning.
import ForgeANN.Scheduler.Drain
import ForgeANN.Scheduler.Outcome

/-!
# Leaving the scope after an error

A failed producer has its queue discarded, and every thread can then finish. The
queue of a producer that returned `Ok` is discarded by nobody: once an error is
recorded the drainers leave it alone, and each one spawns the next on its way out.
-/
namespace ForgeANN

open Lib

/-- Leaves are queued behind a producer that has returned `Ok`. -/
def Abandoned (s : Shared) : Prop := s.producerResult = some true ∧ s.leafBacklog ≠ []

/-- No drainer is active, and every thread of the scope has finished. -/
structure Quiescent (p : SchedulerState) : Prop where
  active : p.shared.activeLeafDrainers = 0
  finished : ∀ pc ∈ p.threads, pc = .finished

namespace Pc

/-- The thread is an active drainer, or on its way to find that it must spawn one. -/
def attends (pc : Pc) : Bool :=
  pc.owner = .drainer ||
    match pc with
    | .emitCredit _ _ | .spawnLen _ | .spawnCas _ 0 => true
    | .spawnActive _ backlog | .spawnTarget _ backlog 0 => 0 < backlog
    | _ => false

/-- The thread is past its check for an error, and may still take leaves. -/
def takes : Pc → Bool
  | .drainLen | .reserveTarget _ | .reserveActive _ | .reserveRetiring _ _ | .reserveCas _ _ => true
  | .takeFirst _ | .takeFirstCredit _ _ | .takeLen _ _ | .takeLimits _ _ _
  | .takeMore _ _ _ _ _ | .takeMoreCredit _ _ _ _ _ _ => true
  | .spawnLen (.help _) | .spawnActive (.help _) _ | .spawnTarget (.help _) _ _
  | .spawnCas (.help _) _ => true
  | _ => false

end Pc

/-! ## A queue is attended to -/

section

variable {cfg : SchedulerConfig} {s s' : Shared} {pc pc' : Pc} {new : List Pc}

theorem attends_of_drainer (h : pc.owner = .drainer) : pc.attends = true := by
  simp [Pc.attends, h]

/-- An active drainer stays one until it leaves, and then attends to the queue once more. -/
theorem Effect.drainer_attends (h : Effect s pc (s', pc', new)) (howner : pc.owner = .drainer) :
    pc'.attends = true := by
  cases h with
  | stay _ _ _ h => exact attends_of_drainer (h.owner.trans howner)
  | spawn h => exact attends_of_drainer (h.owner.trans howner)
  | release ho => exact attends_of_drainer (ho.trans howner)
  | pop _ ho => exact attends_of_drainer (ho.trans howner)
  | process _ ho => exact attends_of_drainer (ho.trans howner)
  | lose _ _ ho => exact attends_of_drainer (ho.trans howner)
  | record => rfl
  | leave => rfl
  | start hpc | ret hpc | discard hpc => simp [hpc] at howner
  | reserve ho => simp [ho.1] at howner
  | push _ _ ho | emitOk ho | emitErr _ ho | finish _ ho | gone ho => simp [ho] at howner

/-- Only a push fills an empty queue, and the pusher attends to it. -/
theorem Effect.fill_attends (h : Effect s pc (s', pc', new)) (hnil : s.leafBacklog = [])
    (hne : s'.leafBacklog ≠ []) : pc'.attends = true := by
  cases h with
  | push => rfl
  | pop h => simp [hnil] at h
  | discard _ h => simp [hnil] at h
  | _ => exact absurd hnil hne

/-- Once the producer has returned, nobody fills an empty queue. -/
theorem Effect.filled (h : Effect s pc (s', pc', new)) (hstanding : Standing s pc)
    (hreturned : s.producerResult ≠ none) (hne : s'.leafBacklog ≠ []) : s.leafBacklog ≠ [] := by
  cases h with
  | push _ _ howner => exact absurd (hstanding.emitter howner) hreturned
  | pop h => simp [h]
  | discard _ h => simp [h]
  | _ => exact hne

theorem afterSpawn_backlog (cfg : SchedulerConfig) (s : Shared) (k : SpawnFor) :
    (s.afterSpawn cfg k).1.leafBacklog = s.leafBacklog ∧ (s.afterSpawn cfg k).2.2 = [] := by
  cases k with
  | pushed wait =>
      simp only [Shared.afterSpawn, Shared.afterSoft]
      split_ifs <;> exact ⟨rfl, rfl⟩
  | help h => exact ⟨rfl, rfl⟩
  | idle => exact ⟨rfl, rfl⟩
  | exit => exact ⟨rfl, rfl⟩

/-- A thread that attends to the queue, while there is one, passes on to another state that does,
spawns a drainer, or has seen an active one. -/
theorem schedulerStep_attends {m : Move} (h : schedulerStep cfg s pc m = some (s', pc', new))
    (hattends : pc.attends = true) (hne : s'.leafBacklog ≠ []) :
    (∃ o ∈ pc' :: new, o.attends = true) ∨ pc.owner ≠ .drainer ∧ 0 < s.activeLeafDrainers := by
  by_cases howner : pc.owner = .drainer
  · exact .inl ⟨pc', List.mem_cons_self, (schedulerStep_effect h).drainer_attends howner⟩
  cases pc <;> simp only [Pc.attends, howner, decide_false, Bool.false_or, reduceCtorEq] at hattends
  case emitCredit leaf wait =>
    cases m <;> cases h
    exact .inl ⟨_, List.mem_cons_self, rfl⟩
  case spawnLen k =>
    cases m <;> simp only [schedulerStep, goStep, limitsStep, casStep, reduceCtorEq] at h
    split_ifs at h with hzero
    · have hbacklog := (afterSpawn_backlog cfg s k).1
      rw [Option.some.inj h] at hbacklog
      exact absurd (List.eq_nil_of_length_eq_zero hzero) (hbacklog ▸ hne)
    · cases h
      refine .inl ⟨_, List.mem_cons_self, ?_⟩
      simp [Pc.attends, Nat.pos_of_ne_zero hzero]
  case spawnActive k backlog =>
    cases m <;> cases h
    cases hactive : s.activeLeafDrainers with
    | zero =>
        refine .inl ⟨_, List.mem_cons_self, ?_⟩
        rw [Pc.attends, Bool.or_eq_true]
        exact .inr hattends
    | succ n => exact .inr ⟨howner, Nat.succ_pos n⟩
  case spawnTarget k backlog active =>
    cases active with
    | succ active => cases hattends
    | zero =>
        cases m <;> simp only [schedulerStep, goStep, limitsStep, casStep, reduceCtorEq] at h
        rename_i reading
        have hlimit := cfg.leafWorkerLimitForBacklog_pos reading (of_decide_eq_true hattends)
        rw [if_neg (Nat.not_le.mpr hlimit)] at h
        cases h
        exact .inl ⟨_, List.mem_cons_self, by simp [Pc.attends]⟩
  case spawnCas k active =>
    cases m <;> simp only [schedulerStep, goStep, limitsStep, casStep, reduceCtorEq] at h
    split_ifs at h <;> cases h
    · exact .inl ⟨.drainCheck, by simp, rfl⟩
    · exact .inl ⟨_, List.mem_cons_self, by simp [Pc.attends]⟩

/-- A failed producer has its queue discarded. -/
theorem Effect.failed_discards (h : Effect s pc (s', pc', new))
    (hbefore : s.producerResult ≠ some false) (hafter : s'.producerResult = some false) :
    pc'.discards = true := by
  cases h with
  | ret _ ok =>
      cases hafter
      rfl
  | _ => exact absurd hafter hbefore

/-- Discarding goes on until the queue is empty. -/
theorem schedulerStep_discards {m : Move} (h : schedulerStep cfg s pc m = some (s', pc', new))
    (hdiscards : pc.discards = true) (hne : s'.leafBacklog ≠ []) : pc'.discards = true := by
  cases pc <;> simp only [Pc.discards, reduceCtorEq, Bool.not_eq_true'] at hdiscards
  case markProducerFinished ok =>
    subst hdiscards
    cases m <;> cases h
    rfl
  case discardPop =>
    cases m <;> simp only [schedulerStep, goStep, limitsStep, casStep, reduceCtorEq] at h
    split at h <;> cases h
    · exact absurd ‹_› hne
    · rfl
  case discardCredit leaf =>
    cases m <;> cases h
    rfl
  case discardRelease =>
    cases m <;> cases h
    rfl

/-! ## A queue left behind -/

/-- Returning the error takes no leaf. -/
theorem afterError_stuck (h : Helper) : (s.afterError h).1.leafBacklog = s.leafBacklog ∧
    (s.afterError h).2.1.takes = false ∧ (s.afterError h).2.2 = [] := by
  cases h <;> exact ⟨rfl, rfl, rfl⟩

theorem afterGuard_takes (h : Helper) (ok : Bool) : (Shared.afterGuard h ok).takes = false := by
  cases ok <;> cases h <;> rfl

theorem afterSpawn_takes {k : SpawnFor} (h : (Pc.spawnLen k).takes = false) :
    (s.afterSpawn cfg k).2.1.takes = false := by
  cases k with
  | pushed wait =>
      simp only [Shared.afterSpawn, Shared.afterSoft]
      split_ifs <;> rfl
  | help h' => cases h
  | idle => rfl
  | exit => rfl

/-- Where the spawner returns to is all that matters to whether it takes leaves. -/
theorem spawn_takes (k : SpawnFor) (backlog active : Nat) :
    (Pc.spawnActive k backlog).takes = (Pc.spawnLen k).takes ∧
      (Pc.spawnTarget k backlog active).takes = (Pc.spawnLen k).takes ∧
      (Pc.spawnCas k active).takes = (Pc.spawnLen k).takes := by
  cases k <;> exact ⟨rfl, rfl, rfl⟩

theorem batchStep_stuck {h : Helper} {b : Batch} {m : Move} {n : Next}
    (hs : b.step s h m = some n) :
    n.1.leafBacklog = s.leafBacklog ∧ n.2.1.takes = false ∧ n.2.2 = [] := by
  unfold Batch.step at hs
  split at hs
  · split_ifs at hs <;> cases hs <;> exact ⟨rfl, rfl, rfl⟩
  · rename_i outcome
    split_ifs at hs
    cases outcome <;> cases hs <;> exact ⟨rfl, rfl, rfl⟩
  · split_ifs at hs
    cases hs
    exact ⟨rfl, rfl, rfl⟩
  · split_ifs at hs
    cases hs
    exact ⟨rfl, rfl, rfl⟩
  · split_ifs at hs
    cases hs
    exact ⟨rfl, rfl, rfl⟩
  · cases hs

theorem goStep_stuck {n : Next} (h : goStep cfg s pc = some n) (herr : s.firstError = true)
    (htakes : pc.takes = false) (hdiscards : pc.discards = false)
    (hemitter : pc.owner ≠ .emitter) :
    n.1.leafBacklog = s.leafBacklog ∧ n.2.1.takes = false ∧ n.2.2 = [] := by
  cases pc <;> simp only [goStep, reduceCtorEq] at h
  case markProducerFinished ok =>
    split_ifs at h <;> (cases h; exact ⟨rfl, rfl, rfl⟩)
  case idleOutstanding =>
    split_ifs at h <;> cases h <;> exact ⟨rfl, rfl, rfl⟩
  case idleFinalCheck =>
    rw [if_pos herr] at h
    cases h
    exact ⟨rfl, rfl, rfl⟩
  case waitCheck h' =>
    rw [if_pos herr] at h
    cases h
    exact afterError_stuck h'
  case spawnLen k =>
    split_ifs at h <;> cases h
    · obtain ⟨hbacklog, hnew⟩ := afterSpawn_backlog cfg s k
      exact ⟨hbacklog, afterSpawn_takes htakes, hnew⟩
    · exact ⟨rfl, (spawn_takes k s.leafBacklog.length 0).1.trans htakes, rfl⟩
  case spawnActive k backlog =>
    cases h
    obtain ⟨hactive, htarget, -⟩ := spawn_takes k backlog s.activeLeafDrainers
    exact ⟨rfl, htarget.trans (hactive.symm.trans htakes), rfl⟩
  case dropGuard h' n ok =>
    split at h <;> cases h
    · exact ⟨rfl, rfl, rfl⟩
    · exact ⟨rfl, afterGuard_takes h' ok, rfl⟩
  case recordError => cases h; exact ⟨rfl, rfl, rfl⟩
  case helpFailed h' => cases h; exact afterError_stuck h'
  case drainCheck =>
    rw [if_pos herr] at h
    cases h
    exact ⟨rfl, rfl, rfl⟩
  case exitRetiring => cases h; exact ⟨rfl, rfl, rfl⟩
  case exitActive => cases h; exact ⟨rfl, rfl, rfl⟩
  all_goals first
    | exact absurd rfl hemitter
    | simp [Pc.takes] at htakes; done
    | simp [Pc.discards] at hdiscards

theorem limitsStep_stuck {reading : LimitReading} {n : Next}
    (h : limitsStep cfg s reading pc = some n) (htakes : pc.takes = false) :
    n.1.leafBacklog = s.leafBacklog ∧ n.2.1.takes = false ∧ n.2.2 = [] := by
  unfold limitsStep at h
  split at h
  · rename_i k backlog active
    have hk := (spawn_takes k backlog active).2
    split_ifs at h <;> cases h
    · obtain ⟨hbacklog, hnew⟩ := afterSpawn_backlog cfg s k
      exact ⟨hbacklog, afterSpawn_takes (hk.1.symm.trans htakes), hnew⟩
    · exact ⟨rfl, hk.2.trans (hk.1.symm.trans htakes), rfl⟩
  · cases htakes
  · cases h

theorem casStep_stuck {strong : Bool} {n : Next} (h : casStep s strong pc = some n)
    (htakes : pc.takes = false) :
    n.1.leafBacklog = s.leafBacklog ∧ n.2.1.takes = false ∧ ∀ o ∈ n.2.2, o.takes = false := by
  unfold casStep at h
  split at h
  · rename_i k active
    have hk : (Pc.spawnLen k).takes = false := (spawn_takes k 0 active).2.2.symm.trans htakes
    split_ifs at h <;> cases h
    · exact ⟨rfl, hk, by simp [Pc.takes]⟩
    · exact ⟨rfl, hk, by simp⟩
  · cases htakes
  · cases h

/-- With an error recorded, a thread that has not passed its check leaves the queue alone. -/
theorem schedulerStep_stuck {m : Move} {n : Next} (h : schedulerStep cfg s pc m = some n)
    (herr : s.firstError = true) (htakes : pc.takes = false) (hdiscards : pc.discards = false)
    (hproducer : pc.owner ≠ .producer) (hemitter : pc.owner ≠ .emitter) :
    n.1.leafBacklog = s.leafBacklog ∧ n.2.1.takes = false ∧ ∀ o ∈ n.2.2, o.takes = false := by
  have hquiet : n.1.leafBacklog = s.leafBacklog ∧ n.2.1.takes = false ∧ n.2.2 = [] →
      n.1.leafBacklog = s.leafBacklog ∧ n.2.1.takes = false ∧ ∀ o ∈ n.2.2, o.takes = false := by
    rintro ⟨hbacklog, hnext, hnew⟩
    exact ⟨hbacklog, hnext, by simp [hnew]⟩
  unfold schedulerStep at h
  split at h
  · exact absurd rfl hproducer
  · exact hquiet (batchStep_stuck h)
  · exact absurd rfl hemitter
  · split at h
    · exact hquiet (goStep_stuck h herr htakes hdiscards hemitter)
    · exact hquiet (limitsStep_stuck h htakes)
    · exact casStep_stuck h htakes
    · cases h

end

section

variable {cfg : SchedulerConfig} {p q : SchedulerState} {a : SchedulerAction}
  {as : List SchedulerAction}

/-- Somebody attends to a queue, and a queue behind a failed producer is being discarded. -/
structure Attended (p : SchedulerState) : Prop where
  attends : p.shared.leafBacklog ≠ [] → ∃ pc ∈ p.threads, pc.attends = true
  discards : p.shared.producerResult = some false → p.shared.leafBacklog ≠ [] →
    ∃ pc ∈ p.threads, pc.discards = true

theorem Attended.initial : Attended SchedulerState.initial := by
  constructor <;> simp [SchedulerState.initial]

/-- An active drainer is one of the threads. -/
theorem Books.exists_drainer (h : Books p) (hactive : 0 < p.shared.activeLeafDrainers) :
    ∃ pc ∈ p.threads, pc.owner = .drainer := by
  by_contra hnone
  have htotal := h.active
  have hzero : p.total (Pc.owned .drainer) = 0 := by
    apply List.sum_eq_zero
    intro n hn
    obtain ⟨pc, hpc, rfl⟩ := List.mem_map.mp hn
    rw [Pc.owned, if_neg fun howner => hnone ⟨pc, hpc, howner⟩]
  omega

theorem Attended.step (h : Attended p) (hbooks : Books p) (hblame : Blame p)
    (hstep : cfg.step p a = some q) : Attended q where
  attends := by
    obtain ⟨pc, s', pc', new, hpc, hs, rfl⟩ := Pool.step_eq_some.mp hstep
    intro hne
    have hself : pc' ∈ p.threads.set a.1 pc' := Pool.mem_set_self hpc
    by_cases hnil : p.shared.leafBacklog = []
    · exact ⟨pc', List.mem_append_left _ hself, (schedulerStep_effect hs).fill_attends hnil hne⟩
    obtain ⟨o, ho, hattends⟩ := h.attends hnil
    rcases Pool.eq_or_mem_set hpc ho with rfl | ho
    · rcases schedulerStep_attends hs hattends hne with ⟨o, ho, hattends⟩ | ⟨howner, hactive⟩
      · rcases List.mem_cons.mp ho with rfl | ho
        · exact ⟨o, List.mem_append_left _ hself, hattends⟩
        · exact ⟨o, List.mem_append_right _ ho, hattends⟩
      · obtain ⟨d, hd, hdrainer⟩ := hbooks.exists_drainer hactive
        rcases Pool.eq_or_mem_set hpc hd with rfl | hd
        · exact absurd hdrainer howner
        · exact ⟨d, List.mem_append_left _ hd, attends_of_drainer hdrainer⟩
    · exact ⟨o, List.mem_append_left _ ho, hattends⟩
  discards := by
    obtain ⟨pc, s', pc', new, hpc, hs, rfl⟩ := Pool.step_eq_some.mp hstep
    have heffect := schedulerStep_effect hs
    have hself : pc'.discards = true → ∃ o ∈ p.threads.set a.1 pc' ++ new, o.discards = true :=
      fun hdiscards => ⟨pc', List.mem_append_left _ (Pool.mem_set_self hpc), hdiscards⟩
    intro hafter hne
    by_cases hbefore : p.shared.producerResult = some false
    · have hfilled : p.shared.leafBacklog ≠ [] :=
        heffect.filled (hblame.standing hbooks (List.mem_of_getElem? hpc)) (by simp [hbefore]) hne
      obtain ⟨o, ho, hdiscards⟩ := h.discards hbefore hfilled
      rcases Pool.eq_or_mem_set hpc ho with rfl | ho
      · exact hself (schedulerStep_discards hs hdiscards hne)
      · exact ⟨o, List.mem_append_left _ ho, hdiscards⟩
    · exact hself (heffect.failed_discards hbefore hafter)

theorem attended_of_run (hr : Run cfg.step SchedulerState.initial as p) :
    (Books p ∧ Blame p) ∧ Attended p :=
  Run.invariant (P := fun p => (Books p ∧ Blame p) ∧ Attended p) hr
    ⟨⟨.initial, .initial⟩, .initial⟩ fun _ _ _ h hstep =>
      ⟨⟨h.1.1.step hstep, h.1.2.step h.1.1 hstep⟩, h.2.step h.1.1 h.1.2 hstep⟩

/-! ## Stuck for good -/

/-- An error is recorded, leaves are queued behind a producer that returned `Ok`, and no thread
that could still take them is past its check. -/
structure Stuck (p : SchedulerState) : Prop where
  firstError : p.shared.firstError = true
  abandoned : Abandoned p.shared
  takes : ∀ pc ∈ p.threads, pc.takes = false

theorem Stuck.step (h : Stuck p) (hbooks : Books p) (hblame : Blame p)
    (hstep : cfg.step p a = some q) : Stuck q := by
  obtain ⟨pc, s', pc', new, hpc, hs, rfl⟩ := Pool.step_eq_some.mp hstep
  have hmem := List.mem_of_getElem? hpc
  have hstanding := hblame.standing hbooks hmem
  have heffect := schedulerStep_effect hs
  have hproducer := h.abandoned.1
  have hdiscards : pc.discards = false := by
    rw [← Bool.not_eq_true]
    intro hdiscards
    have hfalse := (hblame.phases pc hmem).discards hdiscards
    simp [hproducer] at hfalse
  obtain ⟨hbacklog, hnext, hnew⟩ := schedulerStep_stuck hs h.firstError (h.takes pc hmem) hdiscards
    (fun ho => by simp [hstanding.producer ho] at hproducer)
    (fun ho => by simp [hstanding.emitter ho] at hproducer)
  refine ⟨heffect.errors_grow.1 h.firstError, ⟨heffect.producerResult_stays hstanding hproducer, ?_⟩, ?_⟩
  · rw [show s'.leafBacklog = p.shared.leafBacklog from hbacklog]
    exact h.abandoned.2
  · intro o ho
    rcases List.mem_append.mp ho with ho | ho
    · rcases List.mem_or_eq_of_mem_set ho with ho | rfl
      · exact h.takes o ho
      · exact hnext
    · exact hnew o ho

/-- A queue left behind keeps some drainer going for ever. -/
theorem Stuck.not_quiescent (h : Stuck p) (hattended : Attended p) : ¬ Quiescent p := by
  intro hquiescent
  obtain ⟨pc, hpc, hattends⟩ := hattended.attends h.abandoned.2
  rw [hquiescent.finished pc hpc] at hattends
  cases hattends

theorem Stuck.never_quiescent {bs : List SchedulerAction} (h : Stuck p)
    (hr : Run cfg.step SchedulerState.initial as p) (hbs : Run cfg.step p bs q) : ¬ Quiescent q := by
  have hstuck : ((Books q ∧ Blame q) ∧ Attended q) ∧ Stuck q := by
    refine Run.invariant (P := fun p => ((Books p ∧ Blame p) ∧ Attended p) ∧ Stuck p) hbs
      ⟨attended_of_run hr, h⟩ ?_
    rintro u a v ⟨⟨⟨hbooks, hblame⟩, hattended⟩, hstuck⟩ hstep
    exact ⟨⟨⟨hbooks.step hstep, hblame.step hbooks hstep⟩, hattended.step hbooks hblame hstep⟩,
      hstuck.step hbooks hblame hstep⟩
  exact hstuck.2.not_quiescent hstuck.1.2

/-! ## Leaving the scope -/

/-- The waiting thread can empty the queue on its own. -/
def Empties (cfg : SchedulerConfig) (s : Shared) (pc : Pc) : Prop :=
  ∃ ms s', Run (soloStep (schedulerStep cfg)) (s, pc) ms (s', .discardPop) ∧
    s'.leafBacklog = [] ∧ s'.firstError = s.firstError

theorem Empties.step {s s' : Shared} {pc pc' : Pc}
    (h : schedulerStep cfg s pc .go = some (s', pc', [])) (herr : s'.firstError = s.firstError)
    (hempties : Empties cfg s' pc') : Empties cfg s pc := by
  obtain ⟨ms, t, hr, hnil, ht⟩ := hempties
  exact ⟨.go :: ms, t, .cons (by rw [soloStep, h]) hr, hnil, ht.trans herr⟩

theorem empties_discardPop (backlog : List Leaf) {s : Shared} (hs : s.leafBacklog = backlog) :
    Empties cfg s .discardPop := by
  induction backlog generalizing s with
  | nil => exact ⟨[], s, .nil _, hs, rfl⟩
  | cons leaf backlog ih =>
      have hrelease : ∀ t : Shared, t.leafBacklog = backlog → Empties cfg t .discardRelease :=
        fun t ht => .step rfl rfl (ih ht)
      have hcredit : ∀ t : Shared, t.leafBacklog = backlog → Empties cfg t (.discardCredit leaf) :=
        fun t ht => .step rfl rfl (hrelease _ ht)
      have hpop : schedulerStep cfg s .discardPop .go = some ({ s with
          leafBacklog := backlog
          lost := s.lost ++ [leaf] }, .discardCredit leaf, []) := by
        simp [schedulerStep, goStep, hs]
      exact .step hpop rfl (hcredit _ rfl)

theorem empties_of_discards {s : Shared} {pc : Pc} (h : pc.discards = true) : Empties cfg s pc := by
  cases pc with
  | markProducerFinished ok =>
      have hok : ok = false := by simpa [Pc.discards] using h
      subst hok
      exact .step rfl rfl (empties_discardPop _ rfl)
  | discardPop => exact empties_discardPop _ rfl
  | discardCredit leaf => exact .step rfl rfl (.step rfl rfl (empties_discardPop _ rfl))
  | discardRelease => exact .step rfl rfl (empties_discardPop _ rfl)
  | _ => cases h

theorem producerResult_of_run {ok : Bool} (hbooks : Books p) (hblame : Blame p)
    (hr : Run cfg.step p as q) (hok : p.shared.producerResult = some ok) :
    q.shared.producerResult = some ok := by
  have hkept : (Books q ∧ Blame q) ∧ q.shared.producerResult = some ok := by
    refine Run.invariant (P := fun p => (Books p ∧ Blame p) ∧ p.shared.producerResult = some ok) hr
      ⟨⟨hbooks, hblame⟩, hok⟩ ?_
    rintro u a v ⟨⟨hbooks, hblame⟩, hok⟩ hstep
    refine ⟨⟨hbooks.step hstep, hblame.step hbooks hstep⟩, ?_⟩
    obtain ⟨pc, s', pc', new, hpc, hs, rfl⟩ := Pool.step_eq_some.mp hstep
    exact (schedulerStep_effect hs).producerResult_stays
      (hblame.standing hbooks (List.mem_of_getElem? hpc)) hok
  exact hkept.2

/-- From a calm state the threads there are can all finish. -/
theorem quiesces_of_calm (hr : Run cfg.step SchedulerState.initial as p)
    (hreturned : p.shared.producerResult.isSome = true) (hcalm : Calm p.shared) :
    ∃ bs q, Run cfg.step p bs q ∧ (∀ b ∈ bs, b.1 < p.threads.length) ∧ Quiescent q := by
  obtain ⟨hbooks, hblame⟩ := blame_of_run hr
  have hend : ∀ s, Calm s → ∀ pc ∈ p.threads, ∃ ms s' pc',
      Run (soloStep (schedulerStep cfg)) (s, pc) ms (s', pc') ∧ Calm s' ∧ pc' = .finished := by
    intro s hs pc hpc
    have hstanding := hblame.standing hbooks hpc
    have hends : Ends cfg s pc := by
      apply ends_of_calm hs
      · intro ho
        simp [hstanding.producer ho] at hreturned
      · intro ho
        simp [hstanding.emitter ho] at hreturned
    obtain ⟨ms, s', hsolo, hs'⟩ := hends
    exact ⟨ms, s', .finished, hsolo, hs', rfl⟩
  obtain ⟨bs, q, hbs, hexisting, -, -, hfinished⟩ := Pool.run_all hcalm hend
  refine ⟨bs, q, hbs, hexisting, ?_, hfinished⟩
  have htotal := (books_of_run (hr.append hbs)).active
  have hzero : q.total (Pc.owned .drainer) = 0 := by
    apply List.sum_eq_zero
    intro n hn
    obtain ⟨pc, hpc, rfl⟩ := List.mem_map.mp hn
    rw [hfinished pc hpc]
    rfl
  omega

/-- After an error, the scope can be left unless leaves are queued behind a producer that returned
`Ok`; and where no thread is left that is past its check and could still take those leaves, it can
never be left. -/
theorem quiesces_unless_abandoned (cfg : SchedulerConfig)
    (hr : Run cfg.step SchedulerState.initial as p)
    (hreturned : p.shared.producerResult.isSome = true) (herr : p.shared.firstError = true) :
    (¬ Abandoned p.shared →
      ∃ bs q, Run cfg.step p bs q ∧ (∀ b ∈ bs, b.1 < p.threads.length) ∧ Quiescent q) ∧
    (Abandoned p.shared → (∀ pc ∈ p.threads, pc.takes = false) →
      ∀ bs q, Run cfg.step p bs q → ¬ Quiescent q) := by
  constructor
  · intro habandoned
    obtain ⟨⟨hbooks, hblame⟩, hattended⟩ := attended_of_run hr
    by_cases hnil : p.shared.leafBacklog = []
    · exact quiesces_of_calm hr hreturned ⟨herr, hnil⟩
    have hfailed : p.shared.producerResult = some false := by
      obtain ⟨ok, hok⟩ := Option.isSome_iff_exists.mp hreturned
      cases ok with
      | true => exact absurd ⟨hok, hnil⟩ habandoned
      | false => exact hok
    obtain ⟨pc, hpc, hdiscards⟩ := hattended.discards hfailed hnil
    have hempties : Empties cfg p.shared pc := empties_of_discards hdiscards
    obtain ⟨ms, s', hsolo, hempty, hkept⟩ := hempties
    obtain ⟨i, hi, rfl⟩ := List.mem_iff_getElem.mp hpc
    have hdiscard := Pool.run_of_solo hsolo (List.getElem?_eq_getElem hi)
    have hstill := producerResult_of_run hbooks hblame hdiscard hfailed
    obtain ⟨bs, q, hbs, hexisting, hquiescent⟩ := quiesces_of_calm (hr.append hdiscard)
      (by rw [hstill]; rfl) ⟨hkept.trans herr, hempty⟩
    refine ⟨_, q, hdiscard.append hbs, fun b hb => ?_, hquiescent⟩
    rcases List.mem_append.mp hb with hb | hb
    · obtain ⟨m, -, rfl⟩ := List.mem_map.mp hb
      exact hi
    · have hlt := hexisting b hb
      rwa [List.length_set] at hlt
  · intro habandoned htakes bs q hbs
    exact Stuck.never_quiescent ⟨herr, habandoned, htakes⟩ hr hbs

end

/-- A failed leaf with nothing queued behind it: the scope can be left. -/
theorem quiesces_unless_abandoned_alone : ∃ p,
    Run oneDrainerConfig.step SchedulerState.initial
      (emitOneLeaf ++ failOneLeaf ++ [(2, .go), (0, .ret true)]) p ∧
    (p.shared.producerResult = some true ∧ p.shared.firstError = true) ∧
    ∃ bs q, Run oneDrainerConfig.step p bs q ∧ (∀ b ∈ bs, b.1 < p.threads.length) ∧
      Quiescent q := by
  have hfollow : (follow oneDrainerConfig.step SchedulerState.initial
      (emitOneLeaf ++ failOneLeaf ++ [(2, .go), (0, .ret true)])).map
        (fun p => (p.shared.producerResult, p.shared.firstError, p.shared.leafBacklog)) =
          some (some true, true, []) := by rfl
  obtain ⟨p, hr, hp⟩ := exists_run_of_follow hfollow
  simp only [Prod.mk.injEq] at hp
  have hquiesces := quiesces_unless_abandoned oneDrainerConfig hr (by rw [hp.1]; rfl) hp.2.1
  exact ⟨p, hr, ⟨hp.1, hp.2.1⟩, hquiesces.1 fun habandoned => habandoned.2 hp.2.2⟩

/-- The producer emits `[8]` behind `[7]`, for which a drainer is active already. -/
def emitSecondLeaf : List SchedulerAction :=
  [(0, .emit [8] false), (3, .go), (3, .go), (3, .go), (3, .go), (3, .go), (3, .go),
    (3, .limits unlimited)]

/-- A second leaf queued when the first one's error is recorded and the producer returns `Ok`: the
scope is never left. -/
theorem secondLeaf_never_quiesces : ∃ p,
    Run oneDrainerConfig.step SchedulerState.initial
      (emitOneLeaf ++ failOneLeaf ++ emitSecondLeaf ++ [(2, .go), (0, .ret true)]) p ∧
    (p.shared.producerResult = some true ∧ p.shared.firstError = true) ∧
    ∀ bs q, Run oneDrainerConfig.step p bs q → ¬ Quiescent q := by
  have hfollow : (follow oneDrainerConfig.step SchedulerState.initial
      (emitOneLeaf ++ failOneLeaf ++ emitSecondLeaf ++ [(2, .go), (0, .ret true)])).map
        (fun p => (p.shared.producerResult, p.shared.firstError, p.shared.leafBacklog, p.threads)) =
          some (some true, true, [[8]],
            [.markProducerFinished true, .finished, .exitActive, .finished]) := by rfl
  obtain ⟨p, hr, hp⟩ := exists_run_of_follow hfollow
  simp only [Prod.mk.injEq] at hp
  obtain ⟨hproducer, herr, hbacklog, hthreads⟩ := hp
  have hstuck : Stuck p := ⟨herr, ⟨hproducer, by simp [hbacklog]⟩, by simp [hthreads, Pc.takes]⟩
  exact ⟨p, hr, ⟨hproducer, herr⟩, fun bs q hbs => hstuck.never_quiescent hr hbs⟩

end ForgeANN
