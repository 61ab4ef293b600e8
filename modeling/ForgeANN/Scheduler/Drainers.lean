-- SUMMARY: The scheduler's counters are exact, its drainers within capacity, and no queued leaf is without one.
import ForgeANN.Scheduler.Ledger
import ForgeANN.Scheduler.Quiescence

/-!
# Drainers

Drainers are spawned, retire and leave by separate compare-exchanges on counters
read at different moments. The counters stay exact and within the capacity, and
a thread that pushes a leaf or leaves the drainers hands the queue over to an
active drainer before it is through.
-/
namespace ForgeANN

open Lib

/-! ## Handing the queue over -/

/-- `maybe_spawn_leaf_drainer` was called after a push, or by a drainer on its way out. -/
def SpawnFor.handsOver : SpawnFor → Bool
  | .pushed _ | .exit => true
  | _ => false

namespace Pc

/-- The thread is between a successful push and the end of its `maybe_spawn_leaf_drainer`, or inside
    `finish_leaf_drainer`. -/
def handsOver : Pc → Bool
  | .emitCredit _ _ | .exitRetiring | .exitActive => true
  | .spawnLen k | .spawnActive k _ | .spawnTarget k _ _ | .spawnCas k _ => k.handsOver
  | _ => false

/-- The thread is an active drainer, or hands over a queue nobody may be draining. -/
def watches (pc : Pc) : Bool := pc.attends && (pc.owner = .drainer || pc.handsOver)

/-- The next access of the thread lowers `outstanding_leaf_tasks`. -/
def lowersOutstanding : Pc → Bool
  | .emitRelease _ _ | .discardRelease | .dropGuard _ _ _ => true
  | _ => false

/-- `1` for a thread counted in `retiring_leaf_drainers`. -/
def retiring (pc : Pc) : Nat := if pc.retires then 1 else 0

/-- The count of active drainers that the thread's compare-exchange expects. -/
def expects : Pc → Option Nat
  | .spawnCas _ active => some active
  | _ => none

/-- A compare-exchange that would spawn a drainer expects a count below the capacity. -/
def BelowCapacity (cfg : SchedulerConfig) (pc : Pc) : Prop :=
  ∀ active, pc.expects = some active → active < cfg.maxLeafWorkerCapacity

end Pc

theorem watches_of_drainer {pc : Pc} (h : pc.owner = .drainer) : pc.watches = true := by
  simp [Pc.watches, attends_of_drainer h, h]

theorem held_of_lowersOutstanding {pc : Pc} (h : pc.lowersOutstanding = true) : 0 < pc.held := by
  cases pc <;> simp_all [Pc.lowersOutstanding, Pc.held]

/-- A retiring drainer is an active one. -/
theorem retiring_le_owned (pc : Pc) : pc.retiring ≤ pc.owned .drainer := by
  cases pc <;> simp [Pc.retiring, Pc.retires, Pc.owned, Pc.owner]

/-! ## Limits -/

theorem SchedulerConfig.leafWorkerLimitForBacklog_le (cfg : SchedulerConfig) (reading : LimitReading)
    (backlog : Nat) : cfg.leafWorkerLimitForBacklog reading backlog ≤ cfg.maxLeafWorkerCapacity := by
  have hcap : 0 < cfg.maxLeafWorkerCapacity := by
    unfold maxLeafWorkerCapacity
    omega
  have hactive : cfg.activeProducerLeafWorkerCap ≤ cfg.maxLeafWorkerCapacity := by
    unfold activeProducerLeafWorkerCap
    split_ifs <;> omega
  simp only [leafWorkerLimitForBacklog]
  split_ifs <;> omega

/-- A step that spawns no drainer, and where it leaves its thread. -/
structure NoSpawn (cfg : SchedulerConfig) (s : Shared) (n : Next) : Prop where
  active : n.1.activeLeafDrainers ≤ s.activeLeafDrainers
  next : n.2.1.BelowCapacity cfg
  new : ∀ o ∈ n.2.2, o.expects = none

section

variable {cfg : SchedulerConfig} {s s' : Shared} {pc pc' : Pc} {new : List Pc} {n : Next}

theorem Pc.BelowCapacity.of_none (h : pc.expects = none) : pc.BelowCapacity cfg := by
  intro active hactive
  rw [h] at hactive
  cases hactive

theorem NoSpawn.of_none (hactive : n.1.activeLeafDrainers ≤ s.activeLeafDrainers)
    (hnext : n.2.1.expects = none) (hnew : n.2.2 = []) : NoSpawn cfg s n :=
  ⟨hactive, .of_none hnext, by simp [hnew]⟩

theorem afterSpawn_noSpawn (k : SpawnFor) : NoSpawn cfg s (s.afterSpawn cfg k) := by
  cases k with
  | pushed wait =>
      simp only [Shared.afterSpawn, Shared.afterSoft]
      split_ifs <;> exact .of_none (Nat.le_refl _) rfl rfl
  | help h => exact .of_none (Nat.le_refl _) rfl rfl
  | idle => exact .of_none (Nat.le_refl _) rfl rfl
  | exit => exact .of_none (Nat.le_refl _) rfl rfl

theorem afterError_noSpawn (h : Helper) : NoSpawn cfg s (s.afterError h) := by
  cases h <;> exact .of_none (Nat.le_refl _) rfl rfl

theorem afterHelp_expects (h : Helper) : (Shared.afterHelp h).expects = none := by
  cases h <;> rfl

theorem afterGuard_expects (h : Helper) (ok : Bool) : (Shared.afterGuard h ok).expects = none := by
  cases ok <;> cases h <;> rfl

theorem produceStep_noSpawn {m : Move} (h : produceStep s m = some n) : NoSpawn cfg s n := by
  unfold produceStep at h
  split at h
  · cases h
    exact ⟨Nat.le_refl _, .of_none rfl, by simp [Pc.expects]⟩
  · cases h
    exact ⟨Nat.le_refl _, .of_none rfl, by simp [Pc.expects]⟩
  · cases h
    exact ⟨Nat.le_refl _, .of_none rfl, by simp [Pc.expects]⟩
  · split_ifs at h
    cases h
    exact .of_none (Nat.le_refl _) rfl rfl
  · cases h

theorem batchStep_noSpawn {h : Helper} {b : Batch} {m : Move} (hs : b.step s h m = some n) :
    NoSpawn cfg s n := by
  unfold Batch.step at hs
  split at hs
  · split_ifs at hs <;> cases hs <;> exact .of_none (Nat.le_refl _) rfl rfl
  · rename_i outcome
    split_ifs at hs
    cases outcome <;> cases hs <;> exact .of_none (Nat.le_refl _) rfl rfl
  · split_ifs at hs
    cases hs
    exact .of_none (Nat.le_refl _) rfl rfl
  · split_ifs at hs
    cases hs
    exact .of_none (Nat.le_refl _) rfl rfl
  · split_ifs at hs
    cases hs
    exact .of_none (Nat.le_refl _) rfl rfl
  · cases hs

theorem goStep_noSpawn (h : goStep cfg s pc = some n) : NoSpawn cfg s n := by
  cases pc <;> simp only [goStep, reduceCtorEq] at h
  case softFinalCheck credit =>
    split_ifs at h <;> cases h
    · exact .of_none (Nat.le_refl _) rfl rfl
    · rw [Shared.afterSoft]
      split_ifs <;> exact .of_none (Nat.le_refl _) rfl rfl
    · exact .of_none (Nat.le_refl _) rfl rfl
  case waitCheck h' =>
    split_ifs at h
    · cases h
      exact afterError_noSpawn h'
    · split at h <;> cases h <;> exact .of_none (Nat.le_refl _) rfl rfl
  case spawnLen k =>
    split_ifs at h <;> cases h
    · exact afterSpawn_noSpawn k
    · exact .of_none (Nat.le_refl _) rfl rfl
  case takeFirst h' =>
    split at h
    · split at h <;> cases h
      · exact .of_none (Nat.le_refl _) rfl rfl
      · exact .of_none (Nat.le_refl _) (afterHelp_expects h') rfl
    · cases h
      exact .of_none (Nat.le_refl _) rfl rfl
  case takeMore h' first rest maxLeaves maxPoints =>
    split_ifs at h
    · split at h <;> cases h <;> exact .of_none (Nat.le_refl _) rfl rfl
    · cases h
      exact .of_none (Nat.le_refl _) rfl rfl
  case discardPop => split at h <;> cases h <;> exact .of_none (Nat.le_refl _) rfl rfl
  case dropGuard h' n ok =>
    split at h <;> cases h
    · exact .of_none (Nat.le_refl _) rfl rfl
    · exact .of_none (Nat.le_refl _) (afterGuard_expects h' ok) rfl
  case helpFailed h' =>
    cases h
    exact afterError_noSpawn h'
  case exitActive =>
    cases h
    exact .of_none (Nat.sub_le _ _) rfl rfl
  all_goals first
    | cases h; exact .of_none (Nat.le_refl _) rfl rfl
    | split_ifs at h <;> cases h <;> exact .of_none (Nat.le_refl _) rfl rfl

/-- Only a compare-exchange spawns, and it expects a count that the limits have been read for. -/
theorem limitsStep_noSpawn {reading : LimitReading} (h : limitsStep cfg s reading pc = some n) :
    NoSpawn cfg s n := by
  unfold limitsStep at h
  split at h
  · rename_i k backlog active
    split_ifs at h with hlimit <;> cases h
    · exact afterSpawn_noSpawn k
    · refine ⟨Nat.le_refl _, fun active' hactive => ?_, by simp⟩
      have hlt : active < cfg.leafWorkerLimitForBacklog reading backlog := Nat.lt_of_not_le hlimit
      cases hactive
      exact hlt.trans_le (cfg.leafWorkerLimitForBacklog_le reading backlog)
  · split_ifs at h <;> cases h <;> exact .of_none (Nat.le_refl _) rfl rfl
  · cases h

theorem schedulerStep_spawns {m : Move} (h : schedulerStep cfg s pc m = some n) :
    NoSpawn cfg s n ∨ ∃ k, pc = .spawnCas k s.activeLeafDrainers ∧
      n = ({ s with activeLeafDrainers := s.activeLeafDrainers + 1 }, .spawnLen k, [.drainCheck]) := by
  unfold schedulerStep at h
  split at h
  · exact .inl (produceStep_noSpawn h)
  · exact .inl (batchStep_noSpawn h)
  · unfold inlineStep at h
    split at h <;> cases h <;> exact .inl (.of_none (Nat.le_refl _) rfl rfl)
  · split at h
    · exact .inl (goStep_noSpawn h)
    · exact .inl (limitsStep_noSpawn h)
    · unfold casStep at h
      split at h
      · split_ifs at h with hcas <;> cases h
        · rw [← hcas.2]
          exact .inr ⟨_, rfl, rfl⟩
        · exact .inl (.of_none (Nat.le_refl _) rfl rfl)
      · split_ifs at h <;> cases h <;> exact .inl (.of_none (Nat.le_refl _) rfl rfl)
      · cases h
    · cases h

/-! ## The queue stays watched -/

/-- A thread that hands over is not through while it still attends to the queue. -/
theorem handsOver_step {m : Move} (h : schedulerStep cfg s pc m = some (s', pc', new))
    (hhands : pc.handsOver = true) : ∀ o ∈ pc' :: new, o.attends = true → o.watches = true := by
  have hafter : ∀ k : SpawnFor, k.handsOver = true → some (s.afterSpawn cfg k) = some (s', pc', new) →
      ∀ o ∈ pc' :: new, o.attends = true → o.watches = true := by
    intro k hk hs o ho hattends
    have hquiet : ∀ o ∈ (s.afterSpawn cfg k).2.1 :: (s.afterSpawn cfg k).2.2, o.attends = false := by
      cases k with
      | pushed wait =>
          simp only [Shared.afterSpawn, Shared.afterSoft]
          split_ifs <;> simp [Shared.emitOk, Pc.attends, Pc.owner]
      | exit => simp [Shared.afterSpawn, Pc.attends, Pc.owner]
      | help h => cases hk
      | idle => cases hk
    rw [Option.some.inj hs] at hquiet
    rw [hquiet o ho] at hattends
    cases hattends
  intro o ho hattends
  have hwatches : o.handsOver = true → o.watches = true := by
    intro hover
    simp [Pc.watches, hattends, hover]
  cases pc <;> simp only [Pc.handsOver, reduceCtorEq] at hhands
  case emitCredit leaf wait =>
    cases m <;> cases h
    cases List.mem_singleton.mp ho
    exact hwatches rfl
  case spawnLen k =>
    cases m <;> simp only [schedulerStep, goStep, limitsStep, casStep, reduceCtorEq] at h
    split_ifs at h
    · exact hafter k hhands h o ho hattends
    · cases h
      cases List.mem_singleton.mp ho
      exact hwatches hhands
  case spawnActive k backlog =>
    cases m <;> cases h
    cases List.mem_singleton.mp ho
    exact hwatches hhands
  case spawnTarget k backlog active =>
    cases m <;> simp only [schedulerStep, goStep, limitsStep, casStep, reduceCtorEq] at h
    split_ifs at h
    · exact hafter k hhands h o ho hattends
    · cases h
      cases List.mem_singleton.mp ho
      exact hwatches hhands
  case spawnCas k active =>
    cases m <;> simp only [schedulerStep, goStep, limitsStep, casStep, reduceCtorEq] at h
    split_ifs at h <;> cases h
    · rcases List.mem_cons.mp ho with rfl | ho
      · exact hwatches hhands
      · cases List.mem_singleton.mp ho
        exact watches_of_drainer rfl
    · cases List.mem_singleton.mp ho
      exact hwatches hhands
  case exitRetiring =>
    cases m <;> cases h
    cases List.mem_singleton.mp ho
    exact hwatches rfl
  case exitActive =>
    cases m <;> cases h
    cases List.mem_singleton.mp ho
    exact hwatches rfl

theorem Effect.drainer_watches (h : Effect s pc (s', pc', new)) (howner : pc.owner = .drainer) :
    pc'.watches = true := by
  cases h with
  | stay _ _ _ h => exact watches_of_drainer (h.owner.trans howner)
  | spawn h => exact watches_of_drainer (h.owner.trans howner)
  | release ho => exact watches_of_drainer (ho.trans howner)
  | pop _ ho => exact watches_of_drainer (ho.trans howner)
  | process _ ho => exact watches_of_drainer (ho.trans howner)
  | lose _ _ ho => exact watches_of_drainer (ho.trans howner)
  | record => rfl
  | leave => rfl
  | start hpc | ret hpc | discard hpc => simp [hpc] at howner
  | reserve ho => simp [ho.1] at howner
  | push _ _ ho | emitOk ho | emitErr _ ho | finish _ ho | gone ho => simp [ho] at howner

theorem Effect.fill_watches (h : Effect s pc (s', pc', new)) (hnil : s.leafBacklog = [])
    (hne : s'.leafBacklog ≠ []) : pc'.watches = true := by
  cases h with
  | push => rfl
  | pop h => simp [hnil] at h
  | discard _ h => simp [hnil] at h
  | _ => exact absurd hnil hne

/-- A drainer that retires is counted until it has left. -/
theorem LedgerEffect.retiring (h : LedgerEffect cfg s pc (s', pc', new))
    (hle : 0 + pc.retiring ≤ s.retiringLeafDrainers) :
    s'.retiringLeafDrainers + (0 + pc.retiring) =
      s.retiringLeafDrainers + (0 + pc'.retiring + (new.map Pc.retiring).sum) := by
  have hquiet : ∀ {pc : Pc}, pc.retires = false → pc.retiring = 0 := by
    intro pc h
    simp [Pc.retiring, h]
  cases h with
  | quiet hbacklog hwork hretiring hpc hnext hnew =>
      have hsum : (new.map Pc.retiring).sum = 0 := by
        apply List.sum_eq_zero
        intro n hn
        obtain ⟨o, ho, rfl⟩ := List.mem_map.mp hn
        exact hquiet (hnew o ho).retires
      have hsame : s'.retiringLeafDrainers = s.retiringLeafDrainers := hretiring
      have hzero : pc'.retiring = 0 := hquiet hnext.retires
      rw [hsame, hquiet hpc.retires, hzero, hsum]
  | push hpc => simp [hpc, Pc.retiring, Pc.retires]
  | add hpc => simp [hpc, Pc.retiring, Pc.retires]
  | pop hbacklog hpc hcredit hretires => simp [hquiet hpc.retires, hquiet hretires]
  | remove hcredit hnext hhand =>
      have hretires : pc.retires = false := by
        cases pc <;> simp_all [Pc.credit, Pc.retires]
      simp [hquiet hretires, hquiet hnext.retires]
  | retire hpc => simp [hpc, Pc.retiring, Pc.retires]
  | retired hpc =>
      simp only [hpc, Pc.retiring, Pc.retires] at hle ⊢
      simp only [if_true, Bool.false_eq_true, if_false, List.map_nil, List.sum_nil] at hle ⊢
      omega

end

/-! ## Along a run -/

/-- What the counts of drainers say about the threads. -/
structure Drainers (cfg : SchedulerConfig) (p : SchedulerState) : Prop where
  retiring : p.shared.retiringLeafDrainers = 0 + p.total Pc.retiring
  below : ∀ pc ∈ p.threads, pc.BelowCapacity cfg
  active_le : p.shared.activeLeafDrainers ≤ cfg.maxLeafWorkerCapacity
  watched : p.shared.leafBacklog ≠ [] → ∃ pc ∈ p.threads, pc.watches = true

theorem Drainers.initial {cfg : SchedulerConfig} : Drainers cfg SchedulerState.initial where
  retiring := by simp [SchedulerState.initial, Pool.total, Pc.retiring, Pc.retires]
  below := by
    intro pc hpc
    cases List.mem_singleton.mp hpc
    exact .of_none rfl
  active_le := Nat.zero_le _
  watched := by simp [SchedulerState.initial]

section

variable {cfg : SchedulerConfig} {p q : SchedulerState} {a : SchedulerAction}
  {as : List SchedulerAction}

theorem Drainers.step (h : Drainers cfg p) (hbooks : Books p) (hstep : cfg.step p a = some q) :
    Drainers cfg q where
  retiring := Pool.balance_step _ (fun _ => 0) _
    (fun _ hs hle => (schedulerStep_ledger hs).retiring hle) h.retiring hstep
  below := by
    obtain ⟨pc, s', pc', new, hpc, hs, rfl⟩ := Pool.step_eq_some.mp hstep
    intro o ho
    rcases List.mem_append.mp ho with hset | hnew
    · rcases List.mem_or_eq_of_mem_set hset with hold | rfl
      · exact h.below o hold
      · rcases schedulerStep_spawns hs with hno | ⟨k, -, hn⟩
        · exact hno.next
        · cases hn
          exact .of_none rfl
    · rcases schedulerStep_spawns hs with hno | ⟨k, -, hn⟩
      · exact .of_none (hno.new o hnew)
      · cases hn
        cases List.mem_singleton.mp hnew
        exact .of_none rfl
  active_le := by
    obtain ⟨pc, s', pc', new, hpc, hs, rfl⟩ := Pool.step_eq_some.mp hstep
    rcases schedulerStep_spawns hs with hno | ⟨k, hspawn, hn⟩
    · exact hno.active.trans h.active_le
    · cases hn
      have hbelow := h.below pc (List.mem_of_getElem? hpc)
      exact hbelow _ (by rw [hspawn]; rfl)
  watched := by
    obtain ⟨pc, s', pc', new, hpc, hs, rfl⟩ := Pool.step_eq_some.mp hstep
    intro hne
    have hself : pc' ∈ p.threads.set a.1 pc' := Pool.mem_set_self hpc
    by_cases hnil : p.shared.leafBacklog = []
    · refine ⟨pc', List.mem_append_left _ hself, ?_⟩
      exact (schedulerStep_effect hs).fill_watches hnil hne
    obtain ⟨o, ho, hwatches⟩ := h.watched hnil
    rcases Pool.eq_or_mem_set hpc ho with rfl | ho
    · have hboth : o.attends = true ∧ (o.owner = .drainer ∨ o.handsOver = true) := by
        simpa [Pc.watches] using hwatches
      rcases hboth.2 with hdrainer | hhands
      · exact ⟨pc', List.mem_append_left _ hself, (schedulerStep_effect hs).drainer_watches hdrainer⟩
      · rcases schedulerStep_attends hs hboth.1 hne with ⟨o', ho', hattends⟩ | ⟨howner, hactive⟩
        · have hnext := handsOver_step hs hhands o' ho' hattends
          rcases List.mem_cons.mp ho' with rfl | ho'
          · exact ⟨o', List.mem_append_left _ hself, hnext⟩
          · exact ⟨o', List.mem_append_right _ ho', hnext⟩
        · obtain ⟨d, hd, hdrainer⟩ := hbooks.exists_drainer hactive
          rcases Pool.eq_or_mem_set hpc hd with rfl | hd
          · exact absurd hdrainer howner
          · exact ⟨d, List.mem_append_left _ hd, watches_of_drainer hdrainer⟩
    · exact ⟨o, List.mem_append_left _ ho, hwatches⟩

theorem drainers_of_run (hr : Run cfg.step SchedulerState.initial as p) :
    Books p ∧ Drainers cfg p :=
  Run.invariant (P := fun p => Books p ∧ Drainers cfg p) hr ⟨.initial, .initial⟩
    fun _ _ _ h hstep => ⟨h.1.step hstep, h.2.step h.1 hstep⟩

end

/-- The counters are exact, lowered only where there is something to lower, the drainers keep to
    the capacity, and a queued leaf has an active drainer unless a thread is still handing it over. -/
structure CountersExact (cfg : SchedulerConfig) (p : SchedulerState) : Prop where
  outstanding : p.shared.outstandingLeafTasks = p.shared.leafBacklog.length + p.total Pc.held
  outstanding_pos : ∀ pc ∈ p.threads, pc.lowersOutstanding = true → 0 < p.shared.outstandingLeafTasks
  retiring_pos : .exitRetiring ∈ p.threads → 0 < p.shared.retiringLeafDrainers
  active_pos : .exitActive ∈ p.threads → 0 < p.shared.activeLeafDrainers
  retiring_le : p.shared.retiringLeafDrainers ≤ p.shared.activeLeafDrainers
  active_le : p.shared.activeLeafDrainers ≤ cfg.maxLeafWorkerCapacity
  drained : p.shared.leafBacklog ≠ [] → (∀ pc ∈ p.threads, pc.handsOver = false) →
    0 < p.shared.activeLeafDrainers

/-- In every state reached, however the limits change and the drainers retire. -/
theorem countersExact_of_run {cfg : SchedulerConfig} {as : List SchedulerAction} {p : SchedulerState}
    (hr : Run cfg.step SchedulerState.initial as p) : CountersExact cfg p := by
  obtain ⟨hbooks, hdrainers⟩ := drainers_of_run hr
  have hactive := hbooks.active
  have hretiring := hdrainers.retiring
  refine ⟨hbooks.outstanding, fun pc hpc hlowers => ?_, fun hpc => ?_, fun hpc => ?_, ?_,
    hdrainers.active_le, fun hne hnone => ?_⟩
  · have houtstanding := hbooks.outstanding
    have hheld : pc.held ≤ p.total Pc.held := Pool.le_total hpc
    have hpos := held_of_lowersOutstanding hlowers
    omega
  · have hle : Pc.retiring .exitRetiring ≤ p.total Pc.retiring := Pool.le_total hpc
    have hone : Pc.retiring .exitRetiring = 1 := rfl
    omega
  · have hle := owned_le_total hpc
    have howner : Pc.exitActive.owner = .drainer := rfl
    rw [howner] at hle
    omega
  · have hle : p.total Pc.retiring ≤ p.total (Pc.owned .drainer) :=
      Pool.total_mono fun pc _ => retiring_le_owned pc
    omega
  · obtain ⟨pc, hpc, hwatches⟩ := hdrainers.watched hne
    have hdrainer : pc.attends = true ∧ pc.owner = .drainer := by
      simpa [Pc.watches, hnone pc hpc] using hwatches
    have hle := owned_le_total hpc
    rw [hdrainer.2] at hle
    omega

/-- With one leaf emitted and a drainer spawned for it. -/
theorem countersExact_of_run_one_leaf : ∃ p,
    Run oneDrainerConfig.step SchedulerState.initial emitOneLeaf p ∧
    (p.shared.leafBacklog = [[7]] ∧ p.shared.activeLeafDrainers = 1) ∧
    CountersExact oneDrainerConfig p := by
  have hfollow : (follow oneDrainerConfig.step SchedulerState.initial emitOneLeaf).map
      (fun p => (p.shared.leafBacklog, p.shared.activeLeafDrainers)) = some ([[7]], 1) := by rfl
  obtain ⟨p, hr, hp⟩ := exists_run_of_follow hfollow
  exact ⟨p, hr, Prod.mk.inj hp, countersExact_of_run hr⟩

end ForgeANN
