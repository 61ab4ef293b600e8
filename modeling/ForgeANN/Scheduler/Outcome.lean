-- SUMMARY: What `run_scheduler_scope` returns, and the one interleaving in which it misses a failed leaf.
import ForgeANN.Scheduler.Phase

/-!
# The outcome of a run

A leaf that is not processed is lost, and somebody is to blame for it: an error
has been recorded, is about to be, or has been handed to the caller. A drainer's
drop guard runs before its error is recorded, so the waiting thread can see no
leaf outstanding and no error in between.
-/
namespace ForgeANN

open Lib

/-- An error that the caller will be told of. -/
def Shared.blamed (s : Shared) : Prop :=
  s.firstError = true ∨ s.emitFailed = true ∨ s.producerResult = some false ∨
    s.result = some false

/-- Who is to blame for the leaves that are lost. -/
structure Blame (p : SchedulerState) : Prop where
  phases : ∀ pc ∈ p.threads, Phase p.shared pc
  returned : p.shared.producerResult.isSome = true → p.shared.emitters = 0
  clean : p.shared.producerResult = some true → p.shared.emitFailed = false
  failing : ∀ pc ∈ p.threads, pc.failing = true → p.shared.firstError = true ∨ p.shared.failed ≠ []
  lost : p.shared.lost ≠ [] → p.shared.blamed ∨ ∃ pc ∈ p.threads, pc.failing = true
  failed : p.shared.failed ≠ [] → p.shared.lost ≠ []

theorem Blame.initial : Blame SchedulerState.initial := by
  constructor <;> simp [SchedulerState.initial]
  exact .of_plain rfl

/-- What the books say about a thread that can step. -/
structure Standing (s : Shared) (pc : Pc) : Prop where
  producer : pc.owner = .producer → s.producerResult = none
  emitter : pc.owner = .emitter → s.producerResult = none
  main : pc.owner = .main → s.producerResult.isSome = true ∧ s.result = none

theorem Blame.standing {p : SchedulerState} {pc : Pc} (h : Blame p) (hbooks : Books p)
    (hpc : pc ∈ p.threads) : Standing p.shared pc where
  producer := hbooks.producerResult_eq_none hpc
  emitter howner := by
    have hpos := hbooks.emitters_pos hpc howner
    by_contra hnone
    have hzero := h.returned (Option.isSome_iff_ne_none.mpr hnone)
    omega
  main := hbooks.returned_of_main hpc

/-! ## One step -/

section

variable {s s' : Shared} {pc pc' : Pc} {new : List Pc}

theorem Effect.blamed (h : Effect s pc (s', pc', new))
    (hstanding : Standing s pc) (hblamed : s.blamed) : s'.blamed := by
  cases h with
  | ret hpc ok =>
      have hnone : s.producerResult = none := hstanding.producer (by simp [hpc])
      simp only [Shared.blamed, hnone, reduceCtorEq, false_or] at hblamed ⊢
      tauto
  | finish ok howner =>
      have hnone : s.result = none := (hstanding.main howner).2
      simp only [Shared.blamed, hnone, reduceCtorEq, or_false] at hblamed ⊢
      tauto
  | emitErr => exact .inr (.inl rfl)
  | record => exact .inl rfl
  | _ => exact hblamed

/-- A failing thread hands its error on. -/
theorem Effect.hand_on (h : Effect s pc (s', pc', new)) (hfailing : pc.failing = true) :
    s'.blamed ∨ pc'.failing = true := by
  cases h with
  | stay _ _ _ h => exact .inr (h.failing.trans hfailing)
  | spawn h => exact .inr (h.failing.trans hfailing)
  | start hpc => simp [hpc] at hfailing
  | ret hpc => simp [hpc] at hfailing
  | reserve _ _ _ h => exact .inr (h.trans hfailing)
  | release _ _ _ h => exact .inr (h.trans hfailing)
  | push _ _ _ _ _ h => simp [h] at hfailing
  | pop _ _ _ _ h => exact .inr (h.trans hfailing)
  | discard hpc => simp [hpc] at hfailing
  | process _ _ _ _ h => exact .inr (h.trans hfailing)
  | lose _ _ _ _ _ h => exact .inr h
  | emitOk _ _ _ h => simp [h] at hfailing
  | emitErr => exact .inl (.inr (.inl rfl))
  | finish ok _ _ _ hok =>
      cases ok with
      | true =>
          rw [(hok rfl).1] at hfailing
          cases hfailing
      | false => exact .inl (.inr (.inr (.inr rfl)))
  | record => exact .inl (.inl rfl)
  | leave hpc => simp [hpc] at hfailing
  | gone _ _ _ h => simp [h] at hfailing

/-- A leaf that is lost is somebody's to answer for. -/
theorem Effect.lost (h : Effect s pc (s', pc', new)) (hphase : Phase s pc) (hlost : s'.lost ≠ []) :
    s.lost ≠ [] ∨ s'.blamed ∨ pc'.failing = true := by
  cases h with
  | discard hpc => exact .inr (.inl (.inr (.inr (.inl (hphase.discards (by rw [hpc]; rfl))))))
  | lose _ _ _ _ _ h => exact .inr (.inr h)
  | emitErr => exact .inr (.inl (.inr (.inl rfl)))
  | _ => exact .inl hlost

theorem Effect.failed (h : Effect s pc (s', pc', new)) (hfailed : s.failed ≠ [] → s.lost ≠ []) :
    s'.failed ≠ [] → s'.lost ≠ [] := by
  cases h with
  | discard => intro _; simp
  | lose leaves failed _ _ _ _ hboth =>
      intro hne hnil
      have hnil := List.append_eq_nil_iff.mp hnil
      apply hne
      rw [List.append_eq_nil_iff]
      exact ⟨not_imp_not.mp hfailed hnil.1, not_imp_not.mp hboth hnil.2⟩
  | emitErr dropped =>
      intro hne hnil
      exact hfailed hne (List.append_eq_nil_iff.mp hnil).1
  | _ => exact hfailed

/-- Errors are never taken back. -/
theorem Effect.errors_grow (h : Effect s pc (s', pc', new)) :
    (s.firstError = true → s'.firstError = true) ∧ (s.failed ≠ [] → s'.failed ≠ []) := by
  cases h with
  | lose leaves failed =>
      exact ⟨id, fun hne hnil => hne (List.append_eq_nil_iff.mp hnil).1⟩
  | record => exact ⟨fun _ => rfl, id⟩
  | _ => exact ⟨id, id⟩

/-- A thread only fails after an error has been recorded or a leaf has failed. -/
theorem Effect.failing (h : Effect s pc (s', pc', new))
    (hfailing : pc.failing = true → s.firstError = true ∨ s.failed ≠ [])
    (hfailing' : pc'.failing = true) : s'.firstError = true ∨ s'.failed ≠ [] := by
  cases h with
  | stay _ _ _ h => exact hfailing (h.failing ▸ hfailing')
  | spawn h => exact hfailing (h.failing ▸ hfailing')
  | reserve _ _ _ h => exact hfailing (h ▸ hfailing')
  | release _ _ _ h => exact hfailing (h ▸ hfailing')
  | pop _ _ _ _ h => exact hfailing (h ▸ hfailing')
  | process _ _ _ _ h => exact hfailing (h ▸ hfailing')
  | lose leaves failed _ _ _ _ _ hcause =>
      have hnow : s.firstError = true ∨ s.failed ≠ [] ∨ failed ≠ [] := by tauto
      simp only [ne_eq, List.append_eq_nil_iff]
      tauto
  | record => exact .inl rfl
  | _ => simp at hfailing'

theorem Phase.of_emitter (howner : pc.owner = .emitter) : Phase s pc := by
  apply Phase.of_plain
  cases pc with
  | helpFailed h => cases h <;> first | rfl | cases howner
  | _ => first | rfl | cases howner

/-- The threads a step spawns are in no special phase, and in no trouble. -/
theorem Effect.spawned (h : Effect s pc (s', pc', new)) {o : Pc} (ho : o ∈ new) :
    o.failing = false ∧ Phase s' o := by
  cases h with
  | start _ _ howner _ _ hfailing =>
      rw [List.mem_singleton.mp ho]
      exact ⟨hfailing, .of_emitter howner⟩
  | spawn =>
      rw [List.mem_singleton.mp ho]
      exact ⟨rfl, .of_plain rfl⟩
  | _ => cases ho

theorem Effect.returned (h : Effect s pc (s', pc', new)) (hstanding : Standing s pc)
    (hreturned : s.producerResult.isSome = true → s.emitters = 0) :
    s'.producerResult.isSome = true → s'.emitters = 0 := by
  cases h with
  | start hpc =>
      intro hsome
      rw [hstanding.producer (by simp [hpc])] at hsome
      cases hsome
  | ret _ _ hemitters => exact fun _ => hemitters
  | emitOk | emitErr =>
      intro hsome
      exact Nat.sub_eq_zero_of_le (Nat.le_of_eq (hreturned hsome) |>.trans (Nat.zero_le 1))
  | _ => exact hreturned

theorem Effect.clean (h : Effect s pc (s', pc', new)) (hstanding : Standing s pc)
    (hclean : s.producerResult = some true → s.emitFailed = false) :
    s'.producerResult = some true → s'.emitFailed = false := by
  cases h with
  | ret _ ok _ hok => exact fun htrue => hok (Option.some.inj htrue)
  | emitErr _ howner =>
      intro htrue
      rw [hstanding.emitter howner] at htrue
      cases htrue
  | _ => exact hclean

/-- The producer returns once. -/
theorem Effect.producerResult_stays {ok : Bool} (h : Effect s pc (s', pc', new))
    (hstanding : Standing s pc) (hok : s.producerResult = some ok) :
    s'.producerResult = some ok := by
  cases h with
  | ret hpc =>
      rw [hstanding.producer (by simp [hpc])] at hok
      cases hok
  | _ => exact hok

/-- A step of another thread leaves a thread's phase alone. -/
theorem Effect.phase {o : Pc} (h : Effect s pc (s', pc', new)) (hstanding : Standing s pc)
    (ho : Standing s o) (hphase : Phase s o) : Phase s' o := by
  have hreturned : pc.owner = .producer ∨ pc.owner = .emitter → o.owner ≠ .main := by
    intro howner hmain
    have hnone : s.producerResult = none := howner.elim hstanding.producer hstanding.emitter
    have hsome := (ho.main hmain).1
    rw [hnone] at hsome
    cases hsome
  cases h with
  | reserve howner =>
      refine ⟨?_, hphase.discards, hphase.drain⟩
      rintro rfl
      exact absurd rfl (hreturned (.inr howner.1))
  | release =>
      refine ⟨fun heq => ?_, hphase.discards, hphase.drain⟩
      simp [hphase.checked heq]
  | ret hpc =>
      refine ⟨hphase.checked, fun hdiscards => ?_, hphase.drain⟩
      have hnone := hstanding.producer (by simp [hpc])
      rw [hphase.discards hdiscards] at hnone
      cases hnone
  | _ => exact ⟨hphase.checked, hphase.discards, hphase.drain⟩

end

/-! ## Every run -/

section

variable {cfg : SchedulerConfig} {p q : SchedulerState} {a : SchedulerAction}

theorem Blame.step (h : Blame p) (hbooks : Books p) (hstep : cfg.step p a = some q) : Blame q where
  phases := by
    refine Pool.forall_step (fun hl hs => ?_) (fun hl ho hs => ?_) hstep
    · have heffect := schedulerStep_effect hs
      exact ⟨schedulerStep_phase hs (h.phases _ hl), fun o ho => (heffect.spawned ho).2⟩
    · exact (schedulerStep_effect hs).phase (h.standing hbooks hl) (h.standing hbooks ho)
        (h.phases _ ho)
  returned := by
    obtain ⟨pc, s', pc', new, hpc, hs, rfl⟩ := Pool.step_eq_some.mp hstep
    exact (schedulerStep_effect hs).returned (h.standing hbooks (List.mem_of_getElem? hpc)) h.returned
  clean := by
    obtain ⟨pc, s', pc', new, hpc, hs, rfl⟩ := Pool.step_eq_some.mp hstep
    exact (schedulerStep_effect hs).clean (h.standing hbooks (List.mem_of_getElem? hpc)) h.clean
  failing := by
    refine Pool.forall_step (P := fun s pc => pc.failing = true → s.firstError = true ∨ s.failed ≠ [])
      (fun hl hs => ?_) (fun hl ho hs => ?_) hstep
    · have heffect := schedulerStep_effect hs
      exact ⟨heffect.failing (h.failing _ hl),
        fun o ho hfailing => by simp [(heffect.spawned ho).1] at hfailing⟩
    · intro hfailing
      have hgrow := (schedulerStep_effect hs).errors_grow
      exact (h.failing _ ho hfailing).imp hgrow.1 hgrow.2
  lost := by
    obtain ⟨pc, s', pc', new, hpc, hs, rfl⟩ := Pool.step_eq_some.mp hstep
    have heffect := schedulerStep_effect hs
    have hmem := List.mem_of_getElem? hpc
    have hself : pc'.failing = true → ∃ o ∈ p.threads.set a.1 pc' ++ new, o.failing = true :=
      fun hfailing => ⟨pc', List.mem_append_left _ (Pool.mem_set_self hpc), hfailing⟩
    intro hlost
    rcases heffect.lost (h.phases _ hmem) hlost with hlost | hnow
    · rcases h.lost hlost with hblamed | ⟨o, ho, hfailing⟩
      · exact .inl (heffect.blamed (h.standing hbooks hmem) hblamed)
      · rcases Pool.eq_or_mem_set hpc ho with rfl | ho
        · exact (heffect.hand_on hfailing).imp_right hself
        · exact .inr ⟨o, List.mem_append_left _ ho, hfailing⟩
    · exact hnow.imp_right hself
  failed := by
    obtain ⟨pc, s', pc', new, hpc, hs, rfl⟩ := Pool.step_eq_some.mp hstep
    exact (schedulerStep_effect hs).failed h.failed

theorem blame_of_run {as : List SchedulerAction} (hr : Run cfg.step SchedulerState.initial as p) :
    Books p ∧ Blame p :=
  Run.invariant (P := fun p => Books p ∧ Blame p) hr ⟨.initial, .initial⟩
    fun _ _ _ h hstep => ⟨h.1.step hstep, h.2.step h.1 hstep⟩

/-! ## The waiting thread's last check -/

/-- The last check for an error is not made while a drainer that has finished a failed batch is
still to record the error, unless another error or the producer's speaks for it. -/
def Timely (p : SchedulerState) (a : SchedulerAction) : Prop :=
  p.threads[a.1]? = some .idleFinalCheck → p.shared.firstError = false →
    p.shared.producerResult = some true → .recordError ∉ p.threads

instance (p : SchedulerState) (a : SchedulerAction) : Decidable (Timely p a) := by
  unfold Timely
  infer_instance

/-- After `Ok` nothing is left that could fail. -/
structure Settled (p : SchedulerState) : Prop where
  outstanding : p.shared.outstandingLeafTasks = 0
  producer : p.shared.producerResult = some true
  firstError : p.shared.firstError = false
  lost : p.shared.lost = []
  failing : ∀ pc ∈ p.threads, pc.failing = false

/-- Only the emitter's helpers carry a leaf of their own. -/
theorem Helper.inHand_eq_nil {h : Helper} (howner : h.owner ≠ .emitter) : h.inHand = [] := by
  cases h with
  | retry => exact absurd rfl howner
  | _ => rfl

/-- A thread outside the emitter that holds no leaf carries none. -/
theorem carried_eq_nil_of_held {pc : Pc} (howner : pc.owner ≠ .emitter) (hheld : pc.held = 0) :
    pc.carried = [] := by
  cases pc with
  | waitCheck h | takeFirst h | helpFailed h => exact Helper.inHand_eq_nil howner
  | spawnLen k | spawnActive k _ | spawnTarget k _ _ | spawnCas k _ =>
      cases k with
      | help h => exact Helper.inHand_eq_nil howner
      | _ => rfl
  | process h b => exact absurd hheld (Nat.ne_of_gt b.count_pos)
  | emitPush | emitRelease | takeFirstCredit | takeLen | takeLimits | takeMore | takeMoreCredit
  | dropGuard => cases hheld
  | emitCheck | emitReserve | inlineCheck | inlineRun => exact absurd rfl howner
  | _ => rfl

/-- A failing thread that holds nothing and belongs to no caller is a drainer about to record. -/
theorem eq_recordError_of_failing {pc : Pc} (hfailing : pc.failing = true) (hheld : pc.held = 0)
    (hemitter : pc.owner ≠ .emitter) (hmain : pc.owner ≠ .main) (hdrain : pc ≠ .helpFailed .drain) :
    pc = .recordError := by
  cases pc with
  | process h b => exact absurd hheld (Nat.ne_of_gt b.count_pos)
  | dropGuard => cases hheld
  | inlineDone => exact absurd rfl hemitter
  | recordError => rfl
  | helpFailed h =>
      cases h with
      | idle => exact absurd rfl hmain
      | drain => exact absurd rfl hdrain
      | _ => exact absurd rfl hemitter
  | _ => cases hfailing

theorem Effect.settled {s s' : Shared} {pc pc' : Pc} {new : List Pc}
    (h : Effect s pc (s', pc', new)) (hstanding : Standing s pc) (hheld : pc.held = 0)
    (hfailing : pc.failing = false) (hbacklog : s.leafBacklog = [])
    (houtstanding : s.outstandingLeafTasks = 0) (hproducer : s.producerResult = some true)
    (herr : s.firstError = false) (hresult : s.result = some true) :
    (s'.outstandingLeafTasks = 0 ∧ s'.producerResult = some true ∧ s'.firstError = false) ∧
      s'.lost = s.lost ∧ s'.result = some true ∧ pc'.failing = false := by
  have hnotProducer : pc.owner ≠ .producer := fun ho => by
    simp [hstanding.producer ho] at hproducer
  have hnotEmitter : pc.owner ≠ .emitter := fun ho => by
    simp [hstanding.emitter ho] at hproducer
  have hnotMain : pc.owner ≠ .main := fun ho => by simp [(hstanding.main ho).2] at hresult
  have hcarried : pc.carried = [] := carried_eq_nil_of_held hnotEmitter hheld
  have hshared := And.intro houtstanding (And.intro hproducer herr)
  cases h with
  | stay _ _ _ h => exact ⟨hshared, rfl, hresult, h.failing.trans hfailing⟩
  | spawn h => exact ⟨hshared, rfl, hresult, h.failing.trans hfailing⟩
  | start hpc => simp [hpc] at hnotProducer
  | ret hpc => simp [hpc] at hnotProducer
  | reserve ho => exact absurd ho.1 hnotEmitter
  | push _ _ ho => exact absurd ho hnotEmitter
  | release _ h => simp [hheld] at h
  | pop h => simp [hbacklog] at h
  | discard _ h => simp [hbacklog] at h
  | process _ _ _ _ h => exact ⟨hshared, rfl, hresult, h.trans hfailing⟩
  | lose leaves failed _ _ hperm _ hboth hcause =>
      have hnone : leaves = [] := by
        rw [hcarried] at hperm
        exact (List.append_eq_nil_iff.mp hperm.nil_eq.symm).1
      have hfailed : failed = [] := by
        by_contra hne
        exact hboth hne hnone
      simp [hfailing, herr, hfailed] at hcause
  | emitOk ho => exact absurd ho hnotEmitter
  | emitErr _ ho => exact absurd ho hnotEmitter
  | finish _ ho => exact absurd ho hnotMain
  | record hpc => simp [hpc] at hfailing
  | leave => exact ⟨hshared, rfl, hresult, rfl⟩
  | gone => exact ⟨hshared, rfl, hresult, rfl⟩

theorem Settled.step (h : Settled p) (hbooks : Books p) (hblame : Blame p)
    (hresult : p.shared.result = some true) (hstep : cfg.step p a = some q) :
    Settled q ∧ q.shared.result = some true := by
  obtain ⟨pc, s', pc', new, hpc, hs, rfl⟩ := Pool.step_eq_some.mp hstep
  have hmem := List.mem_of_getElem? hpc
  have heffect := schedulerStep_effect hs
  obtain ⟨⟨houtstanding, hproducer, herr⟩, hlost, hresult, hfailing⟩ :=
    heffect.settled (hblame.standing hbooks hmem) (hbooks.held_eq_zero h.outstanding hmem)
      (h.failing pc hmem) (hbooks.backlog_eq_nil h.outstanding) h.outstanding h.producer
      h.firstError hresult
  refine ⟨⟨houtstanding, hproducer, herr, hlost.trans h.lost, fun o ho => ?_⟩, hresult⟩
  rcases List.mem_append.mp ho with ho | ho
  · rcases List.mem_or_eq_of_mem_set ho with ho | rfl
    · exact h.failing o ho
    · exact hfailing
  · exact (heffect.spawned ho).1

/-- The last check: what `Ok` is returned on. -/
theorem finish_ok (hnone : p.shared.result = none) (hstep : cfg.step p a = some q)
    (hok : q.shared.result = some true) : p.threads[a.1]? = some .idleFinalCheck ∧
      p.shared.firstError = false ∧ p.shared.producerResult = some true ∧
      q = ⟨{ p.shared with result := some true }, p.threads.set a.1 .finished⟩ := by
  obtain ⟨pc, s', pc', new, hpc, hs, rfl⟩ := Pool.step_eq_some.mp hstep
  have heffect := schedulerStep_effect hs
  generalize hn : (s', pc', new) = n at heffect
  cases heffect with
  | finish ok howner hheld hcarried hdone =>
      simp only [Shared.finish, Prod.mk.injEq] at hn
      obtain ⟨rfl, rfl, rfl⟩ := hn
      cases hok
      obtain ⟨rfl, herr, hproducer⟩ := hdone rfl
      exact ⟨hpc, herr, hproducer, by rw [List.append_nil]⟩
  | _ =>
      cases hn
      simp [hnone] at hok

theorem Settled.of_finish (hbooks : Books p) (hblame : Blame p) (hnone : p.shared.result = none)
    (htimely : Timely p a) (hstep : cfg.step p a = some q) (hok : q.shared.result = some true) :
    Settled q := by
  have hbooks' := hbooks.step hstep
  have hblame' := hblame.step hbooks hstep
  obtain ⟨hpc, herr, hproducer, rfl⟩ := finish_ok hnone hstep hok
  have houtstanding := (hblame.phases _ (List.mem_of_getElem? hpc)).checked rfl
  have hfailing : ∀ pc ∈ p.threads.set a.1 .finished, pc.failing = false := by
    intro pc hmem
    rw [← Bool.not_eq_true]
    intro hfailing
    have hheld := hbooks'.held_eq_zero houtstanding hmem
    have hstanding := hblame'.standing hbooks' hmem
    have hrecord : pc = .recordError := by
      refine eq_recordError_of_failing hfailing hheld ?_ ?_ (hblame'.phases pc hmem).drain
      · intro howner
        have hnone : p.shared.producerResult = none := hstanding.emitter howner
        simp [hnone] at hproducer
      · intro howner
        cases (hstanding.main howner).2
    subst hrecord
    rcases List.mem_or_eq_of_mem_set hmem with hmem | heq
    · exact htimely hpc herr hproducer hmem
    · cases heq
  refine ⟨houtstanding, hproducer, herr, ?_, hfailing⟩
  by_contra hlost
  rcases hblame'.lost hlost with hblamed | ⟨pc, hmem, hpcFailing⟩
  · have hclean := hblame.clean hproducer
    simp [Shared.blamed, herr, hclean, hproducer] at hblamed
  · simp [hfailing pc hmem] at hpcFailing

/-- `run_scheduler_scope` returns once. -/
theorem result_stays {ok : Bool} (hbooks : Books p) (hblame : Blame p)
    (hresult : p.shared.result = some ok) (hstep : cfg.step p a = some q) :
    q.shared.result = some ok := by
  obtain ⟨pc, s', pc', new, hpc, hs, rfl⟩ := Pool.step_eq_some.mp hstep
  have hstanding := hblame.standing hbooks (List.mem_of_getElem? hpc)
  have heffect := schedulerStep_effect hs
  cases heffect with
  | finish _ howner =>
      have hnone := (hstanding.main howner).2
      rw [hresult] at hnone
      cases hnone
  | _ => exact hresult

theorem settled_of_run {as : List SchedulerAction}
    (hr : Run (guarded Timely cfg.step) SchedulerState.initial as p) :
    (Books p ∧ Blame p) ∧ (p.shared.result = some true → Settled p) := by
  refine Run.invariant
    (P := fun p => (Books p ∧ Blame p) ∧ (p.shared.result = some true → Settled p)) hr
    ⟨⟨.initial, .initial⟩, fun h => by cases h⟩ ?_
  rintro u a v ⟨⟨hbooks, hblame⟩, hsettled⟩ hstep
  obtain ⟨htimely, hstep⟩ := guarded_eq_some.mp hstep
  refine ⟨⟨hbooks.step hstep, hblame.step hbooks hstep⟩, fun hok => ?_⟩
  cases hresult : u.shared.result with
  | none => exact .of_finish hbooks hblame hresult htimely hstep hok
  | some ok =>
      have hstays := result_stays hbooks hblame hresult hstep
      rw [hok, Option.some.injEq] at hstays
      subst hstays
      exact ((hsettled hresult).step hbooks hblame hresult hstep).1

/-- What is settled was processed, every leaf as often as it was emitted. -/
theorem Settled.processed_perm (h : Settled p) (hbooks : Books p) (hblame : Blame p) :
    p.shared.processed.Perm p.shared.emitted := by
  have hcarried : ∀ x, p.total (fun pc => pc.carried.count x) = 0 := by
    intro x
    apply List.sum_eq_zero
    intro n hn
    obtain ⟨pc, hpc, rfl⟩ := List.mem_map.mp hn
    have howner : pc.owner ≠ .emitter := fun howner => by
      have hnone := (hblame.standing hbooks hpc).emitter howner
      simp [h.producer] at hnone
    rw [carried_eq_nil_of_held howner (hbooks.held_eq_zero h.outstanding hpc), List.count_nil]
  rw [List.perm_iff_count]
  intro x
  have hleaves := hbooks.leaves x
  rw [hbooks.backlog_eq_nil h.outstanding, h.lost, hcarried x, List.count_nil] at hleaves
  omega

/-- An untimely last check returns `Ok` for a failed leaf. -/
theorem untimely_ok (hblame : Blame p) (htimely : ¬ Timely p a) (hstep : cfg.step p a = some q) :
    q.shared.result = some true ∧ q.shared.failed ≠ [] := by
  simp only [Timely, Classical.not_imp, not_not] at htimely
  obtain ⟨hcheck, herr, hproducer, hrecord⟩ := htimely
  obtain ⟨pc, s', pc', new, hpc, hs, rfl⟩ := Pool.step_eq_some.mp hstep
  rw [hcheck, Option.some.injEq] at hpc
  subst hpc
  cases hmove : a.2 <;> simp only [schedulerStep, hmove, limitsStep, casStep, reduceCtorEq] at hs
  rw [goStep, herr, hproducer] at hs
  cases hs
  exact ⟨rfl, (hblame.failing _ hrecord rfl).resolve_left (by simp [herr])⟩

/-- `run_scheduler_scope` has not returned, or what it returned is right: `Ok` only when every
emitted leaf was processed as often as it was emitted, and `Err` when some leaf failed. -/
def Reported (p : SchedulerState) : Prop :=
  ∀ ok, p.shared.result = some ok →
    (ok = true → p.shared.processed.Perm p.shared.emitted) ∧ (p.shared.failed ≠ [] → ok = false)

/-- The outcome is right exactly when the last check was timely. -/
theorem reported_iff_timely (cfg : SchedulerConfig) {as : List SchedulerAction}
    (hr : Run cfg.step SchedulerState.initial as p) :
    Reported p ↔ Run (guarded Timely cfg.step) SchedulerState.initial as p := by
  constructor
  · intro hreported
    rcases hr.guarded_or (C := Timely) with hguarded | ⟨u, v, b, bs, cs, hbs, hbad, hstep, hcs⟩
    · exact hguarded
    · obtain ⟨hbooks, hblame⟩ := blame_of_run hbs.of_guarded
      have hlate : (Books p ∧ Blame p) ∧ p.shared.result = some true ∧ p.shared.failed ≠ [] := by
        refine Run.invariant
          (P := fun p => (Books p ∧ Blame p) ∧ p.shared.result = some true ∧ p.shared.failed ≠ [])
          hcs ⟨⟨hbooks.step hstep, hblame.step hbooks hstep⟩, untimely_ok hblame hbad hstep⟩ ?_
        rintro s a t ⟨⟨hbooks, hblame⟩, hresult, hfailed⟩ hstep
        refine ⟨⟨hbooks.step hstep, hblame.step hbooks hstep⟩,
          result_stays hbooks hblame hresult hstep, ?_⟩
        obtain ⟨pc, s', pc', new, hpc, hs, rfl⟩ := Pool.step_eq_some.mp hstep
        exact (schedulerStep_effect hs).errors_grow.2 hfailed
      have hfalse := (hreported true hlate.2.1).2 hlate.2.2
      cases hfalse
  · intro hguarded ok hok
    obtain ⟨⟨hbooks, hblame⟩, hsettled⟩ := settled_of_run hguarded
    cases ok with
    | false => exact ⟨fun htrue => Bool.noConfusion htrue, fun _ => rfl⟩
    | true =>
        have hs := hsettled hok
        refine ⟨fun _ => hs.processed_perm hbooks hblame, fun hfailed => ?_⟩
        exact absurd hs.lost (hblame.failed hfailed)

end

/-! ## A leaf that fails in a drainer -/

/-- Two workers, so one leaf drainer. -/
def oneDrainerConfig : SchedulerConfig where
  workerCount := 2
  leafBacklogCapacity := 4
  producerLeafBacklogSoftLimit := 0
  leafBatchDrainPolicy := .default
  workGraphEnabled := false
  workGraphTargetQueueMs := 0
  workGraphQuantumMs := 0
  workGraphMinTileRows := 0

def unlimited : LimitReading := ⟨0, true, 0, 0⟩

/-- The producer emits the leaf `[7]`, a drainer is spawned for it, and the emitter returns. -/
def emitOneLeaf : List SchedulerAction :=
  [(0, .emit [7] false), (1, .go), (1, .go), (1, .go), (1, .go), (1, .go), (1, .go),
    (1, .limits unlimited), (1, .cas true), (1, .go), (1, .go), (1, .limits unlimited)]

/-- The drainer takes the leaf, fails on it, and drops its guard. -/
def failOneLeaf : List SchedulerAction :=
  [(2, .go), (2, .go), (2, .limits unlimited), (2, .go), (2, .go), (2, .go), (2, .go), (2, .go),
    (2, .beginLeaf [7]), (2, .endLeaf [7] .failed), (2, .finishBatch), (2, .go)]

/-- The producer returns `Ok`, and the waiting thread sees nothing outstanding and no error. -/
def finishProducer : List SchedulerAction :=
  [(0, .ret true), (0, .go), (0, .go), (0, .go), (0, .go)]

/-- The error recorded before the last check is returned. -/
theorem reported_iff_timely_failed : ∃ p,
    Run oneDrainerConfig.step SchedulerState.initial
      (emitOneLeaf ++ failOneLeaf ++ [(2, .go)] ++ finishProducer) p ∧
    (p.shared.failed = [[7]] ∧ p.shared.result = some false) ∧
    (Reported p ↔ Run (guarded Timely oneDrainerConfig.step) SchedulerState.initial
      (emitOneLeaf ++ failOneLeaf ++ [(2, .go)] ++ finishProducer) p) := by
  have hfollow : (follow oneDrainerConfig.step SchedulerState.initial
      (emitOneLeaf ++ failOneLeaf ++ [(2, .go)] ++ finishProducer)).map
        (fun p => (p.shared.failed, p.shared.result)) = some ([[7]], some false) := by rfl
  obtain ⟨p, hr, hp⟩ := exists_run_of_follow hfollow
  exact ⟨p, hr, Prod.mk.inj hp, reported_iff_timely oneDrainerConfig hr⟩

/-- The error recorded after the last check: `Ok` is returned for a failed leaf. -/
theorem failedLeaf_returns_ok : ∃ p,
    Run oneDrainerConfig.step SchedulerState.initial
      (emitOneLeaf ++ failOneLeaf ++ finishProducer ++ [(2, .go)]) p ∧
    (p.shared.failed = [[7]] ∧ p.shared.processed = [] ∧ p.shared.result = some true) ∧
    ¬ Reported p := by
  have hfollow : (follow oneDrainerConfig.step SchedulerState.initial
      (emitOneLeaf ++ failOneLeaf ++ finishProducer ++ [(2, .go)])).map
        (fun p => (p.shared.failed, p.shared.processed, p.shared.result)) =
          some ([[7]], [], some true) := by rfl
  obtain ⟨p, hr, hp⟩ := exists_run_of_follow hfollow
  simp only [Prod.mk.injEq] at hp
  refine ⟨p, hr, hp, fun hreported => ?_⟩
  have hfalse := (hreported true hp.2.2).2 (by simp [hp.1])
  cases hfalse

end ForgeANN
