-- SUMMARY: Queued-work credit is exact in every run whose takers never overtake the credit of their leaf.
import ForgeANN.Lib.Ledger
import ForgeANN.Scheduler.Credit

/-!
# Exact credit

The two counters are ledgers beside the queue. They are exact in every run in
which no taker takes back a credit that has not been added; the code does not
keep to that, since a leaf is visible to takers before it is credited.
-/
namespace ForgeANN

open Lib

namespace Counter

/-- The step takes no credit back before it has been added: of the leaves like it that are queued or
    being taken, one at least has its credit. -/
def ordered (c : Counter) (p : CreditState) (t : CreditThread) : Bool :=
  match c.access t with
  | some (.remove leaf) =>
      decide ((p.adding c).count leaf < p.backlog.count leaf + (p.removing c).count leaf)
  | _ => true

/-- A push leaves the estimates of the leaves queued or being taken within 64 bits. -/
def fits (cfg : SchedulerConfig) (c : Counter) (p : CreditState) (t : CreditThread) : Bool :=
  match t.pc with
  | .emitPush leaf _ =>
      decide (p.backlog.length < cfg.queueCapacity →
        weigh (c.estimate cfg) p.backlog + weigh (c.estimate cfg) (p.removing c) +
          c.estimate cfg leaf < 2 ^ 64)
  | _ => true

end Counter

/-- A step that keeps the credit exact. -/
def creditFirst (cfg : SchedulerConfig) (p : CreditState) (a : Nat × CreditMove) : Bool :=
  match p.threads[a.1]? with
  | some t => [Counter.work, Counter.mem].all fun c => c.ordered p t && c.fits cfg p t
  | none => true

theorem creditFirst_thread {cfg : SchedulerConfig} {p : CreditState} {a : Nat × CreditMove}
    {t : CreditThread} (h : creditFirst cfg p a = true) (ht : p.threads[a.1]? = some t)
    (c : Counter) : c.ordered p t = true ∧ c.fits cfg p t = true := by
  rw [creditFirst, ht] at h
  simp only [List.all_cons, List.all_nil, Bool.and_true, Bool.and_eq_true] at h
  cases c with
  | work => exact h.1
  | mem => exact h.2

namespace CreditState

/-- The counter is a ledger beside the backlog. -/
def Balanced (cfg : SchedulerConfig) (c : Counter) (p : CreditState) : Prop :=
  Ledger (c.estimate cfg) (c.value p.shared) p.backlog (p.adding c) (p.removing c)

variable {cfg : SchedulerConfig} {c : Counter} {p q : CreditState} {a : Nat × CreditMove}

theorem balanced_initial : initial.Balanced cfg c := by
  cases c with
  | work => exact .initial
  | mem => exact .initial

/-- What a step does to the leaves with an access still to be made, where the threads it spawns have
    none. -/
theorem pending_step {i : Nat} {t : CreditThread} {new : List CreditThread}
    (ht : p.threads[i]? = some t) (t' : CreditThread) (s' : CreditShared) (hnew : ∀ o ∈ new, c.pending o = none) :
    (adding c ⟨s', p.threads.set i t' ++ new⟩ ++ Credit.adds (c.pending t)).Perm
        (p.adding c ++ Credit.adds (c.pending t')) ∧
      (removing c ⟨s', p.threads.set i t' ++ new⟩ ++ Credit.removes (c.pending t)).Perm
        (p.removing c ++ Credit.removes (c.pending t')) := by
  have hadds : new.flatMap (fun o => Credit.adds (c.pending o)) = [] := by
    rw [List.flatMap_eq_nil_iff]
    intro o ho
    rw [hnew o ho]
    rfl
  have hremoves : new.flatMap (fun o => Credit.removes (c.pending o)) = [] := by
    rw [List.flatMap_eq_nil_iff]
    intro o ho
    rw [hnew o ho]
    rfl
  constructor
  · rw [adding, List.flatMap_append, hadds, List.append_nil]
    exact Pool.flatMap_set_perm _ ht
  · rw [removing, List.flatMap_append, hremoves, List.append_nil]
    exact Pool.flatMap_set_perm _ ht

/-- Each effect on a counter is a step of its ledger. -/
theorem Balanced.effect {i : Nat} {t t' : CreditThread} {s' : CreditShared} {new : List CreditThread}
    (h : p.Balanced cfg c) (ht : p.threads[i]? = some t)
    (heffect : CounterEffect cfg c p.shared t (s', t', new)) (hordered : c.ordered p t = true)
    (hfits : c.fits cfg p t = true) : Balanced cfg c ⟨s', p.threads.set i t' ++ new⟩ := by
  have hnew : ∀ o ∈ new, c.pending o = none := by
    cases heffect with
    | same _ _ _ hnew => exact hnew
    | _ => simp
  obtain ⟨hadding, hremoving⟩ := pending_step ht t' s' hnew
  unfold Balanced at h ⊢
  cases heffect with
  | same hbacklog hvalue hpending =>
      rw [hpending] at hadding hremoving
      rw [hvalue, backlog, hbacklog]
      exact h.perm ((List.perm_append_right_iff _).mp hadding)
        ((List.perm_append_right_iff _).mp hremoving)
  | push hpc hroom hbacklog hvalue hpending hpending' =>
      rename_i leaf wait
      rw [hpending, hpending'] at hadding hremoving
      have hroom : p.backlog.length < cfg.queueCapacity := hroom
      have hless : weigh (c.estimate cfg) p.backlog + weigh (c.estimate cfg) (p.removing c) +
          c.estimate cfg leaf < 2 ^ 64 := by
        simpa [Counter.fits, hpc, hroom] using hfits
      rw [hvalue, backlog, hbacklog]
      refine (h.push hless).perm ?_ ?_
      · simpa [Credit.adds] using hadding.trans (List.perm_append_singleton _ _)
      · simpa [Credit.removes] using hremoving
  | add est hest hbacklog hvalue hpending hpending' =>
      rw [hpending, hpending'] at hadding hremoving
      rw [hvalue, backlog, hbacklog]
      refine (h.perm ?_ ?_).credit hest
      · simpa [Credit.adds] using (List.perm_append_singleton _ _).symm.trans hadding
      · simpa [Credit.removes] using hremoving
  | pop hbacklog hvalue hpending hpending' =>
      rename_i leaf
      rw [hpending, hpending'] at hadding hremoving
      rw [backlog, hbacklog] at h
      rw [hvalue]
      refine h.pop.perm ?_ ?_
      · simpa [Credit.adds] using hadding
      · simpa [Credit.removes] using hremoving.trans (List.perm_append_singleton _ _)
  | remove est hest haccess hbacklog hvalue hpending hpending' =>
      rename_i leaf
      rw [hpending, hpending'] at hadding hremoving
      have hadding' : (adding c ⟨s', p.threads.set i t' ++ []⟩).Perm (p.adding c) := by
        simpa [Credit.adds] using hadding
      have hremoving' : (leaf :: removing c ⟨s', p.threads.set i t' ++ []⟩).Perm (p.removing c) := by
        simpa [Credit.removes] using (List.perm_append_singleton _ _).symm.trans hremoving
      have hless : (p.adding c).count leaf < p.backlog.count leaf + (p.removing c).count leaf := by
        simpa [Counter.ordered, haccess] using hordered
      rw [hvalue, backlog, hbacklog]
      apply (h.perm hadding' hremoving').debit hest
      rw [hadding'.count_eq, hremoving'.count_eq]
      exact hless

/-! ## Along a run -/

/-- The ledgers balance, and every thread owes only for what it has in hand. -/
structure Audited (cfg : SchedulerConfig) (p : CreditState) : Prop where
  balanced : ∀ c, p.Balanced cfg c
  owes : ∀ t ∈ p.threads, t.Owes

theorem Audited.initial : Audited cfg initial where
  balanced := fun _ => balanced_initial
  owes := by
    intro t ht
    cases List.mem_singleton.mp ht
    exact ⟨fun h => absurd rfl h, by simp⟩

theorem Audited.step (h : Audited cfg p) (hgraph : cfg.workGraphEnabled = true)
    (hstep : guarded (fun p a => creditFirst cfg p a = true) cfg.creditStep p a = some q) :
    Audited cfg q := by
  obtain ⟨hfirst, hstep⟩ := guarded_eq_some.mp hstep
  constructor
  · obtain ⟨t, s', t', new, ht, hs, rfl⟩ := Pool.step_eq_some.mp hstep
    intro c
    obtain ⟨hordered, hfits⟩ := creditFirst_thread hfirst ht c
    have howes := h.owes t (List.mem_of_getElem? ht)
    exact (h.balanced c).effect ht (creditProgram_effect howes hgraph hs) hordered hfits
  · exact Pool.forall_step (P := fun _ t => t.Owes) (fun _ hs => creditProgram_owes hs)
      (fun _ ho _ => h.owes _ ho) hstep

/-! ## What the counters come to -/

/-- A leaf popped and not debited is in its thread's hands. -/
theorem mem_custody {t : CreditThread} {leaf : Leaf} (h : t.Owes)
    (hpending : c.pending t = some (.remove leaf)) : leaf ∈ custody t := by
  have hpc : t.pc.credit = some (.remove leaf) → leaf ∈ custody t := by
    intro hcredit
    obtain ⟨pc, owed⟩ := t
    cases pc <;> simp_all [Pc.credit, custody, Pc.carried]
  have howed : t.owed = some (.remove leaf) → leaf ∈ custody t := by
    intro howed
    have hnone := h.credit (by simp [howed])
    rcases h.hand leaf howed with hmem | hdiscard
    · obtain ⟨pc, owed⟩ := t
      cases pc <;> simp_all [custody, Pc.carried, Pc.credit]
    · simp [custody, hdiscard, howed]
  cases c with
  | work => exact hpc hpending
  | mem =>
      rcases Option.or_eq_some_iff.mp hpending with hpending | ⟨-, hpending⟩
      · exact howed hpending
      · exact hpc hpending

theorem weigh_removes_le {t : CreditThread} (h : t.Owes) :
    weigh (c.estimate cfg) (Credit.removes (c.pending t)) ≤ weigh (c.estimate cfg) (custody t) := by
  match hpending : c.pending t with
  | none => exact Nat.zero_le _
  | some (.add leaf) => exact Nat.zero_le _
  | some (.remove leaf) =>
      apply weigh_le
      intro x
      by_cases hx : leaf = x
      · subst hx
        have hmem : 0 < (custody t).count leaf := List.count_pos_iff.mpr (mem_custody h hpending)
        simpa [Credit.removes] using hmem
      · simp [Credit.removes, hx]

theorem Audited.exact (h : Audited cfg p) : CreditExact cfg p where
  le_unfinished := by
    intro c
    have hcustody : weigh (c.estimate cfg) (p.removing c) ≤
        weigh (c.estimate cfg) (p.threads.flatMap custody) :=
      weigh_flatMap_le fun t ht => weigh_removes_le (h.owes t ht)
    have hvalue := (h.balanced c).value_le
    rw [unfinished, weigh_append]
    omega
  eq_queued := by
    intro hnone c
    have hpending : ∀ t ∈ p.threads, c.pending t = none := by
      intro t ht
      obtain ⟨hcredit, howed⟩ := hnone t ht
      cases c with
      | work => exact hcredit
      | mem => simp [Counter.pending, hcredit, howed]
    have hadding : p.adding c = [] := by
      rw [adding, List.flatMap_eq_nil_iff]
      intro t ht
      rw [hpending t ht]
      rfl
    have hremoving : p.removing c = [] := by
      rw [removing, List.flatMap_eq_nil_iff]
      intro t ht
      rw [hpending t ht]
      rfl
    have hbalanced := h.balanced c
    unfold Balanced at hbalanced
    rw [hadding, hremoving] at hbalanced
    exact hbalanced.settled

/-- The credit is exact in every state of a run that keeps to the order. -/
theorem creditExact_of_run {cfg : SchedulerConfig} (hgraph : cfg.workGraphEnabled = true)
    {as : List (Nat × CreditMove)} {p : CreditState}
    (hr : Run (guarded (fun p a => creditFirst cfg p a = true) cfg.creditStep) initial as p) :
    CreditExact cfg p :=
  (hr.invariant Audited.initial fun _ _ _ h hstep => h.step hgraph hstep).exact

/-- Without the second counter, what runs is the scheduler. -/
theorem scheduler_of_run {as : List (Nat × CreditMove)}
    (hr : Run cfg.creditStep initial as p) :
    ∃ bs, Run cfg.step SchedulerState.initial bs p.scheduler := by
  apply hr.invariant (P := fun p => ∃ bs, Run cfg.step SchedulerState.initial bs p.scheduler)
    ⟨[], .nil _⟩
  rintro p a q ⟨bs, hbs⟩ hstep
  obtain ⟨t, s', t', new, ht, hs, rfl⟩ := Pool.step_eq_some.mp hstep
  have hpc : p.scheduler.threads[a.1]? = some t.pc := by simp [scheduler, ht]
  rcases creditProgram_cases hs with ⟨-, m, shared, pc, fresh, hprog, hn⟩ | ⟨credit, -, hn⟩
  · cases hn
    have hnext : cfg.step p.scheduler (a.1, m) =
        some (scheduler ⟨{ p.shared with scheduler := shared },
          p.threads.set a.1 ⟨pc, t.pc.credit⟩ ++ fresh.map (⟨·, none⟩)⟩) := by
      refine Pool.step_eq_some.mpr ⟨t.pc, shared, pc, fresh, hpc, hprog, ?_⟩
      simp [scheduler, List.map_set, Function.comp_def]
    exact ⟨bs ++ [(a.1, m)], hbs.snoc hnext⟩
  · cases hn
    have hsame : scheduler ⟨{ p.shared with
        queuedMemBytes := credit.applyMem cfg p.shared.queuedMemBytes },
        p.threads.set a.1 { t with owed := none } ++ []⟩ = p.scheduler := by
      obtain ⟨hlt, hget⟩ := List.getElem?_eq_some_iff.mp hpc
      simp only [scheduler, List.append_nil, List.map_set, Pool.mk.injEq, true_and]
      rw [← hget]
      exact List.set_getElem_self hlt
    exact ⟨bs, hsame ▸ hbs⟩

end CreditState

/-! ## A taker before the credit -/

/-- Two workers and the work graph, in tiles of one row and one millisecond. -/
def workGraphConfig : SchedulerConfig := { oneDrainerConfig with workGraphEnabled := true }

/-- The leaf `[7]` is pushed; its pusher has not credited it yet. -/
def pushOneLeaf : List (Nat × CreditMove) :=
  [(0, .move (.emit [7] false)), (1, .move .go), (1, .move .go), (1, .move .go)]

/-- A producer thread that waits for an empty backlog takes the leaf, and takes its credit back. -/
def takeOneLeaf : List (Nat × CreditMove) :=
  [(0, .move (.waitBelow 0)), (2, .move .go), (2, .move .go), (2, .move .go), (2, .move .go),
    (2, .move (.limits unlimited)), (2, .move (.cas true)), (2, .move .go), (2, .move .go),
    (2, .move (.limits unlimited)), (2, .move .go), (2, .move .go)]

/-- The credit is added before the leaf is taken. -/
theorem creditExact_of_run_one_leaf : ∃ p,
    Run (guarded (fun p a => creditFirst workGraphConfig p a = true) workGraphConfig.creditStep)
      CreditState.initial
      (pushOneLeaf ++ [(1, .move .go), (1, .memory)] ++ takeOneLeaf ++ [(2, .memory)]) p ∧
    CreditExact workGraphConfig p := by
  have hfollow : (follow
      (guarded (fun p a => creditFirst workGraphConfig p a = true) workGraphConfig.creditStep)
      CreditState.initial
      (pushOneLeaf ++ [(1, .move .go), (1, .memory)] ++ takeOneLeaf ++ [(2, .memory)])).map
        (fun p => p.shared.scheduler.leafBacklog) = some [] := by rfl
  obtain ⟨p, hr, -⟩ := exists_run_of_follow hfollow
  exact ⟨p, hr, CreditState.creditExact_of_run rfl hr⟩

/-- The credit of `[7]` is taken back before it has been added: `queued_work_ms` wraps around. -/
theorem takenLeaf_wraps : ¬ ∀ (cfg : SchedulerConfig) (as : List (Nat × CreditMove))
    (p : CreditState), cfg.workGraphEnabled = true →
      Run cfg.creditStep CreditState.initial as p → CreditExact cfg p := by
  intro h
  have hfollow : (follow workGraphConfig.creditStep CreditState.initial
      (pushOneLeaf ++ takeOneLeaf)).map
        (fun p => ((Counter.work.value p.shared).toNat,
          weigh (Counter.work.estimate workGraphConfig) p.unfinished)) =
            some (2 ^ 64 - 1, 1) := by rfl
  obtain ⟨p, hr, hp⟩ := exists_run_of_follow hfollow
  obtain ⟨hvalue, hweigh⟩ := Prod.mk.inj hp
  have hle := (h workGraphConfig _ p rfl hr).le_unfinished .work
  rw [hvalue, hweigh] at hle
  omega

end ForgeANN
