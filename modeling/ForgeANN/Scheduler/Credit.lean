-- SUMMARY: The queued-work counters as separate accesses, and when they are exact over every interleaving.
import ForgeANN.Lib.Ledger
import ForgeANN.Scheduler.Ledger
import ForgeANN.Scheduler.Outcome

/-!
# Queued-work credit

`add_queued_leaf_credit` and `remove_queued_leaf_credit` make two accesses each:
one to `queued_work_ms`, then one to `queued_mem_bytes`. The scheduler is
extended by the second counter: a thread that has made the first access owes the
second before it goes on. A leaf is credited only after its push, so a taker may
be there first; the counters are exact as long as none is.
-/
namespace ForgeANN

open Lib

/-- `make_queued_leaf`'s `estimated_mem_bytes`. -/
def SchedulerConfig.estimateLeafMemBytes (cfg : SchedulerConfig) (leaf : Leaf) : UInt64 :=
  saturate (leaf.length * 4 + (cfg.estimateLeafWorkMs leaf).toNat)

structure CreditShared where
  scheduler : Shared
  queuedMemBytes : UInt64

structure CreditThread where
  pc : Pc
  /-- The access to `queued_mem_bytes` that is still to be made. -/
  owed : Option Credit

inductive CreditMove where
  | move (m : Move)
  /-- The access to `queued_mem_bytes`. -/
  | memory

/-- The access to `queued_mem_bytes`; nothing where the work graph is off. -/
def Credit.applyMem (cfg : SchedulerConfig) (bytes : UInt64) : Credit → UInt64
  | .add leaf => if cfg.workGraphEnabled then bytes + cfg.estimateLeafMemBytes leaf else bytes
  | .remove leaf => if cfg.workGraphEnabled then bytes - cfg.estimateLeafMemBytes leaf else bytes

def creditProgram (cfg : SchedulerConfig) : Program CreditShared CreditThread CreditMove :=
  fun s t m =>
    match t.owed, m with
    | some credit, .memory =>
        some ({ s with queuedMemBytes := credit.applyMem cfg s.queuedMemBytes },
          { t with owed := none }, [])
    | none, .move m =>
        match schedulerStep cfg s.scheduler t.pc m with
        | some (shared, pc, new) =>
            some ({ s with scheduler := shared }, ⟨pc, t.pc.credit⟩, new.map (⟨·, none⟩))
        | none => none
    | _, _ => none

abbrev CreditState := Pool CreditShared CreditThread

abbrev SchedulerConfig.creditStep (cfg : SchedulerConfig) :
    CreditState → Nat × CreditMove → Option CreditState :=
  Pool.step (creditProgram cfg)

namespace CreditState

def initial : CreditState := ⟨⟨SchedulerState.initial.shared, 0⟩, [⟨.produce, none⟩]⟩

/-- The scheduler without the second counter. -/
def scheduler (p : CreditState) : SchedulerState := ⟨p.shared.scheduler, p.threads.map (·.pc)⟩

end CreditState

/-! ## The two counters -/

inductive Counter where
  | work
  | mem

namespace Counter

def value : Counter → CreditShared → UInt64
  | .work, s => s.scheduler.queuedWorkMs
  | .mem, s => s.queuedMemBytes

def estimate (cfg : SchedulerConfig) : Counter → Leaf → Nat
  | .work, leaf => (cfg.estimateLeafWorkMs leaf).toNat
  | .mem, leaf => (cfg.estimateLeafMemBytes leaf).toNat

/-- The access to the counter that the thread's next step makes. -/
def access : Counter → CreditThread → Option Credit
  | .work, t => if t.owed.isNone then t.pc.credit else none
  | .mem, t => t.owed

/-- The access to the counter that the thread has still to make for a leaf pushed or popped. -/
def pending : Counter → CreditThread → Option Credit
  | .work, t => t.pc.credit
  | .mem, t => t.owed.or t.pc.credit

end Counter

namespace Credit

def adds : Option Credit → List Leaf
  | some (.add leaf) => [leaf]
  | _ => []

def removes : Option Credit → List Leaf
  | some (.remove leaf) => [leaf]
  | _ => []

end Credit

namespace CreditState

variable (c : Counter) (p : CreditState)

def backlog : List Leaf := p.shared.scheduler.leafBacklog

/-- The leaves pushed whose credit has not been added. -/
def adding : List Leaf := p.threads.flatMap fun t => Credit.adds (c.pending t)

/-- The leaves popped whose credit has not been taken back. -/
def removing : List Leaf := p.threads.flatMap fun t => Credit.removes (c.pending t)

/-- The leaves a thread has in hand, those it is discarding included. -/
def custody (t : CreditThread) : List Leaf :=
  match t.pc, t.owed with
  | .discardCredit leaf, _ => [leaf]
  | .discardRelease, some (.remove leaf) => [leaf]
  | pc, _ => pc.carried

/-- The leaves emitted that are neither processed nor dropped. -/
def unfinished : List Leaf := p.backlog ++ p.threads.flatMap custody

end CreditState

/-- The counters never exceed the estimates of the unfinished leaves, and with no access under way
    they are the estimates of the queued ones. -/
structure CreditExact (cfg : SchedulerConfig) (p : CreditState) : Prop where
  le_unfinished : ∀ c : Counter, (c.value p.shared).toNat ≤ weigh (c.estimate cfg) p.unfinished
  eq_queued : (∀ t ∈ p.threads, t.pc.credit = none ∧ t.owed = none) →
    ∀ c : Counter, (c.value p.shared).toNat = weigh (c.estimate cfg) p.backlog

/-! ## What a step does to a counter -/

/-- What a thread owes it owes for a leaf it has in hand. -/
structure CreditThread.Owes (t : CreditThread) : Prop where
  credit : t.owed ≠ none → t.pc.credit = none
  hand : ∀ leaf, t.owed = some (.remove leaf) → leaf ∈ t.pc.carried ∨ t.pc = .discardRelease

/-- What a step does to one counter, the queue, and the accesses still to be made. -/
inductive CounterEffect (cfg : SchedulerConfig) (c : Counter) (s : CreditShared) (t : CreditThread) :
    CreditShared × CreditThread × List CreditThread → Prop
  | same {s' : CreditShared} {t' : CreditThread} {new : List CreditThread}
      (hbacklog : s'.scheduler.leafBacklog = s.scheduler.leafBacklog)
      (hvalue : c.value s' = c.value s) (hpending : c.pending t' = c.pending t)
      (hnew : ∀ o ∈ new, c.pending o = none) : CounterEffect cfg c s t (s', t', new)
  | push {s' : CreditShared} {t' : CreditThread} {leaf : Leaf} {wait : Bool}
      (hpc : t.pc = .emitPush leaf wait)
      (hroom : s.scheduler.leafBacklog.length < cfg.queueCapacity)
      (hbacklog : s'.scheduler.leafBacklog = s.scheduler.leafBacklog ++ [leaf])
      (hvalue : c.value s' = c.value s) (hpending : c.pending t = none)
      (hpending' : c.pending t' = some (.add leaf)) : CounterEffect cfg c s t (s', t', [])
  | add {s' : CreditShared} {t' : CreditThread} {leaf : Leaf} (est : UInt64)
      (hest : est.toNat = c.estimate cfg leaf)
      (hbacklog : s'.scheduler.leafBacklog = s.scheduler.leafBacklog)
      (hvalue : c.value s' = c.value s + est) (hpending : c.pending t = some (.add leaf))
      (hpending' : c.pending t' = none) : CounterEffect cfg c s t (s', t', [])
  | pop {s' : CreditShared} {t' : CreditThread} {leaf : Leaf}
      (hbacklog : s.scheduler.leafBacklog = leaf :: s'.scheduler.leafBacklog)
      (hvalue : c.value s' = c.value s) (hpending : c.pending t = none)
      (hpending' : c.pending t' = some (.remove leaf)) : CounterEffect cfg c s t (s', t', [])
  | remove {s' : CreditShared} {t' : CreditThread} {leaf : Leaf} (est : UInt64)
      (hest : est.toNat = c.estimate cfg leaf) (haccess : c.access t = some (.remove leaf))
      (hbacklog : s'.scheduler.leafBacklog = s.scheduler.leafBacklog)
      (hvalue : c.value s' = c.value s - est) (hpending : c.pending t = some (.remove leaf))
      (hpending' : c.pending t' = none) : CounterEffect cfg c s t (s', t', [])

section

variable {cfg : SchedulerConfig} {c : Counter} {s : CreditShared} {t : CreditThread}
  {m : CreditMove} {n : CreditShared × CreditThread × List CreditThread}

/-- A step is one of the scheduler's, by a thread that owes nothing, or pays what the thread owes. -/
theorem creditProgram_cases (h : creditProgram cfg s t m = some n) :
    (t.owed = none ∧ ∃ m' shared pc new, schedulerStep cfg s.scheduler t.pc m' = some (shared, pc, new) ∧
      n = ({ s with scheduler := shared }, ⟨pc, t.pc.credit⟩, new.map (⟨·, none⟩))) ∨
    ∃ credit, t.owed = some credit ∧
      n = ({ s with queuedMemBytes := credit.applyMem cfg s.queuedMemBytes }, { t with owed := none },
        []) := by
  unfold creditProgram at h
  split at h
  · rename_i credit howed
    cases h
    exact .inr ⟨credit, howed, rfl⟩
  · rename_i howed
    split at h
    · rename_i hstep
      cases h
      exact .inl ⟨howed, _, _, _, _, hstep, rfl⟩
    · cases h
  · cases h

theorem creditProgram_owes (h : creditProgram cfg s t m = some n) :
    n.2.1.Owes ∧ ∀ o ∈ n.2.2, o.Owes := by
  have hnone : ∀ pc, CreditThread.Owes ⟨pc, none⟩ := fun pc => ⟨fun h => absurd rfl h, by simp⟩
  rcases creditProgram_cases h with ⟨howed, m', shared, pc, new, hstep, rfl⟩ | ⟨credit, howed, rfl⟩
  · constructor
    · cases schedulerStep_ledger hstep with
      | quiet _ _ _ hpc =>
          rw [hpc.credit]
          exact hnone pc
      | push hpc =>
          rw [hpc]
          exact hnone _
      | add hpc =>
          rw [hpc]
          exact ⟨fun _ => rfl, by simp [Pc.credit]⟩
      | pop _ hpc =>
          rw [hpc.credit]
          exact hnone pc
      | remove hcredit hnext hhand =>
          rw [hcredit]
          refine ⟨fun _ => hnext.credit, fun leaf hleaf => ?_⟩
          cases hleaf
          exact hhand
      | retire hpc =>
          rw [hpc]
          exact hnone _
      | retired hpc =>
          rw [hpc]
          exact hnone _
    · intro o ho
      obtain ⟨pc', -, rfl⟩ := List.mem_map.mp ho
      exact hnone pc'
  · exact ⟨hnone t.pc, by simp⟩

/-- Paying what is owed changes the second counter only. -/
theorem counterEffect_memory {credit : Credit} (ht : t.Owes) (hgraph : cfg.workGraphEnabled = true)
    (howed : t.owed = some credit) :
    CounterEffect cfg c s t
      ({ s with queuedMemBytes := credit.applyMem cfg s.queuedMemBytes }, { t with owed := none }, []) := by
  have hcredit : t.pc.credit = none := ht.credit (by simp [howed])
  cases c with
  | work => exact .same rfl rfl rfl (by simp)
  | mem =>
      cases credit with
      | add leaf =>
          exact .add (cfg.estimateLeafMemBytes leaf) rfl rfl (by simp [Counter.value, Credit.applyMem, hgraph])
            (by simp [Counter.pending, howed]) (by simp [Counter.pending, hcredit])
      | remove leaf =>
          exact .remove (cfg.estimateLeafMemBytes leaf) rfl (by simp [Counter.access, howed]) rfl
            (by simp [Counter.value, Credit.applyMem, hgraph])
            (by simp [Counter.pending, howed]) (by simp [Counter.pending, hcredit])

/-- A step of the scheduler makes the first access where there is one, and leaves the second owed. -/
theorem counterEffect_move {m : Move} {shared : Shared} {pc : Pc} {new : List Pc} (howed : t.owed = none)
    (h : schedulerStep cfg s.scheduler t.pc m = some (shared, pc, new)) :
    CounterEffect cfg c s t
      ({ s with scheduler := shared }, ⟨pc, t.pc.credit⟩, new.map (⟨·, none⟩)) := by
  have hpending : ∀ credit, t.pc.credit = credit → c.pending t = credit := by
    intro credit hcredit
    cases c <;> simp [Counter.pending, howed, hcredit]
  have hfresh : ∀ pc' : Pc, ∀ credit, pc'.credit = credit → c.pending ⟨pc', none⟩ = credit := by
    intro pc' credit hcredit
    cases c <;> simp [Counter.pending, hcredit]
  cases schedulerStep_ledger h with
  | quiet hbacklog hwork hretiring hpc hnext hnew =>
      refine .same hbacklog ?_ ?_ ?_
      · cases c
        · exact hwork
        · rfl
      · rw [hpc.credit, hpending _ hpc.credit]
        exact hfresh pc none hnext.credit
      · intro o ho
        obtain ⟨pc', hpc', rfl⟩ := List.mem_map.mp ho
        exact hfresh pc' none (hnew pc' hpc').credit
  | push hpc hroom =>
      have hcredit : t.pc.credit = none := by rw [hpc]; rfl
      rw [hcredit]
      refine .push hpc hroom rfl ?_ (hpending none hcredit) (hfresh _ _ rfl)
      cases c <;> rfl
  | @add leaf wait hpc =>
      have hcredit : t.pc.credit = some (.add leaf) := by rw [hpc]; rfl
      rw [hcredit]
      cases c with
      | work => exact .add (cfg.estimateLeafWorkMs leaf) rfl rfl rfl (hpending _ hcredit) rfl
      | mem => exact .same rfl rfl (hpending _ hcredit).symm (by simp)
  | pop hbacklog hpc hcredit hretires =>
      rw [hpc.credit]
      refine .pop hbacklog ?_ (hpending none hpc.credit) (hfresh _ _ hcredit)
      cases c <;> rfl
  | @remove leaf _ hcredit hnext hhand =>
      rw [hcredit]
      cases c with
      | work =>
          refine .remove (cfg.estimateLeafWorkMs leaf) rfl ?_ rfl rfl (hpending _ hcredit) hnext.credit
          simp [Counter.access, howed, hcredit]
      | mem => exact .same rfl rfl (hpending _ hcredit).symm (by simp)
  | retire hpc =>
      have hcredit : t.pc.credit = none := by rw [hpc]; rfl
      rw [hcredit]
      refine .same rfl ?_ ((hfresh _ none rfl).trans (hpending none hcredit).symm) (by simp)
      cases c <;> rfl
  | retired hpc =>
      have hcredit : t.pc.credit = none := by rw [hpc]; rfl
      rw [hcredit]
      refine .same rfl ?_ ((hfresh _ none rfl).trans (hpending none hcredit).symm) (by simp)
      cases c <;> rfl

theorem creditProgram_effect (ht : t.Owes) (hgraph : cfg.workGraphEnabled = true)
    (h : creditProgram cfg s t m = some n) : CounterEffect cfg c s t n := by
  rcases creditProgram_cases h with ⟨howed, m', shared, pc, new, hstep, rfl⟩ | ⟨credit, howed, rfl⟩
  · exact counterEffect_move howed hstep
  · exact counterEffect_memory ht hgraph howed

end

end ForgeANN
