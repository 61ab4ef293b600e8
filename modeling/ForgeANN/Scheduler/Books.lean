-- SUMMARY: The scheduler's counters and leaves always add up over its threads.
import ForgeANN.Scheduler.Effect

/-!
# Balanced books

In every state reached, `outstanding_leaf_tasks` is the backlog plus what the
threads hold, `active_leaf_drainers` counts the drainers, and every emitted leaf
is queued, carried by a thread, processed or lost.
-/
namespace ForgeANN

open Lib

/-- `1` for the threads of one owner. -/
def Pc.owned (o : Owner) (pc : Pc) : Nat := if pc.owner = o then 1 else 0

def countSome (o : Option Bool) : Nat := if o.isSome then 1 else 0

/-- The books of a state. -/
structure Books (p : SchedulerState) : Prop where
  outstanding : p.shared.outstandingLeafTasks = p.shared.leafBacklog.length + p.total Pc.held
  leaves : ∀ x, p.shared.emitted.count x =
    p.shared.leafBacklog.count x + p.shared.processed.count x + p.shared.lost.count x +
      p.total fun pc => pc.carried.count x
  active : p.shared.activeLeafDrainers = 0 + p.total (Pc.owned .drainer)
  emitters : p.shared.emitters = 0 + p.total (Pc.owned .emitter)
  producer : 1 = countSome p.shared.producerResult + p.total (Pc.owned .producer)
  main : countSome p.shared.producerResult =
    countSome p.shared.result + p.total (Pc.owned .main)

theorem Books.initial : Books SchedulerState.initial := by
  constructor <;> simp [SchedulerState.initial, Pool.total, Pc.owned, countSome]

section

variable {s s' : Shared} {pc pc' : Pc} {new : List Pc}

theorem Effect.outstanding (h : Effect s pc (s', pc', new))
    (hle : s.leafBacklog.length + pc.held ≤ s.outstandingLeafTasks) :
    s'.outstandingLeafTasks + (s.leafBacklog.length + pc.held) =
      s.outstandingLeafTasks + (s'.leafBacklog.length + pc'.held + (new.map Pc.held).sum) := by
  cases h with
  | stay _ _ _ h => simp [h.held]
  | spawn h => simp [h.held]
  | start hpc _ _ hheld => simp [hpc, hheld]
  | ret hpc => simp [hpc]
  | reserve _ hheld => simp [hheld]; omega
  | release _ hheld => simp only [List.map_nil, List.sum_nil]; omega
  | push _ _ _ hheld => simp [hheld]
  | pop hbacklog _ hheld => simp [hbacklog, hheld]; omega
  | discard hpc hbacklog => simp [hpc, hbacklog]
  | process _ _ hheld => simp [hheld]
  | lose _ _ _ hheld => simp [hheld]
  | emitOk _ hheld => simp [hheld]
  | emitErr _ _ hheld => simp [hheld]
  | finish _ _ hheld => simp [hheld]
  | record hpc => simp [hpc]
  | leave hpc => simp [hpc]
  | gone _ hheld => simp [hheld]

theorem Effect.leaves (h : Effect s pc (s', pc', new)) (x : Leaf) :
    s'.emitted.count x + (s.leafBacklog.count x + s.processed.count x + s.lost.count x +
        pc.carried.count x) =
      s.emitted.count x + (s'.leafBacklog.count x + s'.processed.count x + s'.lost.count x +
        pc'.carried.count x + (new.map fun pc => pc.carried.count x).sum) := by
  cases h with
  | stay work active retiring h => simp [h.carried.count_eq]
  | spawn h => simp [h.carried.count_eq]
  | process leaves _ _ hcarried _ => simp [hcarried.count_eq]; omega
  | lose leaves failed _ _ hcarried _ _ _ => simp [hcarried.count_eq]; omega
  | start hpc leaves howner hheld hcarried hfailing => simp [hpc, hcarried]; omega
  | ret hpc ok => simp [hpc]
  | reserve _ _ hcarried _ => simp [hcarried]
  | release _ _ hcarried _ => simp [hcarried]
  | push leaf _ _ _ hcarried _ => simp [hcarried, List.count_cons]; omega
  | pop hbacklog _ _ hcarried _ => simp [hcarried, hbacklog, List.count_cons]; omega
  | discard hpc hbacklog => simp [hpc, hbacklog, List.count_cons]; omega
  | emitOk _ _ hcarried _ => simp [hcarried]
  | emitErr dropped _ _ hcarried => simp [hcarried]; omega
  | finish ok _ _ hcarried _ => simp [hcarried]
  | record hpc => simp [hpc]
  | leave hpc => simp [hpc, SpawnFor.inHand]
  | gone _ _ hcarried _ => simp [hcarried]

/-- A tally of the threads of one owner moves with the thread's owner. -/
theorem owned_eq {o : Owner} (h : pc'.owner = pc.owner) : pc'.owned o = pc.owned o := by
  unfold Pc.owned
  rw [h]

theorem Effect.active (h : Effect s pc (s', pc', new))
    (hle : 0 + pc.owned .drainer ≤ s.activeLeafDrainers) :
    s'.activeLeafDrainers + (0 + pc.owned .drainer) =
      s.activeLeafDrainers + (0 + pc'.owned .drainer + (new.map (Pc.owned .drainer)).sum) := by
  cases h with
  | stay _ _ _ h => simp [owned_eq h.owner]
  | spawn h => simp [owned_eq h.owner]; simp [Pc.owned]; omega
  | start hpc _ howner => simp [Pc.owned, hpc, howner]
  | ret hpc => simp [Pc.owned, hpc]
  | reserve howner => simp [Pc.owned, howner.1, howner.2]
  | release howner => simp [owned_eq howner]
  | push _ _ howner => simp [Pc.owned, howner]
  | pop _ howner => simp [owned_eq howner]
  | discard hpc => simp [Pc.owned, hpc]
  | process _ howner => simp [owned_eq howner]
  | lose _ _ howner => simp [owned_eq howner]
  | emitOk howner => simp [Pc.owned, howner]
  | emitErr _ howner => simp [Pc.owned, howner]
  | finish _ howner => simp [Pc.owned, howner]
  | record hpc => simp [Pc.owned, hpc]
  | leave hpc => simp [Pc.owned, hpc, SpawnFor.owner] at hle ⊢; omega
  | gone howner => simp [Pc.owned, howner]

theorem Effect.emitters (h : Effect s pc (s', pc', new))
    (hle : 0 + pc.owned .emitter ≤ s.emitters) :
    s'.emitters + (0 + pc.owned .emitter) =
      s.emitters + (0 + pc'.owned .emitter + (new.map (Pc.owned .emitter)).sum) := by
  cases h with
  | stay _ _ _ h => simp [owned_eq h.owner]
  | spawn h => simp [owned_eq h.owner]; simp [Pc.owned]
  | start hpc _ howner => simp [Pc.owned, hpc, howner]
  | ret hpc => simp [Pc.owned, hpc]
  | reserve howner => simp [Pc.owned, howner.1, howner.2]
  | release howner => simp [owned_eq howner]
  | push _ _ howner => simp [Pc.owned, howner]
  | pop _ howner => simp [owned_eq howner]
  | discard hpc => simp [Pc.owned, hpc]
  | process _ howner => simp [owned_eq howner]
  | lose _ _ howner => simp [owned_eq howner]
  | emitOk howner => simp [Pc.owned, howner] at hle ⊢; omega
  | emitErr _ howner => simp [Pc.owned, howner] at hle ⊢; omega
  | finish _ howner => simp [Pc.owned, howner]
  | record hpc => simp [Pc.owned, hpc]
  | leave hpc => simp [Pc.owned, hpc, SpawnFor.owner]
  | gone howner => simp [Pc.owned, howner]

theorem Effect.producer (h : Effect s pc (s', pc', new))
    (hle : countSome s.producerResult + pc.owned .producer ≤ 1) :
    1 + (countSome s.producerResult + pc.owned .producer) =
      1 + (countSome s'.producerResult + pc'.owned .producer +
        (new.map (Pc.owned .producer)).sum) := by
  cases h with
  | stay _ _ _ h => simp [owned_eq h.owner]
  | spawn h => simp [owned_eq h.owner]; simp [Pc.owned]
  | start hpc _ howner => simp [Pc.owned, hpc, howner]
  | ret hpc => simp [Pc.owned, countSome, hpc] at hle ⊢; simp [hle]
  | reserve howner => simp [Pc.owned, howner.1, howner.2]
  | release howner => simp [owned_eq howner]
  | push _ _ howner => simp [Pc.owned, howner]
  | pop _ howner => simp [owned_eq howner]
  | discard hpc => simp [Pc.owned, hpc]
  | process _ howner => simp [owned_eq howner]
  | lose _ _ howner => simp [owned_eq howner]
  | emitOk howner => simp [Pc.owned, howner]
  | emitErr _ howner => simp [Pc.owned, howner]
  | finish _ howner => simp [Pc.owned, howner]
  | record hpc => simp [Pc.owned, hpc]
  | leave hpc => simp [Pc.owned, hpc, SpawnFor.owner]
  | gone howner => simp [Pc.owned, howner]

theorem Effect.main (h : Effect s pc (s', pc', new))
    (hproducer : countSome s.producerResult + pc.owned .producer ≤ 1)
    (hle : countSome s.result + pc.owned .main ≤ countSome s.producerResult) :
    countSome s'.producerResult + (countSome s.result + pc.owned .main) =
      countSome s.producerResult + (countSome s'.result + pc'.owned .main +
        (new.map (Pc.owned .main)).sum) := by
  cases h with
  | stay _ _ _ h => simp [owned_eq h.owner]
  | spawn h => simp [owned_eq h.owner]; simp [Pc.owned]
  | start hpc _ howner => simp [Pc.owned, hpc, howner]
  | ret hpc => simp [Pc.owned, countSome, hpc] at hproducer hle ⊢; simp [hproducer] at hle ⊢; omega
  | reserve howner => simp [Pc.owned, howner.1, howner.2]
  | release howner => simp [owned_eq howner]
  | push _ _ howner => simp [Pc.owned, howner]
  | pop _ howner => simp [owned_eq howner]
  | discard hpc => simp [Pc.owned, hpc]
  | process _ howner => simp [owned_eq howner]
  | lose _ _ howner => simp [owned_eq howner]
  | emitOk howner => simp [Pc.owned, howner]
  | emitErr _ howner => simp [Pc.owned, howner]
  | finish _ howner => simp [Pc.owned, countSome, howner] at hle ⊢; split_ifs at hle ⊢ <;> simp_all
  | record hpc => simp [Pc.owned, hpc]
  | leave hpc => simp [Pc.owned, hpc, SpawnFor.owner]
  | gone howner => simp [Pc.owned, howner]

end

section

variable {cfg : SchedulerConfig} {p q : SchedulerState} {a : SchedulerAction}
  {as : List SchedulerAction}

theorem Books.step (h : Books p) (hstep : cfg.step p a = some q) : Books q where
  outstanding := Pool.balance_step _ (fun s => s.leafBacklog.length) _
    (fun _ hs hle => (schedulerStep_effect hs).outstanding hle) h.outstanding hstep
  leaves x := Pool.balance_step (fun s => s.emitted.count x)
    (fun s => s.leafBacklog.count x + s.processed.count x + s.lost.count x) _
    (fun _ hs _ => (schedulerStep_effect hs).leaves x) (h.leaves x) hstep
  active := Pool.balance_step _ (fun _ => 0) _
    (fun _ hs hle => (schedulerStep_effect hs).active hle) h.active hstep
  emitters := Pool.balance_step _ (fun _ => 0) _
    (fun _ hs hle => (schedulerStep_effect hs).emitters hle) h.emitters hstep
  producer := Pool.balance_step (fun _ => 1) (fun s => countSome s.producerResult) _
    (fun _ hs hle => (schedulerStep_effect hs).producer hle) h.producer hstep
  main := Pool.balance_step (fun s => countSome s.producerResult) (fun s => countSome s.result) _
    (fun hl hs hle => by
      have hmine : Pc.owned .producer _ ≤ p.total (Pc.owned .producer) := Pool.le_total hl
      have hproducer := h.producer
      exact (schedulerStep_effect hs).main (by omega) hle) h.main hstep

/-- The books of every state reached balance. -/
theorem books_of_run (hr : Run cfg.step SchedulerState.initial as p) : Books p :=
  hr.invariant .initial fun _ _ _ h hstep => h.step hstep

theorem Books.held_eq_zero (h : Books p) (hzero : p.shared.outstandingLeafTasks = 0) {pc : Pc}
    (hpc : pc ∈ p.threads) : pc.held = 0 := by
  have htotal := h.outstanding
  have hle : pc.held ≤ p.total Pc.held := Pool.le_total hpc
  omega

theorem Books.backlog_eq_nil (h : Books p) (hzero : p.shared.outstandingLeafTasks = 0) :
    p.shared.leafBacklog = [] := by
  have htotal := h.outstanding
  exact List.eq_nil_of_length_eq_zero (by omega)

theorem owned_le_total {pc : Pc} (hpc : pc ∈ p.threads) : 1 ≤ p.total (Pc.owned pc.owner) := by
  have hle : pc.owned pc.owner ≤ p.total (Pc.owned pc.owner) := Pool.le_total hpc
  rwa [Pc.owned, if_pos rfl] at hle

theorem Books.emitters_pos (h : Books p) {pc : Pc} (hpc : pc ∈ p.threads)
    (howner : pc.owner = .emitter) : 0 < p.shared.emitters := by
  have htotal := h.emitters
  have hle := howner ▸ owned_le_total hpc
  omega

/-- The producer runs until it returns. -/
theorem Books.producerResult_eq_none (h : Books p) {pc : Pc} (hpc : pc ∈ p.threads)
    (howner : pc.owner = .producer) : p.shared.producerResult = none := by
  have htotal := h.producer
  have hle := howner ▸ owned_le_total hpc
  cases hresult : p.shared.producerResult with
  | none => rfl
  | some ok =>
      rw [hresult, countSome, Option.isSome_some, if_pos rfl] at htotal
      omega

/-- The waiting thread runs from the producer's return to its own. -/
theorem Books.returned_of_main (h : Books p) {pc : Pc} (hpc : pc ∈ p.threads)
    (howner : pc.owner = .main) :
    p.shared.producerResult.isSome = true ∧ p.shared.result = none := by
  have htotal := h.main
  have hle := howner ▸ owned_le_total hpc
  have hone : countSome p.shared.producerResult ≤ 1 := by unfold countSome; split_ifs <;> omega
  constructor
  · by_contra hnone
    rw [countSome, if_neg hnone] at htotal
    omega
  · cases hresult : p.shared.result with
    | none => rfl
    | some ok =>
        rw [hresult, countSome, countSome, Option.isSome_some, if_pos rfl] at htotal
        unfold countSome at hone
        omega

end

end ForgeANN
