-- SUMMARY: What a step of the leaf morsel queue does, and what keeps a submitter in its call.
import ForgeANN.Rbc.MorselRuns

/-!
# Moves of the leaf morsel queue

A step moves one thread, adds a leaf to the heap, takes one from it, or ends the
group. The heap is never over its capacity, and before the workers are joined no
submitter can see an error.
-/
namespace ForgeANN

open Lib

namespace Morsel

/-- The next leaf is added to the batch. -/
def grows (policy : Policy) (batch : List Leaf) (item : Item) : Prop :=
  batch.length < policy.maxBatchLeaves ∧ batchPoints batch < policy.maxBatchPoints ∧
    fitsBatch policy batch item

instance (policy : Policy) (batch : List Leaf) (item : Item) :
    Decidable (grows policy batch item) := inferInstanceAs (Decidable (_ ∧ _))

/-- A worker goes on, and takes nothing from the heap. -/
inductive WorkerMove (cfg : Config) (s : State) : WorkerPc → WorkerPc → Prop
  | loopTop (herror : s.error = none) : WorkerMove cfg s .top .popping
  | stop {err : AnnError} (herror : s.error = some err) :
      WorkerMove cfg s .top (.failed err [] [])
  | leave {pc : WorkerPc} (hheap : s.heap = []) : WorkerMove cfg s .popping pc
  | batch {batch : List Leaf} (hfull : ∀ item ∈ s.heap.head?, ¬ grows cfg.policy batch item) :
      WorkerMove cfg s (.batching batch) (.emitting batch batch)
  | emit {batch rest : List Leaf} {leaf : Leaf} (hleaf : cfg.fails leaf = none) :
      WorkerMove cfg s (.emitting batch (leaf :: rest)) (.emitting batch rest)
  | fail {batch rest : List Leaf} {leaf : Leaf} {err : AnnError} (hleaf : cfg.fails leaf = some err) :
      WorkerMove cfg s (.emitting batch (leaf :: rest)) (.failed err batch (leaf :: rest))
  | drained {batch : List Leaf} : WorkerMove cfg s (.emitting batch []) .top

/-- What a step can do. -/
inductive Move (cfg : Config) (s t : State) : Action → Prop
  /-- A submitter goes on, and adds nothing to the heap. -/
  | submitter {a : Action} {i : Nat} {before after : Submitter}
      (hi : s.submitters[i]? = some before)
      (hbefore : before.pc = .idle → s.closed = false)
      (hafter : after.pc = .idle → s.closed = true ∨ s.error ≠ none)
      (ht : t = s.setSubmitter i after) : Move cfg s t a
  | push {i : Nat} {before after : Submitter} {leaf : Leaf} {notified : Option Waiter}
      (hi : s.submitters[i]? = some before) (hbefore : before.pc = .locking leaf)
      (hafter : after.pc = .idle) (hopen : s.closed = false)
      (hroom : s.heap.length < cfg.capacity)
      (hs : ((s.push leaf).setSubmitter i after).notifyOne notified = some t) :
      Move cfg s t (.lock i notified)
  | worker {a : Action} {j : Nat} {pc pc' : WorkerPc} (hj : s.workers[j]? = some pc)
      (hmove : WorkerMove cfg s pc pc') (hworkers : t.workers = s.workers.set j pc')
      (hheap : t.heap = s.heap) (hclosed : t.closed = s.closed) (herror : t.error = s.error)
      (hsubmitters : t.submitters = s.submitters) : Move cfg s t a
  | take {a : Action} {j : Nat} {pc : WorkerPc} {item : Item} {heap : List Item}
      {batch : List Leaf} {notified : Option Waiter} (hj : s.workers[j]? = some pc)
      (hpc : pc = .popping ∨ ∃ held, pc = .batching held ∧ grows cfg.policy held item)
      (hheap : s.heap = item :: heap)
      (hs : ({ s with heap }.setWorker j (.batching batch)).notifyOne notified = some t) :
      Move cfg s t a
  | close {a : Action} (hidle : ∀ submitter ∈ s.submitters, submitter.pc = .idle)
      (ht : t = { s.notifyAll with closed := true }) : Move cfg s t a
  | join {a : Action} (hclosed : s.closed = true) (ht : t = s.finish) : Move cfg s t a

section

variable {cfg : Config} {s t : State} {a : Action} {i j : Nat}

theorem move_busy {before after : Submitter} (hi : s.submitters[i]? = some before)
    (hbefore : before.pc = .idle → s.closed = false) (hafter : after.pc ≠ .idle) :
    Move cfg s (s.setSubmitter i after) a :=
  .submitter hi hbefore (fun h => absurd h hafter) rfl

theorem move_lockSubmit {before : Submitter} {leaf : Leaf} {notified : Option Waiter}
    (hi : s.submitters[i]? = some before) (hbefore : before.pc = .locking leaf)
    (hs : s.lockSubmit cfg i before leaf notified = some t) :
    Move cfg s t (.lock i notified) := by
  have hbusy : before.pc ≠ .idle := by simp [hbefore]
  simp only [State.lockSubmit] at hs
  split_ifs at hs with hclosed hnone hroom hnone
  · cases hs
    exact .submitter hi (fun h => absurd h hbusy) (fun _ => .inl hclosed) rfl
  · exact .push hi hbefore rfl (Bool.not_eq_true _ ▸ hclosed) hroom hs
  · cases hs
    exact move_busy hi (fun h => absurd h hbusy) (by simp)

theorem move_lockPop {notified : Option Waiter} (hj : s.workers[j]? = some .popping)
    (hs : s.lockPop j notified = some t) : Move cfg s t a := by
  simp only [State.lockPop] at hs
  split at hs
  · rename_i item heap hheap
    exact .take hj (.inl rfl) hheap hs
  · rename_i hheap
    split_ifs at hs <;> cases hs <;> exact .worker hj (.leave hheap) rfl rfl rfl rfl rfl

theorem move_lockTryPop {batch : List Leaf} {notified : Option Waiter}
    (hj : s.workers[j]? = some (.batching batch))
    (hs : s.lockTryPop cfg.policy j batch notified = some t) : Move cfg s t a := by
  simp only [State.lockTryPop] at hs
  split at hs
  · rename_i item heap hheap
    split_ifs at hs with hgrows
    · exact .take hj (.inr ⟨batch, rfl, hgrows⟩) hheap hs
    · cases hs
      refine .worker hj (.batch fun next hnext => ?_) rfl rfl rfl rfl rfl
      rw [hheap, List.head?_cons, Option.mem_some_iff] at hnext
      exact hnext ▸ hgrows
  · rename_i hheap
    split_ifs at hs
    cases hs
    refine .worker hj (.batch fun next hnext => ?_) rfl rfl rfl rfl rfl
    rw [hheap] at hnext
    cases hnext

theorem move_emitNext {batch rest : List Leaf}
    (hj : s.workers[j]? = some (.emitting batch rest)) :
    Move cfg s (s.emitNext cfg j batch rest) a := by
  cases rest with
  | nil => exact .worker hj .drained rfl rfl rfl rfl rfl
  | cons leaf rest =>
      simp only [State.emitNext]
      split
      · rename_i err hleaf
        exact .worker hj (.fail hleaf) rfl rfl rfl rfl rfl
      · rename_i hleaf
        exact .worker hj (.emit hleaf) rfl rfl rfl rfl rfl

theorem move_step (hs : step cfg s a = some t) : Move cfg s t a := by
  cases a with
  | call i =>
      simp only [Morsel.step] at hs
      split at hs
      · rename_i hi
        split_ifs at hs with hclosed
        cases hs
        exact move_busy hi (fun _ => Bool.not_eq_true _ ▸ hclosed) (by simp)
      · cases hs
  | check i =>
      simp only [Morsel.step] at hs
      split at hs
      · rename_i hi
        split at hs
        · cases hs
          exact move_busy hi (by simp) (by simp)
        · rename_i herror
          cases hs
          refine .submitter hi (by simp) (fun _ => .inr fun hnone => ?_) rfl
          rw [State.checkError, hnone] at herror
          cases herror
      · cases hs
  | lock i notified =>
      simp only [Morsel.step] at hs
      split at hs
      · rename_i hi
        exact move_lockSubmit hi rfl hs
      · cases hs
  | timeout i =>
      simp only [Morsel.step] at hs
      split at hs
      · rename_i hi
        cases hs
        exact move_busy hi (by simp) (by simp)
      · cases hs
  | loopTop j =>
      simp only [Morsel.step] at hs
      split at hs
      · rename_i hj
        cases herror : s.error with
        | none =>
            rw [State.checkError, herror] at hs
            cases hs
            exact .worker hj (.loopTop herror) rfl rfl rfl rfl rfl
        | some err =>
            rw [State.checkError, herror] at hs
            cases hs
            exact .worker hj (.stop herror) rfl rfl rfl rfl rfl
      · cases hs
  | pop j notified =>
      simp only [Morsel.step] at hs
      split at hs
      · rename_i hj
        exact move_lockPop hj hs
      · cases hs
  | tryPop j notified =>
      simp only [Morsel.step] at hs
      split at hs
      · rename_i hj
        exact move_lockTryPop hj hs
      · cases hs
  | emit j =>
      simp only [Morsel.step] at hs
      split at hs
      · rename_i hj
        cases hs
        exact move_emitNext hj
      · cases hs
  | close =>
      simp only [Morsel.step] at hs
      split_ifs at hs with hready
      cases hs
      refine .close (fun submitter hmem => ?_) rfl
      exact Classical.not_not.mp fun hne => hready (.inr ⟨submitter, hmem, hne⟩)
  | join =>
      simp only [Morsel.step] at hs
      split_ifs at hs with hready
      cases hs
      exact .join hready.1 rfl

/-- A notification changes nothing, or wakes one of those that wait. -/
theorem notifyOne_cases {notified : Option Waiter} (hs : s.notifyOne notified = some t) :
    t = s ∨
    (∃ i submitter, s.submitters[i]? = some submitter ∧ submitter.pc.isWaiting ∧
      t = s.setSubmitter i submitter.awake) ∨
    ∃ j, s.workers[j]? = some .sleeping ∧ t = s.setWorker j .popping := by
  match notified with
  | none =>
      simp only [State.notifyOne] at hs
      split_ifs at hs
      exact .inl (Option.some.inj hs).symm
  | some (.submitter i) =>
      simp only [State.notifyOne] at hs
      split at hs
      · rename_i submitter hi
        split_ifs at hs with hwaiting
        exact .inr (.inl ⟨i, submitter, hi, hwaiting, (Option.some.inj hs).symm⟩)
      · cases hs
  | some (.worker j) =>
      simp only [State.notifyOne] at hs
      split_ifs at hs with hj
      exact .inr (.inr ⟨j, hj, (Option.some.inj hs).symm⟩)

/-- Someone can always be notified, or no one waits. -/
theorem exists_notifyOne (s : State) : ∃ notified t, s.notifyOne notified = some t := by
  by_cases hany : s.anyWaiting
  · rcases hany with ⟨submitter, hmem, hwaiting⟩ | hmem
    · obtain ⟨i, hi⟩ := List.mem_iff_getElem?.mp hmem
      exact ⟨some (.submitter i), s.setSubmitter i submitter.awake, by
        simp only [State.notifyOne, hi, hwaiting, if_true]⟩
    · obtain ⟨j, hj⟩ := List.mem_iff_getElem?.mp hmem
      exact ⟨some (.worker j), s.setWorker j .popping, by
        simp only [State.notifyOne, hj, if_true]⟩
  · exact ⟨none, s, by simp only [State.notifyOne, if_neg hany]⟩

end

end Morsel

end ForgeANN
