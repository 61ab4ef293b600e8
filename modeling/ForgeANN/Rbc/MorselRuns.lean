-- SUMMARY: Every submitted leaf morsel is emitted once, in batches within the limits.
import ForgeANN.Rbc.Morsel

/-!
# Runs of the leaf morsel queue

At any time a submitted leaf is in the heap, held by one worker, or emitted. A
worker leaves the queue with success only when it is closed and drained.
-/
namespace ForgeANN

open Lib

namespace Morsel

/-! ## The books -/

/-- The leaves a worker holds. -/
def WorkerPc.held : WorkerPc → List Leaf
  | .batching batch => batch
  | .emitting _ rest => rest
  | .failed _ _ rest => rest
  | _ => []

theorem held_batching (batch : List Leaf) : (WorkerPc.batching batch).held = batch := rfl

/-- The leaves of its batch that a worker has emitted, with the batch not counted yet. -/
def WorkerPc.done : WorkerPc → List Leaf
  | .emitting batch rest => batch.take (batch.length - rest.length)
  | .failed _ batch rest => batch.take (batch.length - rest.length)
  | _ => []

theorem done_emitting (before rest : List Leaf) :
    (WorkerPc.emitting (before ++ rest) rest).done = before := by
  simp [WorkerPc.done]

/-- A batch has a leaf, and not too many; with more than one it is within the limits. -/
structure WithinLimits (policy : Policy) (batch : List Leaf) : Prop where
  nonempty : batch ≠ []
  leaves : batch.length ≤ max 1 policy.maxBatchLeaves
  points : batch.length = 1 ∨ batchPoints batch ≤ policy.maxBatchPoints
  work : batch.length = 1 ∨ batchWork batch ≤ policy.maxBatchWork

def WorkerPc.Sane (policy : Policy) : WorkerPc → Prop
  | .batching batch => WithinLimits policy batch
  | .emitting batch rest => WithinLimits policy batch ∧ rest <:+ batch
  | _ => True

structure Books (cfg : Config) (s : State) : Prop where
  accounted : ∀ leaf, s.submitted.count leaf = (s.heap.map Item.leaf).count leaf +
    (s.workers.flatMap WorkerPc.held).count leaf + (s.emitted.map Prod.snd).count leaf
  filed : ∀ leaf, (s.emitted.map Prod.snd).count leaf = s.batches.flatten.count leaf +
    (s.workers.flatMap WorkerPc.done).count leaf
  drained : s.drainedLeaves = s.batches.flatten.length
  sane : ∀ pc ∈ s.workers, pc.Sane cfg.policy
  items : ∀ item ∈ s.heap, item.points = item.leaf.length
  batches : ∀ batch ∈ s.batches, WithinLimits cfg.policy batch
  exits : WorkerPc.exited ∈ s.workers → s.closed = true ∧ s.heap = []

section

variable {cfg : Config} {s t : State} {j : Nat} {pc pc' : WorkerPc} {leaf : Leaf}

theorem flatMap_replicate_top {f : WorkerPc → List Leaf} (h : f .top = []) (n : Nat) :
    (List.replicate n WorkerPc.top).flatMap f = [] := by
  rw [List.flatMap_eq_nil_iff]
  intro pc hpc
  rw [List.eq_of_mem_replicate hpc]
  exact h

theorem initial_books : Books cfg (initial cfg) where
  accounted leaf := by simp [initial, flatMap_replicate_top (f := WorkerPc.held) rfl]
  filed leaf := by simp [initial, flatMap_replicate_top (f := WorkerPc.done) rfl]
  drained := rfl
  sane pc hpc := by
    rw [List.eq_of_mem_replicate hpc]
    trivial
  items item hitem := absurd hitem List.not_mem_nil
  batches batch hbatch := absurd hbatch List.not_mem_nil
  exits hexit := by
    have := List.eq_of_mem_replicate hexit
    cases this

/-- What the workers hold in all, in one sense or another, when one of them moves. -/
theorem count_set (f : WorkerPc → List Leaf) (h : s.workers[j]? = some pc) (pc' : WorkerPc)
    (leaf : Leaf) : ((s.workers.set j pc').flatMap f).count leaf + (f pc).count leaf =
      (s.workers.flatMap f).count leaf + (f pc').count leaf := by
  have hperm : (_ ++ f pc).Perm (_ ++ f pc') := Pool.flatMap_set_perm f h
  have hcount := hperm.count_eq leaf
  rwa [List.count_append, List.count_append] at hcount

theorem Books.sane_set (h : Books cfg s) (hpc : pc'.Sane cfg.policy) :
    ∀ pc ∈ s.workers.set j pc', pc.Sane cfg.policy := by
  intro pc hmem
  rcases List.mem_or_eq_of_mem_set hmem with hmem | rfl
  · exact h.sane pc hmem
  · exact hpc

theorem exited_of_set (hne : pc' ≠ .exited) (h : WorkerPc.exited ∈ s.workers.set j pc') :
    WorkerPc.exited ∈ s.workers := by
  rcases List.mem_or_eq_of_mem_set h with h | h
  · exact h
  · exact absurd h.symm hne

/-- Submitting threads have nothing to do with the books. -/
theorem Books.of_eq (h : Books cfg s) (hheap : t.heap = s.heap) (hworkers : t.workers = s.workers)
    (hclosed : t.closed = s.closed) (hdrained : t.drainedLeaves = s.drainedLeaves)
    (hsubmitted : t.submitted = s.submitted) (hemitted : t.emitted = s.emitted)
    (hbatches : t.batches = s.batches) : Books cfg t where
  accounted := by
    rw [hsubmitted, hheap, hworkers, hemitted]
    exact h.accounted
  filed := by
    rw [hemitted, hbatches, hworkers]
    exact h.filed
  drained := by
    rw [hdrained, hbatches]
    exact h.drained
  sane := hworkers ▸ h.sane
  items := hheap ▸ h.items
  batches := hbatches ▸ h.batches
  exits := by
    rw [hworkers, hclosed, hheap]
    exact h.exits

theorem Books.setSubmitter (h : Books cfg s) (i : Nat) (submitter : Submitter) :
    Books cfg (s.setSubmitter i submitter) :=
  h.of_eq rfl rfl rfl rfl rfl rfl rfl

/-- A worker that goes on with the leaves it holds. -/
theorem Books.setWorker (h : Books cfg s) (hj : s.workers[j]? = some pc)
    (hheld : pc'.held = pc.held) (hdone : pc'.done = pc.done)
    (hsane : pc'.Sane cfg.policy) (hne : pc' ≠ .exited) : Books cfg (s.setWorker j pc') where
  accounted leaf := by
    have hcount := count_set WorkerPc.held hj pc' leaf
    have haccounted := h.accounted leaf
    rw [hheld] at hcount
    simp only [State.setWorker]
    omega
  filed leaf := by
    have hcount := count_set WorkerPc.done hj pc' leaf
    have hfiled := h.filed leaf
    rw [hdone] at hcount
    simp only [State.setWorker]
    omega
  drained := h.drained
  sane := h.sane_set hsane
  items := h.items
  batches := h.batches
  exits hexit := h.exits (exited_of_set hne hexit)

theorem Books.notifyOne (h : Books cfg s) {notified : Option Waiter}
    (hs : s.notifyOne notified = some t) : Books cfg t := by
  match notified with
  | none =>
      simp only [State.notifyOne] at hs
      split_ifs at hs
      cases hs
      exact h
  | some (.submitter i) =>
      simp only [State.notifyOne] at hs
      split at hs
      · split_ifs at hs
        cases hs
        exact h.setSubmitter _ _
      · cases hs
  | some (.worker j) =>
      simp only [State.notifyOne] at hs
      split_ifs at hs with hj
      cases hs
      exact h.setWorker hj rfl rfl trivial (by simp)

theorem Books.push (h : Books cfg s) (hopen : s.closed = false) (leaf : Leaf) :
    Books cfg (s.push leaf) where
  accounted l := by
    have haccounted := h.accounted l
    have hperm := (List.perm_orderedInsert Item.before ⟨leaf.length, s.nextSeq, leaf⟩
      s.heap).map Item.leaf
    have hcount := hperm.count_eq l
    simp only [List.map_cons, List.count_cons] at hcount
    simp only [State.push, List.count_append, List.count_singleton]
    omega
  filed := h.filed
  drained := h.drained
  sane := h.sane
  items item hitem := by
    rcases (List.mem_orderedInsert ..).mp hitem with rfl | hitem
    · rfl
    · exact h.items item hitem
  batches := h.batches
  exits hexit := by
    have hclosed := (h.exits hexit).1
    rw [hopen] at hclosed
    cases hclosed

/-- A leaf moves from the heap to the batch of a worker that is still to run. -/
theorem Books.take (h : Books cfg s) {item : Item} {heap : List Item} (hheap : s.heap = item :: heap)
    (hj : s.workers[j]? = some pc) (hdone : pc.done = [])
    (hsane : (WorkerPc.batching (pc.held ++ [item.leaf])).Sane cfg.policy) :
    Books cfg ({ s with heap }.setWorker j (.batching (pc.held ++ [item.leaf]))) where
  accounted leaf := by
    have hcount := count_set WorkerPc.held hj (.batching (pc.held ++ [item.leaf])) leaf
    have haccounted := h.accounted leaf
    rw [hheap, List.map_cons, List.count_cons] at haccounted
    rw [held_batching, List.count_append, List.count_singleton] at hcount
    simp only [State.setWorker]
    omega
  filed leaf := by
    have hcount := count_set WorkerPc.done hj (.batching (pc.held ++ [item.leaf])) leaf
    have hfiled := h.filed leaf
    rw [hdone] at hcount
    simp only [State.setWorker]
    exact hfiled.trans (by rw [Nat.add_right_cancel hcount])
  drained := h.drained
  sane := h.sane_set hsane
  items i hi := h.items i (by rw [hheap]; exact List.mem_cons_of_mem _ hi)
  batches := h.batches
  exits hexit := by
    have hempty := (h.exits (exited_of_set (by simp) hexit)).2
    rw [hheap] at hempty
    cases hempty

/-! ## What a step keeps -/

theorem Books.lockSubmit (h : Books cfg s) {i : Nat} {submitter : Submitter}
    {notified : Option Waiter} (hs : s.lockSubmit cfg i submitter leaf notified = some t) :
    Books cfg t := by
  simp only [State.lockSubmit] at hs
  split_ifs at hs with hclosed hnone hroom hnone
  · cases hs
    exact h.setSubmitter _ _
  · rw [Bool.not_eq_true] at hclosed
    exact ((h.push hclosed leaf).setSubmitter _ _).notifyOne hs
  · cases hs
    exact h.setSubmitter _ _

theorem Books.lockPop (h : Books cfg s) {notified : Option Waiter}
    (hj : s.workers[j]? = some .popping) (hs : s.lockPop j notified = some t) : Books cfg t := by
  simp only [State.lockPop] at hs
  split at hs
  · rename_i item heap hheap
    refine (h.take hheap hj rfl ?_).notifyOne hs
    exact ⟨by simp, Nat.le_max_left .., .inl rfl, .inl rfl⟩
  · rename_i hheap
    split_ifs at hs with hnone hclosed
    · cases hs
      refine ⟨?_, ?_, h.drained, h.sane_set trivial, h.items, h.batches,
        fun _ => ⟨hclosed, hheap⟩⟩
      · intro leaf
        have hcount := count_set WorkerPc.held hj .exited leaf
        have haccounted := h.accounted leaf
        simp only [WorkerPc.held, List.count_nil, Nat.add_zero] at hcount
        simp only [State.setWorker]
        omega
      · intro leaf
        have hcount := count_set WorkerPc.done hj .exited leaf
        have hfiled := h.filed leaf
        simp only [WorkerPc.done, List.count_nil, Nat.add_zero] at hcount
        simp only [State.setWorker]
        omega
    · cases hs
      exact h.setWorker hj rfl rfl trivial (by simp)

theorem batchPoints_concat (batch : List Leaf) (leaf : Leaf) :
    batchPoints (batch ++ [leaf]) = batchPoints batch + leaf.length := by
  simp [batchPoints]

theorem batchWork_concat (batch : List Leaf) (leaf : Leaf) :
    batchWork (batch ++ [leaf]) = batchWork batch + leafMorselQuadraticWork leaf.length := by
  simp [batchWork]

theorem Books.lockTryPop (h : Books cfg s) {batch : List Leaf} {notified : Option Waiter}
    (hj : s.workers[j]? = some (.batching batch))
    (hs : s.lockTryPop cfg.policy j batch notified = some t) : Books cfg t := by
  have hbatch : WithinLimits cfg.policy batch := h.sane _ (List.mem_of_getElem? hj)
  have hgoOn : Books cfg (s.setWorker j (.emitting batch batch)) :=
    h.setWorker hj rfl (by simp [WorkerPc.done]) ⟨hbatch, List.suffix_rfl⟩ (by simp)
  simp only [State.lockTryPop] at hs
  split at hs
  · rename_i item heap hheap
    split_ifs at hs with hfits hnone
    · obtain ⟨hleaves, -, hpoints, hwork⟩ := hfits
      have hitem := h.items item (by rw [hheap]; exact List.mem_cons_self)
      rw [hitem] at hpoints hwork
      refine (h.take hheap hj rfl ⟨by simp, ?_, .inr ?_, .inr ?_⟩).notifyOne hs
      · simp only [WorkerPc.held, List.length_append, List.length_singleton]
        omega
      · rwa [WorkerPc.held, batchPoints_concat]
      · rwa [WorkerPc.held, batchWork_concat]
    · cases hs
      exact hgoOn
  · split_ifs at hs
    cases hs
    exact hgoOn

theorem Books.emitNext (h : Books cfg s) {batch rest : List Leaf}
    (hj : s.workers[j]? = some (.emitting batch rest)) : Books cfg (s.emitNext cfg j batch rest) := by
  obtain ⟨hbatch, before, hsplit⟩ : (WorkerPc.emitting batch rest).Sane cfg.policy :=
    h.sane _ (List.mem_of_getElem? hj)
  cases rest with
  | nil =>
      rw [List.append_nil] at hsplit
      subst hsplit
      simp only [State.emitNext]
      refine ⟨?_, ?_, ?_, h.sane_set trivial, h.items, ?_, fun hexit =>
        h.exits (exited_of_set (by simp) hexit)⟩
      · intro leaf
        have hcount := count_set WorkerPc.held hj .top leaf
        have haccounted := h.accounted leaf
        simp only [WorkerPc.held, List.count_nil, Nat.add_zero] at hcount
        simp only [State.setWorker]
        omega
      · intro leaf
        have hcount := count_set WorkerPc.done hj .top leaf
        have hfiled := h.filed leaf
        simp only [WorkerPc.done, List.length_nil, Nat.sub_zero, List.take_length, List.count_nil,
          Nat.add_zero] at hcount
        simp only [State.setWorker, List.flatten_append, List.flatten_singleton,
          List.count_append]
        omega
      · simp only [State.setWorker, List.flatten_append, List.flatten_singleton,
          List.length_append, h.drained]
      · intro b hb
        rcases List.mem_append.mp hb with hb | hb
        · exact h.batches b hb
        · rwa [List.mem_singleton.mp hb]
  | cons leaf rest =>
      simp only [State.emitNext]
      cases hfails : cfg.fails leaf with
      | some err => exact h.setWorker hj rfl rfl trivial (by simp)
      | none =>
          have hrest : rest <:+ batch := ⟨before ++ [leaf], by rw [← hsplit]; simp⟩
          have hbefore : (WorkerPc.emitting batch (leaf :: rest)).done = before :=
            hsplit ▸ done_emitting before (leaf :: rest)
          have hafter : (WorkerPc.emitting batch rest).done = before ++ [leaf] := by
            rw [← hsplit, List.append_cons]
            exact done_emitting (before ++ [leaf]) rest
          refine ⟨?_, ?_, h.drained, h.sane_set ⟨hbatch, hrest⟩, h.items, h.batches,
            fun hexit => h.exits (exited_of_set (by simp) hexit)⟩
          · intro l
            have hcount := count_set WorkerPc.held hj (.emitting batch rest) l
            have haccounted := h.accounted l
            simp only [WorkerPc.held, List.count_cons] at hcount
            simp only [State.setWorker, List.map_append, List.count_append, List.map_cons,
              List.map_nil, List.count_singleton]
            omega
          · intro l
            have hcount := count_set WorkerPc.done hj (.emitting batch rest) l
            have hfiled := h.filed l
            rw [hbefore, hafter, List.count_append] at hcount
            simp only [State.setWorker, List.map_append, List.count_append, List.map_cons,
              List.map_nil]
            omega

theorem held_awake (pc : WorkerPc) : pc.awake.held = pc.held := by cases pc <;> rfl

theorem done_awake (pc : WorkerPc) : pc.awake.done = pc.done := by cases pc <;> rfl

/-- Closing wakes everyone, and changes no worker's leaves. -/
theorem Books.close (h : Books cfg s) : Books cfg { s.notifyAll with closed := true } where
  accounted leaf := by
    have hheld : (s.workers.map WorkerPc.awake).flatMap WorkerPc.held =
        s.workers.flatMap WorkerPc.held := by
      rw [List.flatMap_map]
      exact List.flatMap_congr fun pc _ => held_awake pc
    simp only [State.notifyAll, hheld]
    exact h.accounted leaf
  filed leaf := by
    have hdone : (s.workers.map WorkerPc.awake).flatMap WorkerPc.done =
        s.workers.flatMap WorkerPc.done := by
      rw [List.flatMap_map]
      exact List.flatMap_congr fun pc _ => done_awake pc
    simp only [State.notifyAll, hdone]
    exact h.filed leaf
  drained := h.drained
  sane pc hpc := by
    obtain ⟨pc', hpc', rfl⟩ := List.mem_map.mp hpc
    have hsane := h.sane pc' hpc'
    cases pc' <;> exact hsane
  items := h.items
  batches := h.batches
  exits hexit := by
    obtain ⟨pc', hpc', hawake⟩ := List.mem_map.mp hexit
    cases pc' with
    | exited => exact ⟨rfl, (h.exits hpc').2⟩
    | top | popping | sleeping | batching | emitting | failed => cases hawake

theorem Books.step (h : Books cfg s) {a : Action} (hs : step cfg s a = some t) : Books cfg t := by
  cases a with
  | call i =>
      simp only [Morsel.step] at hs
      split at hs
      · split_ifs at hs
        cases hs
        exact h.setSubmitter _ _
      · cases hs
  | check i =>
      simp only [Morsel.step] at hs
      split at hs
      · split at hs
        · cases hs
          exact h.setSubmitter _ _
        · cases hs
          exact h.setSubmitter _ _
      · cases hs
  | lock i notified =>
      simp only [Morsel.step] at hs
      split at hs
      · exact h.lockSubmit hs
      · cases hs
  | timeout i =>
      simp only [Morsel.step] at hs
      split at hs
      · cases hs
        exact h.setSubmitter _ _
      · cases hs
  | loopTop j =>
      simp only [Morsel.step] at hs
      split at hs
      · rename_i hj
        split at hs
        · cases hs
          exact h.setWorker hj rfl rfl trivial (by simp)
        · cases hs
          exact h.setWorker hj rfl rfl trivial (by simp)
      · cases hs
  | pop j notified =>
      simp only [Morsel.step] at hs
      split at hs
      · rename_i hj
        exact h.lockPop hj hs
      · cases hs
  | tryPop j notified =>
      simp only [Morsel.step] at hs
      split at hs
      · rename_i batch hj
        exact h.lockTryPop hj hs
      · cases hs
  | emit j =>
      simp only [Morsel.step] at hs
      split at hs
      · rename_i batch rest hj
        cases hs
        exact h.emitNext hj
      · cases hs
  | close =>
      simp only [Morsel.step] at hs
      split_ifs at hs
      cases hs
      exact h.close
  | join =>
      simp only [Morsel.step] at hs
      split_ifs at hs
      cases hs
      exact h.of_eq rfl rfl rfl rfl rfl rfl rfl

theorem run_books {as : List Action} (hr : Run (Morsel.step cfg) (initial cfg) as s) : Books cfg s :=
  hr.invariant initial_books fun _ _ _ h hs => h.step hs

/-! ## The end of a run -/

/-- Threads move, but none comes or goes, and the run does not end. -/
structure Frame (s t : State) : Prop where
  submitters : t.submitters.length = s.submitters.length
  workers : t.workers.length = s.workers.length
  finished : t.finished = s.finished

theorem Frame.refl (s : State) : Frame s s := ⟨rfl, rfl, rfl⟩

theorem Frame.trans {u : State} (h : Frame s t) (h' : Frame t u) : Frame s u :=
  ⟨h'.submitters.trans h.submitters, h'.workers.trans h.workers, h'.finished.trans h.finished⟩

theorem frame_setSubmitter (s : State) (i : Nat) (submitter : Submitter) :
    Frame s (s.setSubmitter i submitter) := ⟨List.length_set, rfl, rfl⟩

theorem frame_setWorker (s : State) (j : Nat) (pc : WorkerPc) : Frame s (s.setWorker j pc) :=
  ⟨rfl, List.length_set, rfl⟩

theorem frame_notifyOne {notified : Option Waiter} (hs : s.notifyOne notified = some t) :
    Frame s t := by
  match notified with
  | none =>
      simp only [State.notifyOne] at hs
      split_ifs at hs
      cases hs
      exact Frame.refl _
  | some (.submitter i) =>
      simp only [State.notifyOne] at hs
      split at hs
      · split_ifs at hs
        cases hs
        exact frame_setSubmitter ..
      · cases hs
  | some (.worker j) =>
      simp only [State.notifyOne] at hs
      split_ifs at hs
      cases hs
      exact frame_setWorker ..

theorem frame_lockSubmit {i : Nat} {submitter : Submitter} {leaf : Leaf} {notified : Option Waiter}
    (hs : s.lockSubmit cfg i submitter leaf notified = some t) : Frame s t := by
  simp only [State.lockSubmit] at hs
  split_ifs at hs
  · cases hs
    exact frame_setSubmitter ..
  · have hpush : Frame s (s.push leaf) := ⟨rfl, rfl, rfl⟩
    exact (hpush.trans (frame_setSubmitter ..)).trans (frame_notifyOne hs)
  · cases hs
    exact frame_setSubmitter ..

theorem frame_lockPop {notified : Option Waiter} (hs : s.lockPop j notified = some t) :
    Frame s t := by
  simp only [State.lockPop] at hs
  split at hs
  · rename_i item heap _
    have hpop : Frame s { s with heap } := ⟨rfl, rfl, rfl⟩
    exact (hpop.trans (frame_setWorker ..)).trans (frame_notifyOne hs)
  · split_ifs at hs <;> cases hs <;> exact frame_setWorker ..

theorem frame_lockTryPop {policy : Policy} {batch : List Leaf} {notified : Option Waiter}
    (hs : s.lockTryPop policy j batch notified = some t) : Frame s t := by
  simp only [State.lockTryPop] at hs
  split at hs
  · rename_i item heap _
    have hpop : Frame s { s with heap } := ⟨rfl, rfl, rfl⟩
    split_ifs at hs
    · exact (hpop.trans (frame_setWorker ..)).trans (frame_notifyOne hs)
    · cases hs
      exact frame_setWorker ..
  · split_ifs at hs
    cases hs
    exact frame_setWorker ..

theorem frame_emitNext (cfg : Config) (s : State) (j : Nat) (batch rest : List Leaf) :
    Frame s (s.emitNext cfg j batch rest) := by
  cases rest with
  | nil => exact ⟨rfl, List.length_set, rfl⟩
  | cons leaf rest =>
      simp only [State.emitNext]
      split <;> exact ⟨rfl, List.length_set, rfl⟩

/-- Only joining the workers ends the run. -/
theorem frame_step {a : Action} (hs : step cfg s a = some t) :
    Frame s t ∨ s.closed = true ∧ s.finished = none ∧ (∀ pc ∈ s.workers, State.ended pc) ∧
      t = s.finish := by
  cases a with
  | call i =>
      simp only [Morsel.step] at hs
      split at hs
      · split_ifs at hs
        cases hs
        exact Or.inl (frame_setSubmitter ..)
      · cases hs
  | check i =>
      simp only [Morsel.step] at hs
      split at hs
      · split at hs <;> cases hs <;> exact Or.inl (frame_setSubmitter ..)
      · cases hs
  | lock i notified =>
      simp only [Morsel.step] at hs
      split at hs
      · exact Or.inl (frame_lockSubmit hs)
      · cases hs
  | timeout i =>
      simp only [Morsel.step] at hs
      split at hs
      · cases hs
        exact Or.inl (frame_setSubmitter ..)
      · cases hs
  | loopTop j =>
      simp only [Morsel.step] at hs
      split at hs
      · split at hs <;> cases hs <;> exact Or.inl (frame_setWorker ..)
      · cases hs
  | pop j notified =>
      simp only [Morsel.step] at hs
      split at hs
      · exact Or.inl (frame_lockPop hs)
      · cases hs
  | tryPop j notified =>
      simp only [Morsel.step] at hs
      split at hs
      · exact Or.inl (frame_lockTryPop hs)
      · cases hs
  | emit j =>
      simp only [Morsel.step] at hs
      split at hs
      · cases hs
        exact Or.inl (frame_emitNext ..)
      · cases hs
  | close =>
      simp only [Morsel.step] at hs
      split_ifs at hs
      cases hs
      exact Or.inl ⟨List.length_map _, List.length_map _, rfl⟩
  | join =>
      simp only [Morsel.step] at hs
      split_ifs at hs with hready
      cases hs
      exact Or.inr ⟨hready.1, hready.2.1, hready.2.2, rfl⟩

/-- No worker comes or goes. -/
theorem workers_length_step {a : Action} (hs : step cfg s a = some t) :
    t.workers.length = s.workers.length := by
  rcases frame_step hs with h | ⟨-, -, -, rfl⟩
  · exact h.workers
  · rfl

/-- A run that ended well: the queue is closed, and every worker has left it. -/
structure EndedWell (s : State) (stats : Stats) : Prop where
  closed : s.closed = true
  workers : ∀ pc ∈ s.workers, pc = .exited
  drained : stats.drainedLeaves = s.drainedLeaves

theorem foldl_recordError_eq_none {workers : List WorkerPc} {error : Option AnnError}
    (h : workers.foldl State.recordError error = none) :
    error = none ∧ ∀ pc ∈ workers, ∀ err batch rest, pc ≠ .failed err batch rest := by
  induction workers generalizing error with
  | nil => exact ⟨h, fun pc hpc => absurd hpc List.not_mem_nil⟩
  | cons first workers ih =>
      obtain ⟨hfirst, hrest⟩ := ih h
      cases first with
      | failed err batch rest =>
          simp only [State.recordError, Option.or_eq_none_iff] at hfirst
          cases hfirst.2
      | top | popping | sleeping | batching | emitting | exited =>
          refine ⟨hfirst, fun pc hpc => ?_⟩
          rcases List.mem_cons.mp hpc with rfl | hpc
          · exact fun _ _ _ h => nomatch h
          · exact hrest pc hpc

/-- Joining the workers succeeds only when they have all left with success. -/
theorem finish_endedWell {stats : Stats} (hclosed : s.closed = true)
    (hended : ∀ pc ∈ s.workers, State.ended pc) (h : s.finish.finished = some (.ok stats)) :
    EndedWell s.finish stats := by
  simp only [State.finish, State.checkError, Option.some.injEq] at h
  cases herror : s.workers.foldl State.recordError s.error with
  | some err =>
      rw [herror] at h
      cases h
  | none =>
      rw [herror] at h
      cases h
      refine ⟨hclosed, fun pc hpc => ?_, rfl⟩
      have hsucceeded := (foldl_recordError_eq_none herror).2 pc hpc
      have hdone := hended pc hpc
      cases pc with
      | exited => rfl
      | failed err batch rest => exact absurd rfl (hsucceeded err batch rest)
      | top | popping | sleeping | batching | emitting => cases hdone

/-- Once a run has ended well, all that is left is for submitters to return. -/
theorem EndedWell.step {stats : Stats} (h : EndedWell s stats) (hfinished : s.finished ≠ none)
    {a : Action} (hs : step cfg s a = some t) : EndedWell t stats := by
  have hworker : ∀ {j : Nat} {pc : WorkerPc}, s.workers[j]? = some pc → pc = .exited :=
    fun hj => h.workers _ (List.mem_of_getElem? hj)
  have hsubmitter : ∀ i submitter, EndedWell (s.setSubmitter i submitter) stats :=
    fun _ _ => ⟨h.closed, h.workers, h.drained⟩
  cases a with
  | call i =>
      simp only [Morsel.step, h.closed] at hs
      split at hs <;> cases hs
  | check i =>
      simp only [Morsel.step] at hs
      split at hs
      · split at hs <;> cases hs <;> exact hsubmitter ..
      · cases hs
  | lock i notified =>
      simp only [Morsel.step, State.lockSubmit, h.closed, if_true] at hs
      split at hs
      · split_ifs at hs
        cases hs
        exact hsubmitter ..
      · cases hs
  | timeout i =>
      simp only [Morsel.step] at hs
      split at hs
      · cases hs
        exact hsubmitter ..
      · cases hs
  | loopTop j | pop j notified | tryPop j notified | emit j =>
      simp only [Morsel.step] at hs
      split at hs
      · rename_i hj
        cases hworker hj
      · cases hs
  | close =>
      simp only [Morsel.step, h.closed, true_or, if_true] at hs
      cases hs
  | join =>
      simp only [Morsel.step, hfinished, false_and, and_false, if_false] at hs
      cases hs

/-- What is known when the workers were joined with success. -/
def Settled (s : State) : Prop := ∀ stats, s.finished = some (.ok stats) → EndedWell s stats

theorem Settled.step (h : Settled s) {a : Action} (hs : step cfg s a = some t) : Settled t := by
  intro stats hfinished
  rcases frame_step hs with hframe | ⟨hclosed, -, hended, rfl⟩
  · have hbefore : s.finished = some (.ok stats) := hframe.finished ▸ hfinished
    exact (h stats hbefore).step (by simp [hbefore]) hs
  · exact finish_endedWell hclosed hended hfinished

theorem run_settled {as : List Action} (hr : Run (Morsel.step cfg) (initial cfg) as s) :
    Settled s :=
  hr.invariant (fun _ h => nomatch h) fun _ _ _ h hs => h.step hs

theorem run_workers_length {as : List Action} (hr : Run (Morsel.step cfg) (initial cfg) as s) :
    s.workers.length = cfg.policy.workers :=
  hr.invariant List.length_replicate fun _ _ _ h hs => (workers_length_step hs).trans h

theorem EndedWell.flatMap_eq_nil {stats : Stats} (h : EndedWell s stats)
    {f : WorkerPc → List Leaf} (hf : f .exited = []) : s.workers.flatMap f = [] := by
  rw [List.flatMap_eq_nil_iff]
  intro pc hpc
  rw [h.workers pc hpc]
  exact hf

/-- When all workers have left with success, none holds a leaf, and the heap is empty. -/
theorem EndedWell.heap_eq_nil {stats : Stats} (h : EndedWell s stats) (hbooks : Books cfg s)
    (hworkers : s.workers.length = cfg.policy.workers) : s.heap = [] := by
  have hpos : 0 < s.workers.length := hworkers ▸ cfg.policy.workers_pos
  obtain ⟨pc, hpc⟩ := List.exists_mem_of_length_pos hpos
  exact (hbooks.exits (h.workers pc hpc ▸ hpc)).2

theorem EndedWell.emitted_perm {stats : Stats} (h : EndedWell s stats) (hbooks : Books cfg s)
    (hheap : s.heap = []) : (s.emitted.map Prod.snd).Perm s.submitted := by
  rw [List.perm_iff_count]
  intro leaf
  have hleaf := hbooks.accounted leaf
  rw [hheap, h.flatMap_eq_nil rfl, List.map_nil, List.count_nil, Nat.zero_add] at hleaf
  exact hleaf.symm

theorem EndedWell.batches_perm {stats : Stats} (h : EndedWell s stats) (hbooks : Books cfg s) :
    (s.emitted.map Prod.snd).Perm s.batches.flatten := by
  rw [List.perm_iff_count]
  intro leaf
  rw [hbooks.filed leaf, h.flatMap_eq_nil rfl, List.count_nil, Nat.add_zero]

/-- Whichever the submissions, the workers and the interleaving: when the workers have been joined
with success, the leaves emitted are those submitted, each as often as it was submitted, and they
were emitted in batches within the limits. -/
theorem morsels_exactlyOnce {as : List Action} {stats : Stats}
    (hr : Run (Morsel.step cfg) (initial cfg) as s) (hfinished : s.finished = some (.ok stats)) :
    (s.emitted.map Prod.snd).Perm s.submitted ∧ stats.drainedLeaves = s.submitted.length ∧
      (s.emitted.map Prod.snd).Perm s.batches.flatten ∧
      ∀ batch ∈ s.batches, WithinLimits cfg.policy batch := by
  have hbooks := run_books hr
  have hended := run_settled hr stats hfinished
  have hemitted := hended.emitted_perm hbooks (hended.heap_eq_nil hbooks (run_workers_length hr))
  have hbatches := hended.batches_perm hbooks
  refine ⟨hemitted, ?_, hbatches, hbooks.batches⟩
  calc stats.drainedLeaves = s.batches.flatten.length := hended.drained.trans hbooks.drained
    _ = (s.emitted.map Prod.snd).length := hbatches.length_eq.symm
    _ = s.submitted.length := hemitted.length_eq

/-! ## A run of two workers -/

def twoWorkers : Config where
  policy := ⟨2, 1, 8, 100, 1000, by decide⟩
  submissions := [[[1, 2]], [[3]]]
  fails _ := none

/-- The second submitter finds the queue full, and the worker that makes room wakes it. -/
def twoWorkersRun : List Action :=
  [.call 0, .check 0, .lock 0 none, .call 1, .check 1, .lock 1 none, .loopTop 0,
    .pop 0 (some (.submitter 1)), .check 1, .loopTop 1, .pop 1 none, .lock 1 (some (.worker 1)),
    .tryPop 0 none, .tryPop 0 none, .pop 1 none, .emit 0, .emit 0, .emit 0, .close, .loopTop 0,
    .pop 0 none, .pop 1 none, .join]

theorem morsels_exactlyOnce_two :
    ∃ s, Run (Morsel.step twoWorkers) (initial twoWorkers) twoWorkersRun s ∧
      (s.emitted.map Prod.snd).Perm s.submitted ∧ s.submitted = [[1, 2], [3]] := by
  have hfollow : (follow (Morsel.step twoWorkers) (initial twoWorkers) twoWorkersRun).map
      (fun s => (s.finished, s.submitted)) = some (some (.ok ⟨2, 1⟩), [[1, 2], [3]]) := by
    decide +kernel
  obtain ⟨s, hr, hs⟩ := exists_run_of_follow hfollow
  rw [Prod.mk.injEq] at hs
  exact ⟨s, hr, (morsels_exactlyOnce hr hs.1).1, hs.2⟩

end

end Morsel

end ForgeANN
