-- SUMMARY: However the threads of the level scan interleave, it leaves what scanning batch after batch leaves.
import ForgeANN.Rbc.LevelScanPipeline

/-!
# Runs of the level scan

Whatever is under way for a batch is what reading and computing its plan gives,
and the outputs are applied by the index of their batch. So the pipeline, when
it succeeds, has done what the plain loop over the batches does.
-/
namespace ForgeANN

open Lib

namespace ScanPipeline

variable {Row : Type} {cfg : Config Row} {planned : List D1LevelScanBatchPlan}

/-! ## What is under way -/

def Genuine (planned : List D1LevelScanBatchPlan) (item : PlanItem) : Prop :=
  planned[item.1]? = some item.2

def Loaded (cfg : Config Row) (planned : List D1LevelScanBatchPlan) (item : LoadedItem Row) : Prop :=
  planned[item.1]? = some item.2.1 ∧
    cfg.scan.readPoints (item.2.1.map Prod.fst) = .ok item.2.2

def Computed (cfg : Config Row) (planned : List D1LevelScanBatchPlan) (item : ComputedItem) : Prop :=
  ∃ plan, planned[item.1]? = some plan ∧ cfg.scan.processPlan plan = .ok item.2

def ReaderPc.Tracks (cfg : Config Row) (planned : List D1LevelScanBatchPlan) : ReaderPc Row → Prop
  | .reading item => Genuine planned item
  | .sending loaded => ∀ item, loaded = .ok item → Loaded cfg planned item
  | _ => True

def WorkerPc.Tracks (cfg : Config Row) (planned : List D1LevelScanBatchPlan) : WorkerPc Row → Prop
  | .computing loaded => Loaded cfg planned loaded
  | .sending computed => ∀ item, computed = .ok item → Computed cfg planned item
  | _ => True

/-- The channels, the threads and the results are about the batches planned so far. -/
structure Tracks (cfg : Config Row) (s : State Row) (planned : List D1LevelScanBatchPlan) :
    Prop where
  plans : PlansTo cfg.scan.points cfg.scan.batchPoints (startHeap cfg.scan.points) planned s.heap
  nextBatchIdx : s.nextBatchIdx = planned.length
  pendingPlan : ∀ item ∈ s.pendingPlan, Genuine planned item
  planQueue : ∀ item ∈ s.planQueue, Genuine planned item
  reader : s.reader.Tracks cfg planned
  loadedQueue : ∀ item, .ok item ∈ s.loadedQueue → Loaded cfg planned item
  workers : ∀ pc ∈ s.workers, pc.Tracks cfg planned
  computedQueue : ∀ item, .ok item ∈ s.computedQueue → Computed cfg planned item
  pendingApply : ∀ item ∈ s.pendingApply, Computed cfg planned item
  nextApply : s.nextApplyBatchIdx = s.appliedBatches
  applied : cfg.scan.sequentialScan (planned.take s.appliedBatches) = .ok s.result
  appliedLe : s.appliedBatches ≤ planned.length

/-- What the main thread knows of the batches: once the planner is exhausted, all are sent. -/
structure Counted (s : State Row) (planned : List D1LevelScanBatchPlan) : Prop where
  sent : s.sentBatches + s.pendingPlan.toList.length = planned.length
  closed : s.senderOpen = false → s.heap = [] ∧ s.pendingPlan = none
  exhausted : s.main = .receiving true → s.senderOpen = false
  finished : s.main = .finished (.ok ()) → s.senderOpen = false ∧ s.appliedBatches = s.sentBatches

section

variable {s t : State Row} {plan : D1LevelScanBatchPlan}

theorem getElem?_snoc {k : Nat} {old : D1LevelScanBatchPlan} (h : planned[k]? = some old) :
    (planned ++ [plan])[k]? = some old := by
  rwa [List.getElem?_append_left (List.getElem?_eq_some_iff.mp h).1]

theorem Loaded.snoc {item : LoadedItem Row} (h : Loaded cfg planned item) :
    Loaded cfg (planned ++ [plan]) item := ⟨getElem?_snoc h.1, h.2⟩

theorem Computed.snoc {item : ComputedItem} (h : Computed cfg planned item) :
    Computed cfg (planned ++ [plan]) item := by
  obtain ⟨old, hold, hprocess⟩ := h
  exact ⟨old, getElem?_snoc hold, hprocess⟩

theorem ReaderPc.Tracks.snoc {pc : ReaderPc Row} (h : pc.Tracks cfg planned) :
    pc.Tracks cfg (planned ++ [plan]) := by
  cases pc with
  | reading item => exact getElem?_snoc h
  | sending loaded => exact fun item hitem => (h item hitem).snoc
  | receiving | stopped => trivial

theorem WorkerPc.Tracks.snoc {pc : WorkerPc Row} (h : pc.Tracks cfg planned) :
    pc.Tracks cfg (planned ++ [plan]) := by
  cases pc with
  | computing loaded => exact Loaded.snoc h
  | sending computed => exact fun item hitem => (h item hitem).snoc
  | receiving | stopped => trivial

theorem Tracks.snoc {heap : D1LevelScanHeap} (h : Tracks cfg s planned)
    (hnext : nextD1LevelScanBatch cfg.scan.points cfg.scan.batchPoints s.heap = some (plan, heap)) :
    Tracks cfg { s with heap, nextBatchIdx := s.nextBatchIdx + 1 } (planned ++ [plan]) where
  plans := h.plans.snoc hnext
  nextBatchIdx := by
    rw [List.length_append, List.length_singleton]
    exact congrArg (· + 1) h.nextBatchIdx
  pendingPlan item hitem := getElem?_snoc (h.pendingPlan item hitem)
  planQueue item hitem := getElem?_snoc (h.planQueue item hitem)
  reader := h.reader.snoc
  loadedQueue item hitem := (h.loadedQueue item hitem).snoc
  workers pc hpc := (h.workers pc hpc).snoc
  computedQueue item hitem := (h.computedQueue item hitem).snoc
  pendingApply item hitem := (h.pendingApply item hitem).snoc
  nextApply := h.nextApply
  applied := by
    rw [List.take_append_of_le_length h.appliedLe]
    exact h.applied
  appliedLe := by
    rw [List.length_append]
    exact h.appliedLe.trans (Nat.le_add_right ..)

theorem initial_tracks (cfg : Config Row) : Tracks cfg (initial cfg) [] where
  plans := .nil _
  nextBatchIdx := rfl
  pendingPlan item h := nomatch h
  planQueue item h := nomatch h
  reader := trivial
  loadedQueue item h := nomatch h
  workers pc hpc := by
    rw [List.eq_of_mem_replicate hpc]
    trivial
  computedQueue item h := nomatch h
  pendingApply item h := nomatch h
  nextApply := rfl
  applied := rfl
  appliedLe := Nat.le_refl 0

theorem initial_counted (cfg : Config Row) : Counted (initial cfg) [] where
  sent := rfl
  closed h := nomatch h
  exhausted h := nomatch h
  finished h := nomatch h

/-! ## The main thread -/

theorem Tracks.setMain (h : Tracks cfg s planned) (main : MainPc) :
    Tracks cfg { s with main } planned := { h with }

/-- The next plan to send is one of the batches planned, perhaps a new one. -/
theorem Tracks.nextPlan {item : PlanItem} (h : Tracks cfg s planned) (hcounted : Counted s planned)
    (hnext : s.nextPlan cfg = some (item, t)) : ∃ planned', Tracks cfg t planned' ∧
      Genuine planned' item ∧ t.pendingPlan = none ∧ t.sentBatches + 1 = planned'.length ∧
      t.main = s.main ∧ t.senderOpen = s.senderOpen := by
  have hsent := hcounted.sent
  rw [State.nextPlan] at hnext
  cases hpending : s.pendingPlan with
  | some item' =>
      rw [hpending] at hnext hsent
      cases hnext
      exact ⟨planned, { h with pendingPlan := fun item hitem => nomatch hitem },
        h.pendingPlan item hpending, rfl, hsent, rfl, rfl⟩
  | none =>
      rw [hpending] at hnext hsent
      simp only at hnext
      split at hnext
      · rename_i plan heap hplan
        cases hnext
        refine ⟨planned ++ [plan], { h.snoc hplan with pendingPlan := fun item hitem => nomatch hitem },
          ?_, rfl, ?_, rfl, rfl⟩
        · rw [Genuine, h.nextBatchIdx, List.getElem?_concat_length]
        · rw [List.length_append, List.length_singleton]
          exact congrArg (· + 1) hsent
      · cases hnext

theorem nextPlan_eq_none (h : s.nextPlan cfg = none) : s.heap = [] ∧ s.pendingPlan = none := by
  rw [State.nextPlan] at h
  cases hpending : s.pendingPlan with
  | some item =>
      rw [hpending] at h
      cases h
  | none =>
      rw [hpending] at h
      simp only at h
      split at h
      · cases h
      · rename_i hplan
        rw [nextD1LevelScanBatch] at hplan
        split_ifs at hplan with hnil
        exact ⟨hnil, rfl⟩

/-- The pipeline has failed, or all it has under way is about the batches planned so far. -/
def Sound (cfg : Config Row) (s : State Row) : Prop :=
  (∃ err, s.main = .finished (.error err)) ∨ ∃ planned, Tracks cfg s planned ∧ Counted s planned

theorem fill_sound (h : Tracks cfg s planned) (hcounted : Counted s planned)
    (hfilling : s.main = .filling) : Sound cfg (s.fill cfg) := by
  rw [State.fill]
  split_ifs with hclosed hroom
  · have hclosed : s.senderOpen = false := by simpa using hclosed
    refine .inr ⟨planned, h.setMain _, hcounted.sent, hcounted.closed, fun _ => hclosed, ?_⟩
    exact fun hfinished => nomatch hfinished
  · split
    · rename_i hnone
      have hempty := nextPlan_eq_none hnone
      refine .inr ⟨planned, { h with }, hcounted.sent, fun _ => hempty, fun _ => rfl, ?_⟩
      exact fun hfinished => nomatch hfinished
    · rename_i item t hnext
      obtain ⟨planned', ht, hitem, hpending, hsent, hmain, hopen⟩ := h.nextPlan hcounted hnext
      have hsender : t.senderOpen ≠ false := by
        rw [hopen]
        simpa using hclosed
      split_ifs with hstopped hspace
      · exact .inl ⟨_, rfl⟩
      · refine .inr ⟨planned', { ht with planQueue := fun other hother => ?_ }, ?_, ?_, ?_, ?_⟩
        · rcases List.mem_append.mp hother with hother | hother
          · exact ht.planQueue other hother
          · rw [List.mem_singleton.mp hother]
            exact hitem
        · simp only [hpending, Option.toList_none, List.length_nil, Nat.add_zero]
          exact hsent
        · exact fun hfalse => absurd hfalse hsender
        · exact fun hreceiving => nomatch (hmain.trans hfilling).symm.trans hreceiving
        · exact fun hfinished => nomatch (hmain.trans hfilling).symm.trans hfinished
      · refine .inr ⟨planned', { ht with pendingPlan := fun other hother => ?_ }, hsent,
          fun hfalse => absurd hfalse hsender, ?_, ?_⟩
        · rw [Option.mem_some_iff] at hother
          exact hother ▸ hitem
        · exact fun hreceiving => nomatch hreceiving
        · exact fun hfinished => nomatch hfinished
  · refine .inr ⟨planned, h.setMain _, hcounted.sent, hcounted.closed, ?_, ?_⟩
    · exact fun hreceiving => nomatch hreceiving
    · exact fun hfinished => nomatch hfinished

theorem receive_sound {plannerExhausted : Bool} (h : Tracks cfg s planned)
    (hcounted : Counted s planned) (hreceiving : s.main = .receiving plannerExhausted)
    (hs : s.receive plannerExhausted = some t) : Sound cfg t := by
  rw [State.receive] at hs
  by_cases hdone : plannerExhausted ∧ s.appliedBatches = s.sentBatches
  · rw [if_pos hdone] at hs
    cases hs
    obtain ⟨hexhausted, happlied⟩ := hdone
    have hclosed : s.senderOpen = false := hcounted.exhausted (by rw [hreceiving, hexhausted])
    refine .inr ⟨planned, h.setMain _, hcounted.sent, hcounted.closed, ?_, fun _ => ⟨hclosed, happlied⟩⟩
    exact fun hreceiving => nomatch hreceiving
  · rw [if_neg hdone] at hs
    split at hs
    · rename_i batchIdx outputs computedQueue hqueue
      cases hs
      have hcomputed : Computed cfg planned (batchIdx, outputs) :=
        h.computedQueue _ (by rw [hqueue]; exact List.mem_cons_self)
      refine .inr ⟨planned, { h with
        computedQueue := fun item hitem => h.computedQueue item ?_
        pendingApply := fun item hitem => ?_ }, hcounted.sent, hcounted.closed, ?_, ?_⟩
      · rw [hqueue]
        exact List.mem_cons_of_mem _ hitem
      · rcases Pending.mem_put hitem with rfl | hitem
        · exact hcomputed
        · exact h.pendingApply item hitem
      · exact fun hreceiving => nomatch hreceiving
      · exact fun hfinished => nomatch hfinished
    · cases hs
      exact .inl ⟨_, rfl⟩
    · split_ifs at hs
      cases hs
      exact .inl ⟨_, rfl⟩

/-- What has been applied is what the plain loop has done after as many batches. -/
theorem drain_sound (h : Tracks cfg s planned) (hcounted : Counted s planned)
    (hdraining : s.main = .draining) : Sound cfg s.drain := by
  rw [State.drain]
  split
  · rename_i outputs pendingApply htake
    obtain ⟨hmem, hrest⟩ := Pending.take?_eq_some htake
    obtain ⟨plan, hplan, hprocess⟩ := h.pendingApply _ hmem
    simp only [h.nextApply] at hplan
    have hlt : s.appliedBatches < planned.length := (List.getElem?_eq_some_iff.mp hplan).1
    have happlied := h.applied
    refine .inr ⟨planned, { h with
      pendingApply := fun item hitem => h.pendingApply item (hrest item hitem)
      nextApply := congrArg (· + 1) h.nextApply
      applied := ?_
      appliedLe := hlt }, hcounted.sent, hcounted.closed, ?_, ?_⟩
    · rw [LevelScan.sequentialScan] at happlied ⊢
      rw [List.take_add_one, hplan, Option.toList_some, List.foldlM_append, happlied, ok_bind,
        List.foldlM_cons, hprocess]
      rfl
    · exact fun hreceiving => nomatch hdraining.symm.trans hreceiving
    · exact fun hfinished => nomatch hdraining.symm.trans hfinished
  · refine .inr ⟨planned, h.setMain _, hcounted.sent, hcounted.closed, ?_, ?_⟩
    · exact fun hreceiving => nomatch hreceiving
    · exact fun hfinished => nomatch hfinished

theorem mainStep_sound (h : Tracks cfg s planned) (hcounted : Counted s planned)
    (hs : mainStep cfg s = some t) : Sound cfg t := by
  rw [mainStep] at hs
  split at hs
  · rename_i hfilling
    cases hs
    exact fill_sound h hcounted hfilling
  · rename_i plannerExhausted hreceiving
    exact receive_sound h hcounted hreceiving hs
  · rename_i hdraining
    cases hs
    exact drain_sound h hcounted hdraining
  · cases hs

/-! ## The reader and the workers -/

theorem readBatch_loaded {item : PlanItem} {loaded : LoadedItem Row} (h : Genuine planned item)
    (hread : readBatch cfg item = .ok loaded) : Loaded cfg planned loaded := by
  rw [readBatch] at hread
  cases hdata : cfg.scan.readPoints (item.2.map Prod.fst) with
  | error err =>
      rw [hdata] at hread
      cases hread
  | ok data =>
      rw [hdata] at hread
      cases hread
      exact ⟨h, hdata⟩

theorem computeBatch_computed {loaded : LoadedItem Row} {computed : ComputedItem}
    (h : Loaded cfg planned loaded) (hcompute : computeBatch cfg loaded = .ok computed) :
    Computed cfg planned computed := by
  rw [computeBatch] at hcompute
  cases houtputs : cfg.scan.computeD1LevelScanLoadedBatch loaded.2.1 loaded.2.2 with
  | error err =>
      rw [houtputs] at hcompute
      cases hcompute
  | ok outputs =>
      rw [houtputs] at hcompute
      cases hcompute
      refine ⟨loaded.2.1, h.1, ?_⟩
      rw [LevelScan.processPlan, h.2]
      exact houtputs

theorem readerStep_tracks (h : Tracks cfg s planned) (hs : readerStep cfg s = some t) :
    Tracks cfg t planned := by
  rw [readerStep] at hs
  split at hs
  · split at hs
    · rename_i item planQueue hqueue
      cases hs
      refine { h with
        planQueue := fun other hother => h.planQueue other ?_
        reader := h.planQueue item ?_ }
      · rw [hqueue]
        exact List.mem_cons_of_mem _ hother
      · rw [hqueue]
        exact List.mem_cons_self
    · split_ifs at hs
      cases hs
      exact { h with reader := trivial }
  · rename_i item hreader
    cases hs
    have hitem : Genuine planned item := by
      have hgenuine := h.reader
      rwa [hreader] at hgenuine
    exact { h with reader := fun loaded hread => readBatch_loaded hitem hread }
  · rename_i loaded hreader
    by_cases hspace : s.loadedQueue.length < max cfg.pipelineInflight 1
    swap
    · rw [if_neg hspace] at hs
      cases hs
    rw [if_pos hspace] at hs
    cases hs
    have hloaded : ∀ item, loaded = .ok item → Loaded cfg planned item := by
      have hsending := h.reader
      rwa [hreader] at hsending
    refine { h with
      loadedQueue := fun item hitem => ?_
      reader := ?_ }
    · split_ifs <;> trivial
    · rcases List.mem_append.mp hitem with hitem | hitem
      · exact h.loadedQueue item hitem
      · exact hloaded item (List.mem_singleton.mp hitem).symm
  · cases hs

theorem Tracks.setWorker {j : Nat} {pc : WorkerPc Row} (h : Tracks cfg s planned)
    (hpc : pc.Tracks cfg planned) : Tracks cfg (s.setWorker j pc) planned := by
  refine { h with workers := fun other hother => ?_ }
  rcases List.mem_or_eq_of_mem_set hother with hother | rfl
  · exact h.workers other hother
  · exact hpc

theorem workerStep_tracks {j : Nat} (h : Tracks cfg s planned) (hs : workerStep cfg s j = some t) :
    Tracks cfg t planned := by
  rw [workerStep] at hs
  split at hs
  · split at hs
    · rename_i loaded loadedQueue hqueue
      cases hs
      have htail : Tracks cfg { s with loadedQueue } planned := { h with
        loadedQueue := fun item hitem =>
          h.loadedQueue item (by rw [hqueue]; exact List.mem_cons_of_mem _ hitem) }
      exact htail.setWorker (h.loadedQueue loaded (by rw [hqueue]; exact List.mem_cons_self))
    · rename_i err loadedQueue hqueue
      cases hs
      have htail : Tracks cfg { s with loadedQueue } planned := { h with
        loadedQueue := fun item hitem =>
          h.loadedQueue item (by rw [hqueue]; exact List.mem_cons_of_mem _ hitem) }
      exact htail.setWorker fun item hitem => nomatch hitem
    · split_ifs at hs
      cases hs
      exact h.setWorker trivial
  · rename_i loaded hworker
    cases hs
    have hloaded : Loaded cfg planned loaded := h.workers _ (List.mem_of_getElem? hworker)
    exact h.setWorker fun computed hcompute => computeBatch_computed hloaded hcompute
  · rename_i computed hworker
    by_cases hspace : s.computedQueue.length < max cfg.computedReorderCapacity 1
    swap
    · rw [if_neg hspace] at hs
      cases hs
    rw [if_pos hspace] at hs
    cases hs
    have hcomputed : ∀ item, computed = .ok item → Computed cfg planned item :=
      h.workers _ (List.mem_of_getElem? hworker)
    have hqueue : Tracks cfg { s with computedQueue := s.computedQueue ++ [computed] } planned := by
      refine { h with computedQueue := fun item hitem => ?_ }
      rcases List.mem_append.mp hitem with hitem | hitem
      · exact h.computedQueue item hitem
      · exact hcomputed item (List.mem_singleton.mp hitem).symm
    refine hqueue.setWorker ?_
    split_ifs <;> trivial
  · cases hs

/-- What the main thread keeps of the batches. -/
def State.mainView (s : State Row) : MainPc × D1LevelScanHeap × Bool × Option PlanItem × Nat × Nat :=
  (s.main, s.heap, s.senderOpen, s.pendingPlan, s.sentBatches, s.appliedBatches)

theorem Counted.of_mainView (h : Counted s planned) (heq : t.mainView = s.mainView) :
    Counted t planned := by
  simp only [State.mainView, Prod.mk.injEq] at heq
  obtain ⟨hmain, hheap, hopen, hpending, hsent, happlied⟩ := heq
  constructor
  · rw [hsent, hpending]
    exact h.sent
  · rw [hopen, hheap, hpending]
    exact h.closed
  · rw [hmain, hopen]
    exact h.exhausted
  · rw [hmain, hopen, happlied, hsent]
    exact h.finished

theorem readerStep_mainView (hs : readerStep cfg s = some t) : t.mainView = s.mainView := by
  rw [readerStep] at hs
  split at hs
  · split at hs
    · cases hs
      rfl
    · split_ifs at hs
      cases hs
      rfl
  · cases hs
    rfl
  · obtain ⟨-, ht⟩ := Option.ite_none_right_eq_some.mp hs
    cases ht
    rfl
  · cases hs

theorem workerStep_mainView {j : Nat} (hs : workerStep cfg s j = some t) :
    t.mainView = s.mainView := by
  rw [workerStep] at hs
  split at hs
  · split at hs
    · cases hs
      rfl
    · cases hs
      rfl
    · split_ifs at hs
      cases hs
      rfl
  · cases hs
    rfl
  · obtain ⟨-, ht⟩ := Option.ite_none_right_eq_some.mp hs
    cases ht
    rfl
  · cases hs

/-! ## Runs -/

theorem step_sound {a : Action} (h : Sound cfg s) (hs : step cfg s a = some t) : Sound cfg t := by
  rcases h with ⟨err, herr⟩ | ⟨planned, htracks, hcounted⟩
  · cases a with
    | main =>
        simp only [step, mainStep, herr] at hs
        cases hs
    | reader =>
        have hmain : t.main = s.main := congrArg Prod.fst (readerStep_mainView hs)
        exact .inl ⟨err, hmain.trans herr⟩
    | worker j =>
        have hmain : t.main = s.main := congrArg Prod.fst (workerStep_mainView hs)
        exact .inl ⟨err, hmain.trans herr⟩
  · cases a with
    | main => exact mainStep_sound htracks hcounted hs
    | reader =>
        exact .inr ⟨planned, readerStep_tracks htracks hs,
          hcounted.of_mainView (readerStep_mainView hs)⟩
    | worker j =>
        exact .inr ⟨planned, workerStep_tracks htracks hs,
          hcounted.of_mainView (workerStep_mainView hs)⟩

theorem run_sound {actions : List Action} (h : Run (step cfg) (initial cfg) actions s) :
    Sound cfg s :=
  h.invariant (.inr ⟨[], initial_tracks cfg, initial_counted cfg⟩) fun _ _ _ => step_sound

/-- A run that succeeds has scanned all batches, as the plain loop does. -/
theorem run_sequentialScan {actions : List Action} (h : Run (step cfg) (initial cfg) actions s)
    (hok : s.main = .finished (.ok ())) : ∃ plans,
      PlansTo cfg.scan.points cfg.scan.batchPoints (startHeap cfg.scan.points) plans [] ∧
      cfg.scan.sequentialScan plans = .ok s.result := by
  rcases run_sound h with ⟨err, herr⟩ | ⟨planned, htracks, hcounted⟩
  · rw [hok] at herr
    cases herr
  · obtain ⟨hclosed, happlied⟩ := hcounted.finished hok
    obtain ⟨hheap, hpending⟩ := hcounted.closed hclosed
    have hsent := hcounted.sent
    rw [hpending, Option.toList_none, List.length_nil, Nat.add_zero, ← happlied] at hsent
    refine ⟨planned, hheap ▸ htracks.plans, ?_⟩
    rw [← htracks.applied, hsent, List.take_length]

end

/-- Two runs that share a point, in batches of one point. -/
def twoRuns : LevelScan Nat where
  runs := [⟨[7, 5], 2, 1, fun row => .ok [row % 2]⟩, ⟨[7], 2, 1, fun row => .ok [row % 2]⟩]
  row := UInt32.toNat
  readPoints ids := .ok (ids.map UInt32.toNat)
  reads ids rows h := by
    cases h
    rfl
  batchPoints := 1
  chunkPoints _ := 1
  sortOutputs := .byKey _

def twoRunsPipeline : Config Nat := ⟨twoRuns, 1, 1, 2⟩

def MainPc.isOk : MainPc → Bool
  | .finished (.ok ()) => true
  | _ => false

theorem MainPc.eq_of_isOk {pc : MainPc} (h : pc.isOk) : pc = .finished (.ok ()) := by
  match pc, h with
  | .finished (.ok ()), _ => rfl

/-- A batch goes through the reader and the second worker, and is applied. -/
def batchThrough : List Action :=
  [.reader, .reader, .reader, .worker 1, .worker 1, .worker 1, .main, .main, .main, .main, .main]

end ScanPipeline

end ForgeANN
