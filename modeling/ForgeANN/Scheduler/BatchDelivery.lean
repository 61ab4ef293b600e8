-- SUMMARY: However the queue is cut into batches, the drain delivers what the leaves deliver each alone.
import ForgeANN.Leaf.SameReads
import ForgeANN.Lib.Accounts
import ForgeANN.Scheduler.LeafBatch
import Mathlib.Tactic.Abel

/-!
# Batches and single leaves

What is delivered are the records, and the edges and witnesses for the edge sink, in
whatever pieces. A batch delivers what its leaves deliver, each on its own dataset; a
batch that fails delivers no more than that. It fails as one of its leaves does, for an
error of reading points together, for an error that another batch has left, or because
the recorder or the edge sink refuses what it is given.
-/
namespace ForgeANN

open Lib

inductive Delivery where
  | record (family : UInt32) (flush : LeafFlush F32)
  | edge (edge : LeafEdge F32)
  | witness (witness : PendingLuneWitness)

namespace DrainEvent

/-- One flush of the edge sink may be another's beginning. -/
def deliveries : DrainEvent → List Delivery
  | record family flush => [.record family flush]
  | sink flush => flush.edgesIn.map .edge ++ flush.witnessesIn.map .witness

def delivered (event : DrainEvent) : Multiset Delivery := event.deliveries

end DrainEvent

namespace DrainContext

variable (ctx : DrainContext)

/-- A leaf by itself, on its own dataset as it is, where nothing else happens. -/
def processAlone (queued : QueuedLeaf) : Drain Unit :=
  ctx.tagged queued.leaf (ctx.leafRun (ctx.datasetOf queued.dataset) queued.leaf)

/-- What the leaves of a queue emit, each by itself. -/
def aloneEvents (queue : List QueuedLeaf) : List DrainEvent :=
  queue.flatMap fun queued => (ctx.processAlone queued).emitted

/-- An error of reading points of a dataset together. -/
def HydrationFails (reads : PointReads) (e : AnnError) : Prop :=
  ∃ config ids, ctx.pointPipelineConfig = some config ∧ ctx.hydrate config reads ids = .error e

/-- An error that some of these executions find recorded. -/
def FindsRecorded (tickets : List Nat) (e : AnnError) : Prop :=
  ∃ together message, together ⊆ tickets ∧
    ctx.surroundings.firstError together = some message ∧ e = .index message

/-- An answer of the recorder or the edge sink to some of these executions. -/
def IsRefused (tickets : List Nat) (e : AnnError) : Prop :=
  ∃ together n event, together ⊆ tickets ∧
    ctx.surroundings.answer together n event = .error e

/-- What is no failure of a leaf by itself. -/
def Excuse (reads : PointReads) (tickets : List Nat) (e : AnnError) : Prop :=
  ctx.HydrationFails reads e ∨ ctx.FindsRecorded tickets e ∨ ctx.IsRefused tickets e

/-- A run of leaves of one dataset delivers what they do alone. -/
abbrev Delivers (reads : PointReads) (run : Drain Unit) (leaves : List LeafTask) : Prop :=
  Accounts DrainEvent.delivered (ctx.Excuse reads (leaves.map LeafTask.ticket)) run
    (leaves.map fun task => ctx.tagged task.leaf (ctx.leafRun reads task.leaf))

variable {ctx} {config : HydrationConfig} {reads hydrated : PointReads} {ids : List UInt32}
  {leaf : Leaf} {task : LeafTask} {leaves : List LeafTask} {tickets : List Nat} {e : AnnError}

theorem Excuse.mono {tickets' : List Nat} (h : ctx.Excuse reads tickets e)
    (hsub : tickets ⊆ tickets') : ctx.Excuse reads tickets' e := by
  rcases h with h | ⟨together, message, htogether, h⟩ | ⟨together, n, event, htogether, h⟩
  · exact .inl h
  · exact .inr (.inl ⟨together, message, List.Subset.trans htogether hsub, h⟩)
  · exact .inr (.inr ⟨together, n, event, List.Subset.trans htogether hsub, h⟩)

/-- The check for an error of others, before `run`. -/
theorem checkForError_accounts {run : Drain Unit} {owed : List (Drain Unit)}
    (h : Accounts DrainEvent.delivered (ctx.Excuse reads tickets) run owed) :
    Accounts DrainEvent.delivered (ctx.Excuse reads tickets)
      (Emission.lift (ctx.checkForError tickets) >>= fun _ => run) owed := by
  rw [checkForError]
  split
  · rename_i message hmessage
    exact .fail (.inr (.inl ⟨tickets, message, List.Subset.refl _, hmessage, rfl⟩))
  · rwa [Emission.lift_ok, pure_bind]

/-! ## Hydration -/

theorem hydrate_ok (h : ctx.hydrate config reads ids = .ok hydrated) :
    ∃ store, reads.hydrateResidentSubset ctx.sort config.toPointPipelineConfig ids = .ok store ∧
      hydrated = .ofResidentSubset store := by
  obtain ⟨store, hstore, heq⟩ := bind_eq_ok.mp h
  cases heq
  exact ⟨store, hstore, rfl⟩

theorem hydrate_isResidentSubset (h : ctx.hydrate config reads ids = .ok hydrated) :
    hydrated.isResidentSubset = true := by
  obtain ⟨store, -, rfl⟩ := hydrate_ok h
  rfl

/-- A leaf does on a resident subset with its points what it does on the dataset. -/
theorem leafRun_hydrated (halike : reads.Alike) (h : ctx.hydrate config reads ids = .ok hydrated)
    (hleaf : ∀ id ∈ leaf, id ∈ ids) : ctx.leafRun hydrated leaf = ctx.leafRun reads leaf := by
  obtain ⟨store, hstore, rfl⟩ := hydrate_ok h
  have hread : ∀ id ∈ leaf, (PointReads.ofResidentSubset store).readPoint id = reads.readPoint id :=
    fun id hid => PointReads.readPoint_hydrated halike hstore (hleaf id hid)
  have hdist : ∀ i ∈ leaf, ∀ j ∈ leaf,
      (PointReads.ofResidentSubset store).getDistance i j = reads.getDistance i j := by
    intro i hi j hj
    rw [PointReads.getDistance, PointReads.getDistance, hread i hi, hread j hj]
  have hstore : (PointReads.ofResidentSubset store).leafStore ctx.tools =
      (reads.leafStore ctx.tools).withReads (PointReads.ofResidentSubset store).readPoint
        (PointReads.ofResidentSubset store).getDistance := rfl
  simp only [leafRun, hstore]
  rw [(reads.leafStore ctx.tools).processLeafParallelLarge_withReads _ _ _ hread hdist,
    (reads.leafStore ctx.tools).processLeaf_withReads _ _ _ hread hdist]

/-- An answer to a leaf: one of the recorder or the edge sink, where it refuses. -/
def AnswersOf (ctx : DrainContext) (ticket : Nat) (answer : Nat → DrainEvent → AnnResult Unit) :
    Prop :=
  ∀ n event e, answer n event = .error e → ctx.surroundings.answer [ticket] n event = .error e

theorem collectorAnswer_answersOf (ticket : Nat) :
    ctx.AnswersOf ticket (ctx.collectorAnswer ticket) := by
  intro n event e he
  cases event with
  | record family flush => exact he
  | sink flush => cases he

/-- A leaf that is hydrated alone, or not at all. -/
theorem leafDataset_leafRun (halike : reads.Alike) (leaf : Leaf) :
    (∃ e, ctx.leafDataset reads leaf = .error e ∧ ctx.HydrationFails reads e) ∨
      ∃ reads', ctx.leafDataset reads leaf = .ok reads' ∧
        ctx.leafRun reads' leaf = ctx.leafRun reads leaf := by
  rw [leafDataset]
  split
  · rename_i config hconfig
    -- a leaf that is hydrated reads the same rows, from memory
    split
    · cases hhydrate : ctx.hydrate config reads leaf with
      | error e => exact .inl ⟨e, rfl, config, leaf, hconfig, hhydrate⟩
      | ok hydrated =>
          exact .inr ⟨hydrated, rfl, leafRun_hydrated halike hhydrate fun _ hid => hid⟩
    · exact .inr ⟨reads, rfl, rfl⟩
  · exact .inr ⟨reads, rfl, rfl⟩

theorem buildLeafProfile_accounts {answer : Nat → DrainEvent → AnnResult Unit}
    (hanswer : ctx.AnswersOf task.ticket answer) {run : LeafRun F32 Unit}
    {reads' : PointReads} (hrun : (∃ e, ctx.leafDataset reads' task.leaf = .error e ∧
        ctx.HydrationFails reads e) ∨
      ∃ used, ctx.leafDataset reads' task.leaf = .ok used ∧ ctx.leafRun used task.leaf = run) :
    Accounts DrainEvent.delivered (ctx.Excuse reads [task.ticket])
      (ctx.buildLeafProfile reads' answer task) [ctx.tagged task.leaf run] := by
  refine checkForError_accounts ?_
  rcases hrun with ⟨e, hdataset, hfails⟩ | ⟨used, hdataset, rfl⟩
  · rw [hdataset]
    exact .fail (.inl hfails)
  · rw [hdataset, Emission.lift_ok, pure_bind]
    refine Accounts.offeredTo (.self _) fun n event e he => ?_
    exact .inr (.inr ⟨[task.ticket], n, event, List.Subset.refl _, hanswer n event e he⟩)

theorem processLeafTask_delivers (halike : reads.Alike) (task : LeafTask) :
    ctx.Delivers reads (ctx.processLeafTask reads task) [task] :=
  buildLeafProfile_accounts (fun _ _ _ he => he) (leafDataset_leafRun halike task.leaf)

/-- A leaf of a hydrated batch is not hydrated once more. -/
theorem buildLeafProfile_hydrated (halike : reads.Alike)
    (h : ctx.hydrate config reads ids = .ok hydrated) (hleaf : ∀ id ∈ task.leaf, id ∈ ids) :
    ctx.Delivers reads
      (ctx.buildLeafProfile hydrated (ctx.collectorAnswer task.ticket) task) [task] := by
  have hdataset : ctx.leafDataset hydrated task.leaf = .ok hydrated := by
    rw [leafDataset, hydrate_isResidentSubset h]
    split
    · rw [Bool.not_true, Bool.and_false]
      rfl
    · rfl
  exact buildLeafProfile_accounts (collectorAnswer_answersOf task.ticket)
    (.inr ⟨hydrated, hdataset, leafRun_hydrated halike h hleaf⟩)

/-! ## The collector -/

/-- What is in the collector, for the edge sink. -/
def Collected.delivered (collected : Collected) : Multiset Delivery :=
  ((collected.edges.map .edge ++ collected.luneWitnesses.map .witness : List Delivery) :)

theorem Collected.delivered_flush (collected : Collected) (flush : LeafFlush F32) :
    Collected.delivered
        ⟨collected.edges ++ flush.edgesIn, collected.luneWitnesses ++ flush.witnessesIn⟩ =
      (DrainEvent.sink flush).delivered + collected.delivered := by
  simp only [Collected.delivered, DrainEvent.delivered, DrainEvent.deliveries, List.map_append,
    ← Multiset.coe_add]
  abel

open DrainEvent

/-- What a leaf has for the edge sink is collected, and the rest is delivered at once. -/
theorem delivered_split (events : List DrainEvent) (collected : Collected) :
    worth delivered (events.filter fun event => event.recorded.isSome) +
        (collected.add events).delivered = worth delivered events + collected.delivered := by
  induction events generalizing collected with
  | nil => simp [Collected.add]
  | cons event events ih =>
      cases event with
      | record family flush =>
          have hadd : collected.add (.record family flush :: events) = collected.add events := rfl
          rw [List.filter_cons_of_pos (by rfl), hadd, worth_cons, worth_cons, add_assoc, ih,
            add_assoc]
      | sink flush =>
          have hadd : collected.add (.sink flush :: events) = Collected.add
              ⟨collected.edges ++ flush.edgesIn, collected.luneWitnesses ++ flush.witnessesIn⟩
              events := by
            simp [Collected.add, sunk]
          rw [List.filter_cons_of_neg (by simp [recorded]), hadd, ih, Collected.delivered_flush,
            worth_cons]
          abel

/-- A run that starts with something in the collector: what it delivers and what it leaves there
amount to what was there and what is owed. -/
structure Collects (excuse : AnnError → Prop) (run : Drain Collected) (collected : Collected)
    (owed : List (Drain Unit)) : Prop where
  atMost : worth delivered run.emitted ≤ worth delivered (owed.flatMap (·.emitted))
  ok : ∀ collected', run.result = .ok collected' → (∀ r ∈ owed, r.result = .ok ()) ∧
    worth delivered run.emitted + collected'.delivered =
      worth delivered (owed.flatMap (·.emitted)) + collected.delivered
  error : ∀ e, run.result = .error e → excuse e ∨ ∃ r ∈ owed, r.result = .error e

theorem Collects.nil {excuse : AnnError → Prop} (collected : Collected) :
    Collects excuse (pure collected) collected [] where
  atMost := le_refl _
  ok collected' hok := by
    cases hok
    exact ⟨fun r hr => (by cases hr), rfl⟩
  error e he := by cases he

/-- One run after another. -/
theorem Collects.bind {excuse : AnnError → Prop} {run : Drain Collected} {collected : Collected}
    {owed owed' : List (Drain Unit)} {next : Collected → Drain Collected}
    (h : Collects excuse run collected owed)
    (h' : ∀ collected', Collects excuse (next collected') collected' owed') :
    Collects excuse (run >>= next) collected (owed ++ owed') := by
  cases hrun : run.result with
  | error e =>
      rw [Emission.bind_of_error hrun]
      refine ⟨?_, fun _ hok => (by cases hok), fun e' he' => ?_⟩
      · rw [List.flatMap_append, worth_append]
        exact h.atMost.trans (Multiset.le_add_right ..)
      · cases he'
        exact Accounts.error_mono (List.subset_append_left ..) (h.error e hrun)
  | ok collected' =>
      obtain ⟨hall, heq⟩ := h.ok collected' hrun
      rw [Emission.bind_of_ok hrun]
      refine ⟨?_, fun last hok => ?_, fun e he => ?_⟩
      · rw [List.flatMap_append, worth_append, worth_append]
        exact add_le_add h.atMost (h' collected').atMost
      · obtain ⟨hall', heq'⟩ := (h' collected').ok last hok
        refine ⟨List.forall_mem_append.mpr ⟨hall, hall'⟩, ?_⟩
        rw [List.flatMap_append, worth_append, worth_append, add_assoc, heq', add_left_comm, heq]
        abel
      · exact Accounts.error_mono (List.subset_append_right ..) ((h' collected').error e he)

/-- A run whose events for the edge sink go to the collector instead. -/
theorem Collects.of_accounts {excuse : AnnError → Prop} {run : Drain Unit}
    {owed : List (Drain Unit)} (h : Accounts delivered excuse run owed) (collected : Collected) :
    Collects excuse ⟨run.emitted.filter fun event => event.recorded.isSome,
      run.result.map fun _ => collected.add run.emitted⟩ collected owed where
  atMost := (worth_sublist List.filter_sublist).trans h.atMost
  ok collected' hok := by
    cases hresult : run.result with
    | error e =>
        rw [hresult] at hok
        cases hok
    | ok _ =>
        rw [hresult] at hok
        cases hok
        obtain ⟨hall, heq⟩ := h.ok hresult
        exact ⟨hall, by rw [← heq]; exact delivered_split run.emitted collected⟩
  error e he := by
    cases hresult : run.result with
    | error e' =>
        rw [hresult] at he
        cases he
        exact h.error e hresult
    | ok _ =>
        rw [hresult] at he
        cases he

/-- The leaves of a hydrated batch, one after the other. -/
theorem collectLeaves_collects (halike : reads.Alike)
    (h : ctx.hydrate config reads ids = .ok hydrated)
    (hleaves : ∀ task ∈ leaves, ∀ id ∈ task.leaf, id ∈ ids)
    (htickets : ∀ task ∈ leaves, task.ticket ∈ tickets) (collected : Collected) :
    Collects (ctx.Excuse reads tickets) (leaves.foldlM (ctx.collectLeaf hydrated) collected)
      collected (leaves.map fun task => ctx.tagged task.leaf (ctx.leafRun reads task.leaf)) := by
  induction leaves generalizing collected with
  | nil => exact .nil collected
  | cons task leaves ih =>
      have hfirst := (buildLeafProfile_hydrated halike h (hleaves task List.mem_cons_self)).mono
        fun e (he : ctx.Excuse reads [task.ticket] e) =>
          he.mono (List.cons_subset.mpr ⟨htickets task List.mem_cons_self, List.nil_subset _⟩)
      rw [List.foldlM_cons]
      exact (Collects.of_accounts hfirst collected).bind fun next =>
        ih (fun other hother => hleaves other (List.mem_cons_of_mem task hother))
          (fun other hother => htickets other (List.mem_cons_of_mem task hother)) next

/-! ## Batches -/

theorem flatMap_debts (leaves : List LeafTask) :
    (leaves.flatMap fun task => [ctx.tagged task.leaf (ctx.leafRun reads task.leaf)]) =
      leaves.map fun task => ctx.tagged task.leaf (ctx.leafRun reads task.leaf) :=
  List.flatMap_pure_eq_map ..

/-- What a leaf of a batch may be excused by excuses the batch. -/
theorem processLeafTask_accounts (halike : reads.Alike) (htask : task ∈ leaves) :
    Accounts delivered (ctx.Excuse reads (leaves.map LeafTask.ticket))
      (ctx.processLeafTask reads task) [ctx.tagged task.leaf (ctx.leafRun reads task.leaf)] :=
  (processLeafTask_delivers halike task).mono fun _ (he : ctx.Excuse reads [task.ticket] _) =>
    he.mono (List.cons_subset.mpr ⟨List.mem_map_of_mem htask, List.nil_subset _⟩)

theorem processEach_delivers (halike : reads.Alike) (leaves : List LeafTask) :
    ctx.Delivers reads (ctx.processEach reads leaves) leaves := by
  rw [Delivers, ← flatMap_debts]
  exact Accounts.forM fun task htask => processLeafTask_accounts halike htask

theorem processParallel_delivers (halike : reads.Alike) (leaves : List LeafTask) :
    ctx.Delivers reads (ctx.processParallel reads leaves) leaves := by
  have hleaf : ∀ task ∈ leaves, Accounts delivered (ctx.Excuse reads (leaves.map LeafTask.ticket))
      (ctx.processLeafTask reads task) [ctx.tagged task.leaf (ctx.leafRun reads task.leaf)] :=
    fun task htask => processLeafTask_accounts halike htask
  have hmerge : ∀ leaves : List LeafTask,
      (ctx.order.merge (leaves.map fun task => (ctx.processLeafTask reads task).emitted)).Perm
        (leaves.flatMap fun task => (ctx.processLeafTask reads task).emitted) := by
    intro leaves
    rw [List.flatMap_def]
    exact ctx.order.merge_perm _
  have hended : ∀ {task}, task ∈ ctx.order.ended leaves ↔ task ∈ leaves :=
    (ctx.order.ended_perm leaves).mem_iff
  rw [Delivers, processParallel, ← flatMap_debts]
  cases hresults : (ctx.order.ended leaves).mapM fun task =>
      (ctx.processLeafTask reads task).result with
  | ok results =>
      refine Accounts.parallel hleaf (fun task hmem => ?_) (hmerge leaves)
      obtain ⟨_, -, hok⟩ := exists_of_mem_forall₂ (forall₂_of_mapM hresults).flip (hended.mpr hmem)
      exact hok
  | error e =>
      -- the first to end with an error gives its own to the batch; those started may be fewer
      obtain ⟨task, hmem, he⟩ := exists_of_mapM_error hresults
      exact Accounts.parallel_failed hleaf (hended.mp hmem) he
        (ctx.order.started_sublist leaves) (hmerge _)

theorem acquireLeafBatchHydrationSlot_accounts {run : Drain Unit} {owed : List (Drain Unit)}
    (h : Accounts delivered (ctx.Excuse reads tickets) run owed) :
    Accounts delivered (ctx.Excuse reads tickets)
      (Emission.lift (ctx.acquireLeafBatchHydrationSlot tickets) >>= fun _ => run) owed := by
  rw [acquireLeafBatchHydrationSlot]
  split
  · rwa [Emission.lift_ok, pure_bind]
  · exact checkForError_accounts h

/-- What is in the collector reaches the edge sink, unless that refuses it. -/
theorem flushInto_worth (ctx : DrainContext) (tickets : List Nat) (collected : Collected) :
    worth delivered (ctx.flushInto tickets collected).emitted ≤ collected.delivered ∧
      ((ctx.flushInto tickets collected).result = .ok () →
        worth delivered (ctx.flushInto tickets collected).emitted = collected.delivered) := by
  have hall : worth delivered [.sink (.edges collected.edges),
      .sink (.witnesses collected.luneWitnesses)] = collected.delivered := by
    simp [Collected.delivered, DrainEvent.delivered, DrainEvent.deliveries,
      LeafFlush.edgesIn, LeafFlush.witnessesIn]
  refine ⟨hall ▸ worth_sublist (Emission.offerFrom_sublist ..), fun hok => ?_⟩
  rw [flushInto, Emission.offeredTo, Emission.offerFrom_ok hok]
  exact hall

/-- A batch that is hydrated: the edge sink is given the collector's edges and witnesses at the
end. -/
theorem hydratedBatch_delivers (halike : reads.Alike)
    (hconfig : ctx.pointPipelineConfig = some config)
    (hleaves : ∀ task ∈ leaves, ∀ id ∈ task.leaf, id ∈ ids) :
    ctx.Delivers reads (do
      Emission.lift (ctx.acquireLeafBatchHydrationSlot (leaves.map LeafTask.ticket))
      let hydrated ← Emission.lift (ctx.hydrate config reads ids)
      let collected ← leaves.foldlM (ctx.collectLeaf hydrated) ⟨[], []⟩
      ctx.flushInto (leaves.map LeafTask.ticket) collected) leaves := by
  refine acquireLeafBatchHydrationSlot_accounts ?_
  cases hhydrate : ctx.hydrate config reads ids with
  | error e => exact .fail (.inl ⟨config, ids, hconfig, hhydrate⟩)
  | ok hydrated =>
      have hcollects := collectLeaves_collects halike hhydrate hleaves
        (fun task htask => List.mem_map_of_mem htask) ⟨[], []⟩
      have hempty : Collected.delivered ⟨[], []⟩ = 0 := rfl
      rw [Emission.lift_ok, pure_bind]
      cases hresult : (leaves.foldlM (ctx.collectLeaf hydrated) ⟨[], []⟩).result with
      | error e =>
          -- the collector is dropped with the leaf that failed; the recorder keeps what it was told
          rw [Emission.bind_of_error hresult]
          refine ⟨hcollects.atMost, fun hok => (by cases hok), fun e' he' => ?_⟩
          cases he'
          exact hcollects.error e hresult
      | ok collected =>
          obtain ⟨hall, heq⟩ := hcollects.ok collected hresult
          obtain ⟨hle, hflush⟩ := flushInto_worth ctx (leaves.map LeafTask.ticket) collected
          rw [hempty, add_zero] at heq
          rw [Emission.bind_of_ok hresult]
          refine ⟨?_, fun hok => ⟨hall, ?_⟩, fun e he => ?_⟩
          · rw [worth_append, ← heq]
            exact add_le_add_right hle _
          · rw [worth_append, hflush hok, heq]
          · -- the edge sink refuses one of the two flushes
            rcases Emission.offerFrom_error he with hnone | ⟨n, event, hrefused⟩
            · cases hnone
            · exact .inl (.inr (.inr ⟨_, n, event, List.Subset.refl _, hrefused⟩))

/-- A leaf without points does nothing. -/
theorem tagged_nil : ctx.tagged [] (ctx.leafRun reads []) = pure () := by
  -- no path is taken for less than two points
  have hpairs : ∀ path : Nat → LeafRun F32 Unit,
      LeafStore.ofPairs ctx.params [] path = pure () := by
    intro path
    rw [LeafStore.ofPairs]
    exact if_pos (Or.inl (Nat.zero_le 1))
  have hrun : ctx.leafRun reads [] = pure () := by
    simp only [leafRun, LeafStore.processLeafParallelLarge, LeafStore.processLeaf, hpairs, ite_self]
  rw [hrun]
  rfl

theorem processLeafBatchWithDataset_delivers (halike : reads.Alike) (leaves : List LeafTask) :
    ctx.Delivers reads (ctx.processLeafBatchWithDataset reads leaves) leaves := by
  have hids : ∀ task ∈ leaves, ∀ id ∈ task.leaf, id ∈ sortDedup (leaves.flatMap LeafTask.leaf) :=
    fun task htask id hid => mem_sortDedup.mpr (List.mem_flatMap.mpr ⟨task, htask, hid⟩)
  rw [processLeafBatchWithDataset]
  by_cases hfew : leaves.length ≤ 1 ∨ ctx.leafBatchDrainEnabled = false
  · rw [if_pos hfew]
    exact processEach_delivers halike leaves
  rw [if_neg hfew]
  dsimp only
  split_ifs with hnone
  · refine .idle fun r hr => ?_
    obtain ⟨task, htask, rfl⟩ := List.mem_map.mp hr
    have hnil : task.leaf = [] := by
      apply List.eq_nil_iff_forall_not_mem.mpr
      intro id hid
      have hmem := hids task htask id hid
      rw [hnone] at hmem
      cases hmem
    rw [hnil, tagged_nil]
  · exact processParallel_delivers halike leaves
  · split
    · exact processEach_delivers halike leaves
    · rename_i config hconfig
      exact hydratedBatch_delivers halike hconfig hids

/-! ## The queue -/

variable {dataset : Option Nat} {queued : List QueuedLeaf}

/-- What excuses a run of leaves of several datasets. -/
def ExcuseQueued (ctx : DrainContext) (tickets : List Nat) (e : AnnError) : Prop :=
  (∃ dataset, ctx.HydrationFails (ctx.datasetOf dataset) e) ∨ ctx.FindsRecorded tickets e ∨
    ctx.IsRefused tickets e

/-- A run of leaves delivers what they do alone. -/
abbrev DeliversQueued (ctx : DrainContext) (run : Drain Unit) (tickets : List Nat)
    (queued : List QueuedLeaf) : Prop :=
  Accounts DrainEvent.delivered (ctx.ExcuseQueued tickets) run (queued.map ctx.processAlone)

theorem flushQueuedLeafBatch_delivers (halike : (ctx.datasetOf dataset).Alike)
    (htickets : ∀ task ∈ leaves, task.ticket ∈ tickets) :
    ctx.DeliversQueued (ctx.flushQueuedLeafBatch dataset leaves) tickets
      (leaves.map fun task => ⟨task, dataset⟩) := by
  rw [flushQueuedLeafBatch, DeliversQueued, List.map_map]
  split_ifs with hnil
  · rw [hnil]
    exact .idle fun r hr => by cases hr
  · refine (processLeafBatchWithDataset_delivers halike leaves).mono fun e he => ?_
    have hsub : leaves.map LeafTask.ticket ⊆ tickets := by
      intro ticket hticket
      obtain ⟨task, htask, rfl⟩ := List.mem_map.mp hticket
      exact htickets task htask
    exact (Excuse.mono he hsub).imp_left fun h => ⟨dataset, h⟩

theorem processQueuedFrom_delivers (halike : ∀ dataset, (ctx.datasetOf dataset).Alike)
    (dataset : Option Nat) (leaves : List LeafTask) (queued : List QueuedLeaf)
    (htickets : ∀ task ∈ leaves ++ queued.map QueuedLeaf.toLeafTask, task.ticket ∈ tickets) :
    ctx.DeliversQueued (ctx.processQueuedFrom dataset leaves queued) tickets
      (leaves.map (fun task => ⟨task, dataset⟩) ++ queued) := by
  induction queued generalizing dataset leaves with
  | nil =>
      rw [processQueuedFrom, List.append_nil]
      rw [List.map_nil, List.append_nil] at htickets
      exact flushQueuedLeafBatch_delivers (halike dataset) htickets
  | cons first queued ih =>
      rw [List.map_cons] at htickets
      rw [processQueuedFrom]
      split_ifs with hnil hsame
      · rw [hnil] at htickets ⊢
        exact ih first.dataset [first.toLeafTask] htickets
      · have hmore := ih dataset (leaves ++ [first.toLeafTask])
          (by rwa [List.append_assoc, List.singleton_append])
        rw [List.map_append, List.append_assoc] at hmore
        subst hsame
        exact hmore
      · obtain ⟨hleaves, hqueued⟩ := List.forall_mem_append.mp htickets
        rw [DeliversQueued, List.map_append]
        exact (flushQueuedLeafBatch_delivers (halike dataset) hleaves).bind
          (ih first.dataset [first.toLeafTask] hqueued)

/-- The tickets of a batch. -/
def ticketsOf (queued : List QueuedLeaf) : List Nat := queued.map fun leaf => leaf.ticket

theorem processQueuedLeafBatch_delivers (halike : ∀ dataset, (ctx.datasetOf dataset).Alike)
    (queued : List QueuedLeaf) :
    ctx.DeliversQueued (ctx.processQueuedLeafBatch queued) (ticketsOf queued) queued := by
  refine processQueuedFrom_delivers halike none [] queued fun task htask => ?_
  obtain ⟨leaf, hleaf, rfl⟩ := List.mem_map.mp htask
  exact List.mem_map_of_mem hleaf

/-- Two points in a file, and their rows in memory. Leaf 4 finds an error recorded. -/
def twoPointsDrain : DrainContext where
  params := ⟨⟨1, 1024, 0, false, false, false⟩, 1⟩
  metric := .l2
  tools := ⟨fun ids => .ok (ids.map fun _ => [.zero]), fun _ => .zero, fun _ _ _ _ => .zero,
    fun _ _ => .ok []⟩
  dataset := { PointReads.ofResidentSubset .twoPoints with isResidentSubset := false }
  datasets := fun _ => .ofResidentSubset .twoPoints
  sort := .byKey Prod.fst
  pointPipelineConfig := some ⟨⟨1, 1, 64, 64, 1, 0⟩, true, 2⟩
  recorder := .viewLune List.reverse
  leafBatchDrainEnabled := true
  maxActiveHydrations := 1
  largeLeafMinSize := 3
  leafBlockRows := 2
  threads := 2
  order := ⟨List.flatten, fun _ => .rfl, List.reverse, List.reverse_perm, List.take 1,
    List.take_sublist 1⟩
  surroundings := ⟨fun tickets => if tickets = [4] then some "IndexError: no space left" else none,
    fun _ _ _ => .ok ()⟩

theorem twoPoints_alike : (PointReads.ofResidentSubset .twoPoints).Alike :=
  PointReads.ofResidentSubset_alike
    (ResidentRows.new_of _ rfl ResidentSubsetPointStore.twoPoints_rows)

end DrainContext

end ForgeANN
