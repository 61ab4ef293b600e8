-- SUMMARY: Whatever the order of the workers and the sizes of the tiles: every leaf gets the rows it gets untiled, within the budget.
import ForgeANN.Leaf.LeafAdsTiles
import ForgeANN.Lib.Except
import ForgeANN.Lib.Spans

/-!
# Tiles and schedules

The tiles that have been claimed lead from the first row to the cursor, and each is
with one worker or among the chunks. They begin at multiples of a query tile, so
that the query tiles are those of the leaf in one piece.
-/
namespace ForgeANN

open Lib

namespace LeafAds

variable {R : Type}

/-! ## Query tiles -/

namespace LeafAdsJob

variable (job : LeafAdsJob R)

theorem computeLeafAdsamplingRowRange_self (a : Nat) : job.computeLeafAdsamplingRowRange a a = [] := by
  rw [computeLeafAdsamplingRowRange, Nat.sub_self]
  rfl

/-- Rows may be cut where a query tile begins. -/
theorem computeLeafAdsamplingRowRange_cut {a m b : Nat} (ha : ADS_QUERY_TILE ∣ a)
    (hm : ADS_QUERY_TILE ∣ m) (ham : a ≤ m) (hmb : m ≤ b) :
    job.computeLeafAdsamplingRowRange a b =
      job.computeLeafAdsamplingRowRange a m ++ job.computeLeafAdsamplingRowRange m b := by
  obtain ⟨a, rfl⟩ := ha
  obtain ⟨m, rfl⟩ := hm
  simp only [computeLeafAdsamplingRowRange, ADS_QUERY_TILE] at *
  have hfront : (8 * m - 8 * a + 8 - 1) / 8 = m - a := by omega
  have hsplit : (b - 8 * a + 8 - 1) / 8 = (m - a) + (b - 8 * m + 8 - 1) / 8 := by omega
  rw [hfront, hsplit, List.range_add, List.flatMap_append, List.flatMap_map]
  congr 1
  · apply List.flatMap_congr
    intro i hi
    have hi := List.mem_range.mp hi
    rw [Nat.min_eq_left (by omega), Nat.min_eq_left (by omega)]
  · apply List.flatMap_congr
    intro i _
    have hat : 8 * a + 8 * (m - a + i) = 8 * m + 8 * i := by omega
    rw [hat]

theorem flatMap_rowRange {a b : Nat} {spans : List (Nat × Nat)} (h : Chain a spans b)
    (hstart : ∀ span ∈ spans, ADS_QUERY_TILE ∣ span.1) :
    spans.flatMap (fun span => job.computeLeafAdsamplingRowRange span.1 span.2) =
      job.computeLeafAdsamplingRowRange a b :=
  h.flatMap_eq job.computeLeafAdsamplingRowRange_self
    (fun _ _ _ => job.computeLeafAdsamplingRowRange_cut) hstart

theorem computeLeafAdsamplingTopkL2_eq : job.computeLeafAdsamplingTopkL2 =
    job.computeLeafAdsamplingRowRange 0 job.leafSize := by
  refine job.flatMap_rowRange (exists_chain_steps (by decide) job.leafSize) fun span hspan => ?_
  obtain ⟨i, -, rfl⟩ := List.mem_map.mp hspan
  exact Nat.dvd_trans (by decide) (Nat.dvd_mul_right ADS_LEAF_ROW_CHUNK i)

theorem computeLeafAdsamplingRowRange_length (a b : Nat) :
    (job.computeLeafAdsamplingRowRange a b).length = b - a := by
  have hfront : ∀ m ≤ (b - a + ADS_QUERY_TILE - 1) / ADS_QUERY_TILE,
      ((List.range m).flatMap fun i => job.computeLeafAdsamplingRowTile (a + ADS_QUERY_TILE * i)
        (min (a + ADS_QUERY_TILE * i + ADS_QUERY_TILE) b)).length =
          min (ADS_QUERY_TILE * m) (b - a) := by
    intro m
    induction m with
    | zero => exact fun _ => (Nat.zero_min _).symm
    | succ m ih =>
        intro hm
        have hlt : a + ADS_QUERY_TILE * m < b := by
          simp only [ADS_QUERY_TILE] at hm ⊢
          omega
        rw [List.range_succ, List.flatMap_append, List.length_append, ih (by omega),
          List.flatMap_singleton, job.rowTile_length _ _ (by simp only [ADS_QUERY_TILE] at *; omega)
            (Nat.min_le_left ..)]
        simp only [ADS_QUERY_TILE] at *
        omega
  rw [computeLeafAdsamplingRowRange, hfront _ (Nat.le_refl _)]
  simp only [ADS_QUERY_TILE]
  omega

/-- A chunk with the rows of its span. -/
def Computed (chunk : LeafAdSamplingChunk R) : Prop :=
  chunk.rowTopk = job.computeLeafAdsamplingRowRange chunk.rowStart chunk.rowEnd

end LeafAdsJob

theorem dvd_alignLeafAdsTileRows (rows : Nat) : ADS_QUERY_TILE ∣ alignLeafAdsTileRows rows :=
  Nat.dvd_mul_left ..

theorem dvd_tileRows (config : LeafAdsOperatorConfig) (runtime : Runtime) (bucket : Nat) :
    ADS_QUERY_TILE ∣ max (config.tileRowsForBucket runtime bucket) ADS_QUERY_TILE := by
  rcases Nat.le_total (config.tileRowsForBucket runtime bucket) ADS_QUERY_TILE with hle | hle
  · rw [Nat.max_eq_right hle]
  · rw [Nat.max_eq_left hle]
    exact dvd_alignLeafAdsTileRows _

/-! ## Chunks put together -/

theorem collectChunks_chain {job : LeafAdsJob R} {chunks : List (LeafAdSamplingChunk R)} {a b : Nat}
    (h : Chain a (chunks.map LeafAdSamplingChunk.span) b)
    (hcomputed : ∀ chunk ∈ chunks, job.Computed chunk) :
    collectChunks a chunks = .ok (chunks.flatMap (·.rowTopk)) := by
  induction chunks generalizing a with
  | nil => rfl
  | cons chunk chunks ih =>
      have hlength : chunk.rowEnd - chunk.rowStart = chunk.rowTopk.length := by
        rw [hcomputed chunk List.mem_cons_self, job.computeLeafAdsamplingRowRange_length]
      rw [List.map_cons] at h
      cases h with
      | cons hlt hrest =>
          rw [collectChunks, if_neg (not_not.mpr rfl), if_neg (not_not.mpr hlength),
            ih hrest fun other hother => hcomputed other (List.mem_cons_of_mem chunk hother)]
          rfl

/-- Chunks that are a chain in some order are sorted into it. -/
theorem finalizeLeafAdsTiles_eq {job : LeafAdsJob R} (sort : ChunkSort R)
    {chunks : List (LeafAdSamplingChunk R)} {spans : List (Nat × Nat)}
    (hperm : spans.Perm (chunks.map LeafAdSamplingChunk.span)) (hchain : Chain 0 spans job.leafSize)
    (hstart : ∀ span ∈ spans, ADS_QUERY_TILE ∣ span.1) (hcomputed : ∀ chunk ∈ chunks, job.Computed chunk) :
    finalizeLeafAdsTiles sort chunks = .ok job.computeLeafAdsamplingTopkL2 := by
  have hsorted : ((sort.sort chunks).map LeafAdSamplingChunk.span).Pairwise fun s t => s.1 ≤ t.1 :=
    List.pairwise_map.mpr (sort.sorted chunks)
  have hsame : ((sort.sort chunks).map LeafAdSamplingChunk.span).Perm spans :=
    ((sort.perm chunks).map _).trans hperm.symm
  have hdistinct : ∀ s ∈ spans, ∀ t ∈ spans, s.1 = t.1 → s = t :=
    List.inj_on_of_nodup_map (List.pairwise_map.mpr (hchain.pairwise.imp Nat.ne_of_lt))
  have heq : (sort.sort chunks).map LeafAdSamplingChunk.span = spans := by
    refine hsame.eq_of_pairwise (fun s t hs ht hst hts => ?_) hsorted
      (hchain.pairwise.imp Nat.le_of_lt)
    exact hdistinct s (hsame.mem_iff.mp hs) t ht (Nat.le_antisymm hst hts)
  have hsortedComputed : ∀ chunk ∈ sort.sort chunks, job.Computed chunk :=
    fun chunk hchunk => hcomputed chunk ((sort.perm chunks).mem_iff.mp hchunk)
  rw [finalizeLeafAdsTiles, collectChunks_chain (heq ▸ hchain) hsortedComputed, job.computeLeafAdsamplingTopkL2_eq,
    ← job.flatMap_rowRange hchain hstart, ← heq, List.flatMap_map]
  congr 1
  exact List.flatMap_congr hsortedComputed

/-! ## A team -/

/-- The chunk a worker is about to put with its others. -/
def WorkerPc.chunk : WorkerPc R → List (LeafAdSamplingChunk R)
  | .recording chunk _ _ => [chunk]
  | _ => []

/-- The rows a worker is at. -/
def WorkerPc.span : WorkerPc R → List (Nat × Nat)
  | .computing rowStart rowEnd => [(rowStart, rowEnd)]
  | .recording chunk _ _ => [chunk.span]
  | _ => []

def Worker.spans (worker : Worker R) : List (Nat × Nat) :=
  worker.localChunks.map LeafAdSamplingChunk.span ++ worker.pc.span

/-- What is known of a worker by where it is. -/
def WorkerPc.At (leafSize cursor : Nat) : WorkerPc R → Prop
  | .claiming tileRows => 0 < tileRows ∧ ADS_QUERY_TILE ∣ tileRows
  | .collecting => leafSize ≤ cursor
  | .stopped => leafSize ≤ cursor
  | _ => True

structure WorkerOk (job : LeafAdsJob R) (cursor : Nat) (worker : Worker R) : Prop where
  at_pc : worker.pc.At job.leafSize cursor
  computed : ∀ chunk ∈ worker.localChunks ++ worker.pc.chunk, job.Computed chunk
  stopped : worker.pc.isStopped = true → worker.localChunks = []

/-- The claimed rows are those before the cursor, each tile once. -/
structure TeamOk (job : LeafAdsJob R) (team : Team R) : Prop where
  workers : ∀ worker ∈ team.workers, WorkerOk job team.cursor worker
  some_worker : team.workers ≠ []
  computed : ∀ chunk ∈ team.chunks, job.Computed chunk
  cursor : ADS_QUERY_TILE ∣ team.cursor
  claimed : ∃ spans : List (Nat × Nat),
    spans.Perm (team.chunks.map LeafAdSamplingChunk.span ++ team.workers.flatMap Worker.spans) ∧
      Chain 0 spans (min team.cursor job.leafSize) ∧ ∀ span ∈ spans, ADS_QUERY_TILE ∣ span.1

theorem teamOk_startWorkers (job : LeafAdsJob R) {workerCount : Nat} (h : 0 < workerCount) :
    TeamOk job (startWorkers R workerCount) where
  workers worker hworker := by
    rw [List.eq_of_mem_replicate hworker]
    exact ⟨trivial, fun chunk hchunk => (by cases hchunk), fun _ => rfl⟩
  some_worker := List.ne_nil_of_length_pos (by rwa [startWorkers, List.length_replicate])
  computed chunk hchunk := by cases hchunk
  cursor := Nat.dvd_zero _
  claimed := by
    refine ⟨[], ?_, (by rw [startWorkers, Nat.zero_min]; exact .nil 0), fun span hspan => (by cases hspan)⟩
    rw [List.flatMap_eq_nil_iff.mpr fun worker hworker => by
      rw [List.eq_of_mem_replicate hworker]
      rfl]
    rfl

variable {config : LeafAdsOperatorConfig} {sort : ChunkSort R} {job : LeafAdsJob R}
  {runtime runtime' : Runtime} {team team' : Team R} {worker worker' : Worker R} {j : Nat}

theorem WorkerOk.mono {cursor cursor' : Nat} (h : WorkerOk job cursor worker)
    (hle : cursor ≤ cursor') : WorkerOk job cursor' worker := by
  refine { h with at_pc := ?_ }
  have hat := h.at_pc
  cases hpc : worker.pc with
  | claiming tileRows =>
      rw [hpc] at hat
      exact hat
  | collecting | stopped =>
      rw [hpc] at hat
      exact Nat.le_trans hat hle
  | sizing | computing | recording | checking => exact trivial

/-- What a worker's step changes for its team: it claims `more`, and what it held it holds still or
has put with the chunks. -/
structure Claims (job : LeafAdsJob R) (team team' : Team R) (worker worker' : Worker R)
    (more : List (Nat × Nat)) : Prop where
  workers : team'.workers = team.workers
  cursor_le : team.cursor ≤ team'.cursor
  cursor : ADS_QUERY_TILE ∣ team'.cursor
  ok : WorkerOk job team'.cursor worker'
  computed : ∀ chunk ∈ team'.chunks, job.Computed chunk
  held : (team'.chunks.map LeafAdSamplingChunk.span ++ worker'.spans).Perm
    (team.chunks.map LeafAdSamplingChunk.span ++ worker.spans ++ more)
  chain : ∀ {spans}, Chain 0 spans (min team.cursor job.leafSize) →
    Chain 0 (spans ++ more) (min team'.cursor job.leafSize)
  start : ∀ span ∈ more, ADS_QUERY_TILE ∣ span.1

theorem TeamOk.claims {more : List (Nat × Nat)} (h : TeamOk job team)
    (hj : team.workers[j]? = some worker) (hclaims : Claims job team team' worker worker' more) :
    TeamOk job { team' with workers := team'.workers.set j worker' } where
  workers other hother := by
    rw [hclaims.workers] at hother
    rcases List.mem_or_eq_of_mem_set hother with hother | rfl
    · exact (h.workers other hother).mono hclaims.cursor_le
    · exact hclaims.ok
  some_worker := by
    rw [hclaims.workers]
    exact List.ne_nil_of_mem (Pool.mem_set_self hj)
  computed := hclaims.computed
  cursor := hclaims.cursor
  claimed := by
    obtain ⟨spans, hperm, hchain, hstart⟩ := h.claimed
    refine ⟨spans ++ more, ?_, hclaims.chain hchain, fun span hspan => ?_⟩
    · obtain ⟨rest, hworkers, hset⟩ := Pool.exists_rest hj
      rw [hclaims.workers]
      refine (hperm.append_right more).trans ?_
      have hbefore := (hworkers.flatMap_right Worker.spans).append_left
        (team.chunks.map LeafAdSamplingChunk.span)
      have hafter := ((hset worker').flatMap_right Worker.spans).append_left
        (team'.chunks.map LeafAdSamplingChunk.span)
      refine (hbefore.append_right more).trans (.trans ?_ hafter.symm)
      rw [List.flatMap_cons, List.flatMap_cons, ← List.append_assoc, ← List.append_assoc]
      refine .trans ?_ (hclaims.held.symm.append_right _)
      rw [List.append_assoc, List.append_assoc _ more]
      exact List.perm_append_comm.append_left _
    · rcases List.mem_append.mp hspan with hspan | hspan
      · exact hstart span hspan
      · exact hclaims.start span hspan

/-- A step within a worker. -/
theorem claims_own (h : TeamOk job team) (hok : WorkerOk job team.cursor worker')
    (hspans : worker'.spans = worker.spans) : Claims job team team worker worker' [] where
  workers := rfl
  cursor_le := Nat.le_refl _
  cursor := h.cursor
  ok := hok
  computed := h.computed
  held := by rw [hspans, List.append_nil]
  chain hchain := by rwa [List.append_nil]
  start span hspan := by cases hspan

theorem workerStep_claims (h : TeamOk job team) (hworker : worker ∈ team.workers) {elapsedNs : Nat}
    {quantumOver spurious : Bool}
    (hstep : workerStep config job runtime team worker elapsedNs quantumOver spurious =
      some (runtime', team', worker')) : ∃ more, Claims job team team' worker worker' more := by
  obtain ⟨hat, hcomputed, hstopped⟩ := h.workers worker hworker
  obtain ⟨pc, localChunks⟩ := worker
  rw [workerStep] at hstep
  cases pc with
  | sizing =>
      cases hstep
      have hpos : 0 < max (config.tileRowsForBucket runtime (leafAdsSizeBucket job.leafSize))
          ADS_QUERY_TILE := Nat.lt_of_lt_of_le (by decide) (Nat.le_max_right ..)
      exact ⟨[], claims_own h ⟨⟨hpos, dvd_tileRows ..⟩, hcomputed, fun hpc => by cases hpc⟩ rfl⟩
  | claiming tileRows =>
      obtain ⟨hpos, hdvd⟩ := hat
      have hcursor := Nat.dvd_add h.cursor hdvd
      dsimp only at hstep
      split_ifs at hstep with hend
      · cases hstep
        refine ⟨[], rfl, Nat.le_add_right .., hcursor,
          ⟨Nat.le_add_right_of_le hend, hcomputed, fun hpc => (by cases hpc)⟩, h.computed,
          (by rw [List.append_nil]; rfl), fun hchain => ?_, fun span hspan => by cases hspan⟩
        rw [Nat.min_eq_right hend] at hchain
        rwa [List.append_nil, Nat.min_eq_right (Nat.le_add_right_of_le hend)]
      · cases hstep
        refine ⟨[(team.cursor, min (team.cursor + tileRows) job.leafSize)], rfl,
          Nat.le_add_right .., hcursor, ⟨trivial, hcomputed, fun hpc => (by cases hpc)⟩, h.computed,
          ?_, fun hchain => ?_, fun span hspan => ?_⟩
        · simp [Worker.spans, WorkerPc.span]
        · rw [Nat.min_eq_left (by omega)] at hchain
          exact hchain.concat (by omega)
        · rw [List.mem_singleton.mp hspan]
          exact h.cursor
  | computing rowStart rowEnd =>
      cases hstep
      refine ⟨[], claims_own h ⟨trivial, fun chunk hchunk => ?_, fun hpc => by cases hpc⟩ rfl⟩
      rcases List.mem_append.mp hchunk with hchunk | hchunk
      · exact hcomputed chunk (List.mem_append_left _ hchunk)
      · rw [List.mem_singleton.mp hchunk]
        rfl
  | recording chunk sample old =>
      by_cases hsame : runtime.ewmaNsPerRowByBucket.getD (leafAdsSizeBucket job.leafSize) 0 = old ∧
          spurious = false
      · dsimp only at hstep
        rw [if_pos hsame] at hstep
        cases hstep
        refine ⟨[], claims_own h ⟨?_, fun other hother => hcomputed other ?_, fun hpc => ?_⟩ ?_⟩
        · split_ifs <;> trivial
        · split_ifs at hother <;> simpa [WorkerPc.chunk] using hother
        · split_ifs at hpc <;> cases hpc
        · split_ifs <;> simp [Worker.spans, WorkerPc.span]
      · dsimp only at hstep
        rw [if_neg hsame] at hstep
        cases hstep
        exact ⟨[], claims_own h ⟨trivial, hcomputed, fun hpc => by cases hpc⟩ rfl⟩
  | checking =>
      cases hstep
      refine ⟨[], claims_own h ⟨?_, fun other hother => hcomputed other ?_, fun hpc => ?_⟩ ?_⟩
      · split_ifs with hend
        · exact hend
        · trivial
      · split_ifs at hother <;> exact hother
      · split_ifs at hpc <;> cases hpc
      · split_ifs <;> rfl
  | collecting =>
      cases hstep
      refine ⟨[], rfl, Nat.le_refl _, h.cursor, ⟨hat, fun chunk hchunk => (by cases hchunk), fun _ => rfl⟩,
        fun chunk hchunk => ?_, (by simp [Worker.spans, WorkerPc.span]), fun hchain => ?_,
        fun span hspan => by cases hspan⟩
      · rcases List.mem_append.mp hchunk with hchunk | hchunk
        · exact h.computed chunk hchunk
        · exact hcomputed chunk (List.mem_append_left _ hchunk)
      · rwa [List.append_nil]
  | stopped => cases hstep

/-- A worker leaves the counters alone. -/
theorem workerStep_counters {elapsedNs : Nat} {quantumOver spurious : Bool}
    (hstep : workerStep config job runtime team worker elapsedNs quantumOver spurious =
      some (runtime', team', worker')) :
    runtime'.activeWorkers = runtime.activeWorkers ∧
      runtime'.activeContexts = runtime.activeContexts := by
  obtain ⟨pc, localChunks⟩ := worker
  rw [workerStep] at hstep
  cases pc with
  | stopped => cases hstep
  | claiming | recording =>
      dsimp only at hstep
      split_ifs at hstep <;> cases hstep <;> exact ⟨rfl, rfl⟩
  | sizing | computing | checking | collecting =>
      cases hstep
      exact ⟨rfl, rfl⟩

/-- When all workers have stopped, the chunks are the leaf. -/
theorem TeamOk.finalize (h : TeamOk job team)
    (hall : team.workers.all (fun worker => worker.pc.isStopped) = true) :
    finalizeLeafAdsTiles sort team.chunks = .ok job.computeLeafAdsamplingTopkL2 := by
  have hstopped : ∀ worker ∈ team.workers, worker.pc = .stopped := by
    intro worker hworker
    have hpc := List.all_eq_true.mp hall worker hworker
    cases heq : worker.pc with
    | stopped => rfl
    | sizing | claiming | computing | recording | checking | collecting =>
        rw [heq] at hpc
        cases hpc
  have hend : job.leafSize ≤ team.cursor := by
    obtain ⟨worker, hworker⟩ := List.exists_mem_of_ne_nil _ h.some_worker
    have hat := (h.workers worker hworker).at_pc
    rw [hstopped worker hworker] at hat
    exact hat
  have hnone : team.workers.flatMap Worker.spans = [] := by
    refine List.flatMap_eq_nil_iff.mpr fun worker hworker => ?_
    have hpc := hstopped worker hworker
    have hlocal := (h.workers worker hworker).stopped (by rw [hpc]; rfl)
    rw [Worker.spans, hpc, hlocal]
    rfl
  obtain ⟨spans, hperm, hchain, hstart⟩ := h.claimed
  rw [hnone, List.append_nil] at hperm
  rw [Nat.min_eq_right hend] at hchain
  exact finalizeLeafAdsTiles_eq sort hperm hchain hstart h.computed

/-! ## Runs -/

/-- What is known of a leaf by where its thread is. -/
def JobOk (config : LeafAdsOperatorConfig) (job : LeafAdsJob R) : JobPc R → Prop
  | .exchanging _ active => active < config.cpuBudget
  | .tiling _ team => TeamOk job team
  | .finished _ result => result = .ok job.computeLeafAdsamplingTopkL2
  | .released result => result = .ok job.computeLeafAdsamplingTopkL2
  | .returned result => result = .ok job.computeLeafAdsamplingTopkL2
  | _ => True

/-- The workers a leaf has reserved. -/
def JobPc.reserved : JobPc R → Nat
  | .tiling count _ => count
  | .finished count _ => count
  | _ => 0

/-- Whether a leaf counts as active. -/
def JobPc.active : JobPc R → Nat
  | .idle => 0
  | .returned _ => 0
  | _ => 1

def JobPc.isReturned : JobPc R → Bool
  | .returned _ => true
  | _ => false

/-- What a step does to a thread and to the counters. -/
structure Keeps (config : LeafAdsOperatorConfig) (runtime runtime' : Runtime)
    (thread thread' : JobThread R) : Prop where
  job : thread'.job = thread.job
  ok : JobOk config thread'.job thread'.pc
  workers : thread.pc.reserved ≤ runtime.activeWorkers →
    runtime'.activeWorkers + thread.pc.reserved = runtime.activeWorkers + thread'.pc.reserved
  contexts : thread.pc.active ≤ runtime.activeContexts →
    runtime'.activeContexts + thread.pc.active = runtime.activeContexts + thread'.pc.active
  budget : runtime.activeWorkers ≤ config.cpuBudget → runtime'.activeWorkers ≤ config.cpuBudget

theorem threadStep_keeps {thread : JobThread R} (h : JobOk config thread.job thread.pc)
    {spurious : Bool} {pc : JobPc R}
    (hstep : threadStep config sort thread runtime spurious = some (runtime', pc)) :
    Keeps config runtime runtime' thread { thread with pc := pc } := by
  obtain ⟨job, before⟩ := thread
  rw [threadStep] at hstep
  cases before with
  | idle =>
      cases hstep
      exact ⟨rfl, trivial, fun _ => rfl, fun _ => rfl, id⟩
  | begun =>
      dsimp only at hstep
      split_ifs at hstep
      · cases hstep
        exact ⟨rfl, teamOk_startWorkers job Nat.one_pos, fun _ => rfl, fun _ => rfl, id⟩
      · cases hstep
        exact ⟨rfl, trivial, fun _ => rfl, fun _ => rfl, id⟩
  | sized maxTiles =>
      cases hstep
      exact ⟨rfl, trivial, fun _ => rfl, fun _ => rfl, id⟩
  | reserving requested =>
      dsimp only at hstep
      split_ifs at hstep with hroom
      · cases hstep
        exact ⟨rfl, hroom, fun _ => rfl, fun _ => rfl, id⟩
      · cases hstep
        exact ⟨rfl, trivial, fun _ => rfl, fun _ => rfl, id⟩
  | exchanging requested active =>
      have hroom : active < config.cpuBudget := h
      dsimp only at hstep
      split_ifs at hstep with hsame
      · cases hstep
        refine ⟨rfl, teamOk_startWorkers job (by omega), fun _ => ?_, fun _ => rfl, fun _ => ?_⟩
        · simp only [JobPc.reserved]
          omega
        · dsimp only
          omega
      · cases hstep
        exact ⟨rfl, trivial, fun _ => rfl, fun _ => rfl, id⟩
  | tiling count team =>
      dsimp only at hstep
      split_ifs at hstep with hall
      · cases hstep
        exact ⟨rfl, TeamOk.finalize h hall, fun _ => rfl, fun _ => rfl, id⟩
  | finished count result =>
      cases hstep
      refine ⟨rfl, h, fun hheld => ?_, fun _ => rfl, fun hbudget => ?_⟩
      · simp only [JobPc.reserved] at hheld ⊢
        omega
      · exact Nat.le_trans (Nat.sub_le ..) hbudget
  | released result =>
      cases hstep
      refine ⟨rfl, h, fun _ => rfl, fun hheld => ?_, id⟩
      simp only [JobPc.active] at hheld ⊢
      omega
  | returned result => cases hstep

theorem program_keeps {thread thread' : JobThread R} {new : List (JobThread R)} {move : TileMove}
    (h : JobOk config thread.job thread.pc)
    (hstep : program config sort runtime thread move = some (runtime', thread', new)) :
    new = [] ∧ Keeps config runtime runtime' thread thread' := by
  cases move with
  | thread spurious =>
      obtain ⟨⟨after, pc⟩, hthread, heq⟩ := Option.map_eq_some_iff.mp hstep
      cases heq
      exact ⟨rfl, threadStep_keeps h hthread⟩
  | worker j elapsedNs quantumOver spurious =>
      obtain ⟨job, pc⟩ := thread
      rw [program] at hstep
      cases pc with
      | tiling count team =>
          dsimp only at hstep
          split at hstep
          · rename_i worker hj
            obtain ⟨⟨after, team', worker'⟩, hworker, heq⟩ := Option.map_eq_some_iff.mp hstep
            cases heq
            obtain ⟨more, hclaims⟩ := workerStep_claims h (List.mem_of_getElem? hj) hworker
            obtain ⟨hworkers, hcontexts⟩ := workerStep_counters hworker
            refine ⟨rfl, rfl, TeamOk.claims h hj hclaims, fun _ => ?_, fun _ => ?_, fun hbudget => ?_⟩
            · rw [hworkers]
              rfl
            · rw [hcontexts]
              rfl
            · rwa [hworkers]
          · cases hstep
      | idle | begun | sized | reserving | exchanging | finished | released | returned => cases hstep

/-- What holds of every state that is reached. -/
structure Books (config : LeafAdsOperatorConfig) (p : Pool Runtime (JobThread R)) : Prop where
  jobs : ∀ thread ∈ p.threads, JobOk config thread.job thread.pc
  workers : p.shared.activeWorkers = 0 + p.total fun thread => thread.pc.reserved
  contexts : p.shared.activeContexts = 0 + p.total fun thread => thread.pc.active
  budget : p.shared.activeWorkers ≤ config.cpuBudget

theorem Books.step {p q : Pool Runtime (JobThread R)} {a : Nat × TileMove} (h : Books config p)
    (hstep : Pool.step (program config sort) p a = some q) : Books config q where
  jobs := by
    refine Pool.forall_step (P := fun _ thread => JobOk config thread.job thread.pc)
      (fun hl hs => ?_) (fun _ ho _ => h.jobs _ ho) hstep
    obtain ⟨rfl, hkeeps⟩ := program_keeps (h.jobs _ hl) hs
    exact ⟨hkeeps.ok, fun n hn => by cases hn⟩
  workers := by
    refine Pool.balance_step Runtime.activeWorkers (fun _ => 0) _ (fun hl hs hle => ?_) h.workers hstep
    obtain ⟨rfl, hkeeps⟩ := program_keeps (h.jobs _ hl) hs
    have := hkeeps.workers (by omega)
    simp only [List.map_nil, List.sum_nil]
    omega
  contexts := by
    refine Pool.balance_step Runtime.activeContexts (fun _ => 0) _ (fun hl hs hle => ?_) h.contexts
      hstep
    obtain ⟨rfl, hkeeps⟩ := program_keeps (h.jobs _ hl) hs
    have := hkeeps.contexts (by omega)
    simp only [List.map_nil, List.sum_nil]
    omega
  budget := by
    obtain ⟨thread, shared, thread', new, hl, hs, rfl⟩ := Pool.step_eq_some.mp hstep
    obtain ⟨-, hkeeps⟩ := program_keeps (h.jobs _ (List.mem_of_getElem? hl)) hs
    exact hkeeps.budget h.budget

theorem books_initial (jobs : List (LeafAdsJob R)) : Books config (initial jobs) where
  jobs thread hthread := by
    obtain ⟨job, -, rfl⟩ := List.mem_map.mp hthread
    exact trivial
  workers := by simp [initial, Pool.total, JobPc.reserved, Function.comp_def]
  contexts := by simp [initial, Pool.total, JobPc.active, Function.comp_def]
  budget := Nat.zero_le _

theorem jobs_step {p q : Pool Runtime (JobThread R)} {a : Nat × TileMove} (h : Books config p)
    (hstep : Pool.step (program config sort) p a = some q) :
    q.threads.map (·.job) = p.threads.map (·.job) := by
  obtain ⟨thread, shared, thread', new, hl, hs, rfl⟩ := Pool.step_eq_some.mp hstep
  obtain ⟨rfl, hkeeps⟩ := program_keeps (h.jobs _ (List.mem_of_getElem? hl)) hs
  have hjob : (p.threads.map (·.job))[a.1]? = some thread'.job := by
    rw [List.getElem?_map, hl, hkeeps.job]
    rfl
  obtain ⟨hlt, hget⟩ := List.getElem?_eq_some_iff.mp hjob
  rw [List.append_nil, List.map_set, ← hget, List.set_getElem_self]

/-- Two workers, and tiles of eight rows. -/
def twoWorkers : LeafAdsOperatorConfig := .fromParams ⟨true, false, 2, 4, 8, 8, 0, 1, 1, 1, 0⟩ 4

def rowNumbers (tileStart tileEnd : Nat) : List Nat := (List.range tileEnd).drop tileStart

theorem rowNumbers_length (tileStart tileEnd : Nat) (_ : tileStart < tileEnd)
    (_ : tileEnd ≤ tileStart + ADS_QUERY_TILE) :
    (rowNumbers tileStart tileEnd).length = tileEnd - tileStart := by
  rw [rowNumbers, List.length_drop, List.length_range]

def twentyRows : LeafAdsJob Nat := ⟨20, rowNumbers, rowNumbers_length⟩

/-- The workers step in turn, until one of them is left with the last tile. -/
def twentyRowsRun : List (Nat × TileMove) :=
  let thread := (0, TileMove.thread false)
  let worker (j : Nat) := (0, TileMove.worker j 1000 false false)
  List.replicate 5 thread ++ (List.replicate 8 [worker 0, worker 1]).flatten ++
    List.replicate 3 (worker 0) ++ List.replicate 3 thread

end LeafAds

end ForgeANN
