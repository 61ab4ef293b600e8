-- SUMMARY: When the streaming assignment can come to a stop with the consumer blocked on the channel it has to empty.
import ForgeANN.Rbc.AdsStreamingRuns

/-!
# Hangs of the streaming assignment

While it helps, the consumer sends like any other thread, and nobody receives.
It hangs where the others can fill the channel before it has sent.
-/
namespace ForgeANN

open Lib

namespace AdsStreaming

variable {call : Call} {s t : State}

/-! ## Every run comes to an end -/

def Job.stepsLeft : Job → Nat
  | .computing _ => 5
  | .sending _ _ => 4

def jobStepsLeft : Option Job → Nat
  | some job => job.stepsLeft
  | none => 0

def ConsumerPc.stepsLeft (call : Call) : ConsumerPc → Nat
  | .spawning chunkIdx => 7 * (call.chunks - chunkIdx) + 2
  | .polling => 1
  | .helping job => 1 + job.stepsLeft
  | .draining => 2
  | .finished _ => 0

/-- What all chunks together have left to be done, and the consumer. -/
def State.stepsLeft (call : Call) (s : State) : Nat :=
  6 * s.jobs.length + 3 * s.channel.length + s.pending.length +
    (s.helpers.map jobStepsLeft).sum + s.consumer.stepsLeft call

theorem runJob_stepsLeft {job : Job} {job' : Option Job}
    (h : s.runJob call job = some (t, job')) : ∃ channel, t = { s with channel } ∧
      3 * channel.length + jobStepsLeft job' < 3 * s.channel.length + job.stepsLeft := by
  rcases runJob_cases h with ⟨i, rfl, rfl, rfl⟩ | ⟨i, chunk, rfl, -, rfl, rfl⟩
  · exact ⟨t.channel, rfl, Nat.lt_succ_self _⟩
  · refine ⟨_, rfl, ?_⟩
    rw [List.length_append]
    exact Nat.lt_succ_self _

theorem takeJob_stepsLeft {take : Nat} {job : Job} (h : s.takeJob take = some (t, job)) :
    ∃ jobs, t = { s with jobs } ∧ 6 * jobs.length + job.stepsLeft < 6 * s.jobs.length := by
  obtain ⟨i, hi, rfl, rfl⟩ := takeJob_cases h
  obtain ⟨hlt, -⟩ := List.getElem?_eq_some_iff.mp hi
  refine ⟨_, rfl, ?_⟩
  rw [List.length_eraseIdx_of_lt hlt, Job.stepsLeft]
  omega

theorem thenConsumer_stepsLeft (job : Option Job) :
    (thenConsumer job).stepsLeft call = 1 + jobStepsLeft job := by
  cases job <;> rfl

theorem consumerStep_stepsLeft {take : Nat} (h : s.consumerStep call take = some t) :
    t.stepsLeft call < s.stepsLeft call := by
  cases hconsumer : s.consumer with
  | spawning i =>
      rw [State.consumerStep, hconsumer] at h
      simp only at h
      split_ifs at h with hi
      · cases h
        simp only [State.stepsLeft, hconsumer, ConsumerPc.stepsLeft, List.length_append,
          List.length_singleton]
        omega
      · cases h
        simp only [State.stepsLeft, hconsumer, ConsumerPc.stepsLeft]
        omega
  | polling =>
      rw [State.consumerStep, hconsumer] at h
      rcases poll_cases h with ⟨message, channel, hchannel, rfl⟩ | ⟨-, -, rfl⟩ |
        ⟨-, u, job, htake, rfl⟩
      · have hput := Pending.length_put_le s.pending message.1 message.2
        simp only [State.stepsLeft, hconsumer, hchannel, ConsumerPc.stepsLeft, List.length_cons]
        omega
      · simp only [State.stepsLeft, hconsumer, ConsumerPc.stepsLeft]
        omega
      · obtain ⟨jobs, rfl, hlt⟩ := takeJob_stepsLeft htake
        simp only [State.stepsLeft, hconsumer, ConsumerPc.stepsLeft]
        omega
  | helping job =>
      obtain ⟨u, job', hrun, rfl⟩ := helping_cases hconsumer h
      obtain ⟨channel, rfl, hlt⟩ := runJob_stepsLeft hrun
      have hbefore : s.consumer.stepsLeft call = 1 + job.stepsLeft := by rw [hconsumer]; rfl
      simp only [State.stepsLeft, hbefore, thenConsumer_stepsLeft]
      omega
  | draining =>
      rw [State.consumerStep, hconsumer] at h
      cases h
      rw [State.drain]
      split
      · rename_i chunk pending htake
        have hlt := Pending.length_lt_of_take? htake
        simp only [State.stepsLeft]
        omega
      · simp only [State.stepsLeft, hconsumer, ConsumerPc.stepsLeft]
        omega
  | finished result =>
      rw [State.consumerStep, hconsumer] at h
      cases h

theorem helperStep_stepsLeft {j take : Nat} (h : s.helperStep call j take = some t) :
    t.stepsLeft call < s.stepsLeft call := by
  rcases helperStep_cases h with ⟨hj, u, job, htake, rfl⟩ | ⟨job, u, job', hj, hrun, rfl⟩
  · obtain ⟨jobs, rfl, hlt⟩ := takeJob_stepsLeft htake
    have hset : ((s.helpers.set j (some job)).map jobStepsLeft).sum + jobStepsLeft none =
      (s.helpers.map jobStepsLeft).sum + jobStepsLeft (some job) := Pool.sum_map_set hj
    simp only [State.stepsLeft, jobStepsLeft] at hset ⊢
    omega
  · obtain ⟨channel, rfl, hlt⟩ := runJob_stepsLeft hrun
    have hset : ((s.helpers.set j job').map jobStepsLeft).sum + jobStepsLeft (some job) =
      (s.helpers.map jobStepsLeft).sum + jobStepsLeft job' := Pool.sum_map_set hj
    have hjob : jobStepsLeft (some job) = job.stepsLeft := rfl
    simp only [State.stepsLeft]
    omega

theorem step_stepsLeft {a : Action} (h : step call s a = some t) :
    t.stepsLeft call < s.stepsLeft call := by
  cases a with
  | consumer take => exact consumerStep_stepsLeft h
  | helper j take => exact helperStep_stepsLeft h

theorem initial_stepsLeft (call : Call) : (initial call).stepsLeft call = 7 * call.chunks + 2 := by
  simp [State.stepsLeft, initial, ConsumerPc.stepsLeft, jobStepsLeft]

/-! ## Where nothing moves -/

def State.Returned (s : State) : Prop := ∃ result, s.consumer = .finished result

/-- The consumer is sending, and the channel is full. -/
def State.Blocked (call : Call) (s : State) : Prop :=
  (∃ job, s.consumer = .helping job) ∧ ¬ s.channel.length < call.capacity

theorem capacity_pos (call : Call) : 0 < call.capacity := by
  rw [Call.capacity]
  omega

theorem runJob_isSome (hroom : s.channel.length < call.capacity) (job : Job) :
    ∃ after, s.runJob call job = some after := by
  cases job with
  | computing i => exact ⟨_, rfl⟩
  | sending i chunk => exact ⟨_, if_pos hroom⟩

/-- Where no thread can move, the call has returned or its consumer is blocked. -/
theorem returned_or_blocked (hhalted : Halted (step call) s) : s.Returned ∨ s.Blocked call := by
  have hconsumerStep : ∀ take, s.consumerStep call take = none := fun take =>
    hhalted (.consumer take)
  have hhelperStep : ∀ j take, s.helperStep call j take = none := fun j take =>
    hhalted (.helper j take)
  cases hconsumer : s.consumer with
  | spawning i =>
      have h := hconsumerStep 0
      rw [State.consumerStep, hconsumer] at h
      simp only at h
      split_ifs at h
  | polling =>
      have h := hconsumerStep 0
      rw [State.consumerStep, hconsumer] at h
      simp only [State.poll] at h
      split at h
      · cases h
      · rename_i hchannel
        have hroom : s.channel.length < call.capacity := by
          rw [hchannel]
          exact capacity_pos call
        split_ifs at h with hdisconnected
        rw [Option.map_eq_none_iff, State.takeJob] at h
        split at h
        · cases h
        · rename_i hjobs
          have hjobs : s.jobs = [] :=
            List.eq_nil_of_length_eq_zero (Nat.le_zero.mp (List.getElem?_eq_none_iff.mp hjobs))
          -- no job is queued, so some helper still has one, and there is room to send
          rw [State.disconnected, hjobs, List.isEmpty_nil, Bool.true_and,
            List.all_eq_true] at hdisconnected
          obtain ⟨helper, hmem, hbusy⟩ := not_forall₂.mp hdisconnected
          rw [Bool.not_eq_true, Option.isNone_eq_false_iff] at hbusy
          obtain ⟨job, rfl⟩ := Option.isSome_iff_exists.mp hbusy
          obtain ⟨j, hj⟩ := List.mem_iff_getElem?.mp hmem
          obtain ⟨after, hafter⟩ := runJob_isSome hroom job
          have hstep := hhelperStep j 0
          simp only [State.helperStep, hj, hafter, Option.map_some] at hstep
          cases hstep
  | helping job =>
      refine .inr ⟨⟨job, hconsumer⟩, fun hroom => ?_⟩
      have h := hconsumerStep 0
      obtain ⟨after, hafter⟩ := runJob_isSome hroom job
      simp only [State.consumerStep, hconsumer, hafter, Option.map_some] at h
      cases h
  | draining =>
      have h := hconsumerStep 0
      rw [State.consumerStep, hconsumer] at h
      cases h
  | finished result => exact .inl ⟨result, hconsumer⟩

/-- A blocked consumer stays blocked, whatever the helpers do. -/
theorem State.Blocked.step {a : Action} (h : s.Blocked call) (hs : step call s a = some t) :
    t.Blocked call := by
  obtain ⟨⟨job, hconsumer⟩, hfull⟩ := h
  cases a with
  | consumer take =>
      obtain ⟨u, job', hrun, rfl⟩ := helping_cases hconsumer hs
      rcases runJob_cases hrun with ⟨i, -, rfl, rfl⟩ | ⟨i, chunk, -, hroom, -, -⟩
      · exact ⟨⟨_, rfl⟩, hfull⟩
      · exact absurd hroom hfull
  | helper j take =>
      rcases helperStep_cases hs with ⟨-, u, other, htake, rfl⟩ | ⟨other, u, job', -, hrun, rfl⟩
      · obtain ⟨i, -, rfl, -⟩ := takeJob_cases htake
        exact ⟨⟨job, hconsumer⟩, hfull⟩
      · rcases runJob_cases hrun with ⟨i, -, rfl, -⟩ | ⟨i, chunk, -, hroom, -, -⟩
        · exact ⟨⟨job, hconsumer⟩, hfull⟩
        · exact absurd hroom hfull

/-! ## No hang -/

/-- A consumer on its own helps only while there is nothing to receive. -/
def Alone (s : State) : Prop := s.helpers = [] ∧ ∀ job, s.consumer = .helping job → s.channel = []

theorem Alone.step {a : Action} (h : Alone s) (hs : AdsStreaming.step call s a = some t) :
    Alone t := by
  obtain ⟨hhelpers, hhelping⟩ := h
  cases a with
  | consumer take =>
      have hs : s.consumerStep call take = some t := hs
      cases hconsumer : s.consumer with
      | spawning i =>
          rw [State.consumerStep, hconsumer] at hs
          simp only at hs
          split_ifs at hs
          · cases hs
            exact ⟨hhelpers, fun job hjob => (by cases hjob)⟩
          · cases hs
            exact ⟨hhelpers, fun job hjob => (by cases hjob)⟩
      | polling =>
          rw [State.consumerStep, hconsumer] at hs
          rcases poll_cases hs with ⟨message, channel, -, rfl⟩ | ⟨-, -, rfl⟩ |
            ⟨hchannel, u, job, htake, rfl⟩
          · exact ⟨hhelpers, fun job hjob => (by cases hjob)⟩
          · exact ⟨hhelpers, fun job hjob => (by cases hjob)⟩
          · obtain ⟨i, -, rfl, -⟩ := takeJob_cases htake
            exact ⟨hhelpers, fun _ _ => hchannel⟩
      | helping job =>
          obtain ⟨u, job', hrun, rfl⟩ := helping_cases hconsumer hs
          rcases runJob_cases hrun with ⟨i, -, rfl, rfl⟩ | ⟨i, chunk, -, -, rfl, rfl⟩
          · exact ⟨hhelpers, fun _ _ => hhelping job hconsumer⟩
          · exact ⟨hhelpers, fun job hjob => (by cases hjob)⟩
      | draining =>
          rw [State.consumerStep, hconsumer] at hs
          cases hs
          rw [State.drain]
          split
          · refine ⟨hhelpers, fun job hjob => ?_⟩
            rw [hconsumer] at hjob
            cases hjob
          · exact ⟨hhelpers, fun job hjob => (by cases hjob)⟩
      | finished result =>
          rw [State.consumerStep, hconsumer] at hs
          cases hs
  | helper j take =>
      have hnone : s.helpers[j]? = none := by
        rw [hhelpers]
        rfl
      rcases helperStep_cases hs with ⟨hj, -⟩ | ⟨job, u, job', hj, -, -⟩
      · rw [hnone] at hj
        cases hj
      · rw [hnone] at hj
        cases hj

/-- A blocked consumer holds a chunk beside those in the channel. -/
theorem Books.capacity_lt (h : Books call s) (hblocked : s.Blocked call) :
    call.capacity < call.chunks := by
  obtain ⟨⟨job, hconsumer⟩, hfull⟩ := hblocked
  have hweighed := h.weighed fun _ => 1
  rw [State.weighed, hconsumer] at hweighed
  simp only [ConsumerPc.job, ConsumerPc.spawned, held, List.map_const', List.sum_replicate_nat,
    List.length_range, Nat.mul_one] at hweighed
  omega

/-! ## A hang -/

/-- The consumer has spawned the first chunks, and no thread has begun any. -/
def spawnedTo (call : Call) (i : Nat) : State :=
  { initial call with jobs := List.range i, consumer := .spawning i }

theorem reaches_spawnedTo {i : Nat} (h : i ≤ call.chunks) :
    Reaches (step call) (initial call) (spawnedTo call i) := by
  induction i with
  | zero => exact .refl _
  | succ i ih =>
      refine (ih (Nat.le_of_succ_le h)).tail (a := .consumer 0) ?_
      have hlt : i < call.chunks := h
      simp only [step, State.consumerStep, spawnedTo, if_pos hlt, ← List.range_succ]

/-- The consumer computes a chunk of its own, and others are in the channel. -/
def Filled (call : Call) (s : State) (sent : Nat) : Prop :=
  (∃ job, s.consumer = .helping job) ∧ s.channel.length = sent ∧
    call.chunks = s.jobs.length + sent + 1 ∧ s.helpers[0]? = some none

theorem reaches_filled (hhelper : 2 ≤ call.currentNumThreads) (hchunks : 0 < call.chunks) :
    ∃ s, Reaches (step call) (initial call) s ∧ Filled call s 0 := by
  have hspawned := reaches_spawnedTo (Nat.le_refl call.chunks)
  have hall : step call (spawnedTo call call.chunks) (.consumer 0) =
      some { spawnedTo call call.chunks with consumer := .polling } := by
    simp only [step, State.consumerStep, spawnedTo, if_neg (Nat.lt_irrefl _)]
  have hfirst : (List.range call.chunks)[0]? = some 0 := by
    rw [List.getElem?_range hchunks]
  have htake : step call { spawnedTo call call.chunks with consumer := .polling } (.consumer 0) =
      some { spawnedTo call call.chunks with
        jobs := (List.range call.chunks).eraseIdx 0, consumer := .helping (.computing 0) } := by
    have hbusy : (List.range call.chunks).isEmpty = false := by
      rw [List.isEmpty_eq_false_iff, Ne, List.range_eq_nil]
      exact Nat.ne_of_gt hchunks
    simp only [step, State.consumerStep, State.poll, spawnedTo, initial, State.disconnected, hbusy,
      State.takeJob, hfirst]
    rfl
  refine ⟨_, (hspawned.tail hall).tail htake, ⟨_, rfl⟩, rfl, ?_, ?_⟩
  · have hlt : 0 < (List.range call.chunks).length := by rwa [List.length_range]
    simp only [List.length_eraseIdx_of_lt hlt, List.length_range]
    omega
  · simp only [spawnedTo, initial, List.getElem?_replicate]
    rw [if_pos (by omega)]

/-- An idle helper can take a job and send what it computes. -/
theorem reaches_sent {j i : Nat} (hidle : s.helpers[j]? = some none) (hi : s.jobs[0]? = some i)
    (hroom : s.channel.length < call.capacity) :
    Reaches (step call) s { s with
      jobs := s.jobs.eraseIdx 0, channel := s.channel ++ [(i, call.assignChunk i)] } := by
  obtain ⟨hlt, hnone⟩ := List.getElem?_eq_some_iff.mp hidle
  have hset : ∀ job : Option Job, (s.helpers.set j job)[j]? = some job := fun job =>
    List.getElem?_set_self hlt
  have hback : s.helpers.set j none = s.helpers := by
    rw [← hnone, List.set_getElem_self]
  have htake : step call s (.helper j 0) = some { s with
      jobs := s.jobs.eraseIdx 0, helpers := s.helpers.set j (some (.computing i)) } := by
    simp only [step, State.helperStep, hidle, State.takeJob, hi, Option.map_some]
  have hcompute : step call { s with
        jobs := s.jobs.eraseIdx 0, helpers := s.helpers.set j (some (.computing i)) }
      (.helper j 0) = some { s with
        jobs := s.jobs.eraseIdx 0
        helpers := s.helpers.set j (some (.sending i (call.assignChunk i))) } := by
    simp only [step, State.helperStep, hset, State.runJob, Option.map_some, List.set_set]
  have hsend : step call { s with
        jobs := s.jobs.eraseIdx 0
        helpers := s.helpers.set j (some (.sending i (call.assignChunk i))) }
      (.helper j 0) = some { s with
        jobs := s.jobs.eraseIdx 0, channel := s.channel ++ [(i, call.assignChunk i)] } := by
    simp only [step, State.helperStep, hset, State.runJob, if_pos hroom, Option.map_some,
      List.set_set, hback]
  exact ((Reaches.single htake).tail hcompute).tail hsend

theorem reaches_full {sent : Nat} (hhelper : 2 ≤ call.currentNumThreads)
    (hroom : sent ≤ call.capacity) (hchunks : sent < call.chunks) :
    ∃ s, Reaches (step call) (initial call) s ∧ Filled call s sent := by
  induction sent with
  | zero => exact reaches_filled hhelper hchunks
  | succ sent ih =>
      obtain ⟨s, hs, hconsumer, hsent, hall, hidle⟩ :=
        ih (Nat.le_of_succ_le hroom) (Nat.lt_of_succ_lt hchunks)
      have hjobs : 0 < s.jobs.length := by omega
      have hspace : s.channel.length < call.capacity := by
        rw [hsent]
        exact hroom
      refine ⟨_, hs.trans (reaches_sent hidle (List.getElem?_eq_getElem hjobs) hspace), hconsumer,
        ?_, ?_, hidle⟩
      · rw [List.length_append, hsent, List.length_singleton]
      · rw [List.length_eraseIdx_of_lt hjobs]
        omega

/-! ## When it hangs -/

theorem lt_ceil_div_iff {k n d : Nat} (hd : 0 < d) : k < (n + d - 1) / d ↔ k * d < n := by
  rw [← Nat.succ_le_iff, Nat.le_div_iff_mul_le hd, Nat.succ_mul]
  omega

/-- Chunks are of the greatest size, or there is at most one for each thread. -/
theorem chunkRows_cases (call : Call) : call.chunkRows = ADS_ASSIGN_MAX_CHUNK_ROWS ∨
    call.cur.length ≤ max call.currentNumThreads 1 * call.chunkRows := by
  rw [Call.chunkRows, chooseAdsamplingAssignmentChunkRowsForThreads]
  split_ifs with hempty
  · exact .inr (hempty ▸ Nat.zero_le _)
  · simp only
    generalize hthreads : max call.currentNumThreads 1 = threads
    generalize hblocks : min (max threads 1) (max ((call.cur.length + ADS_ASSIGN_MIN_CHUNK_ROWS - 1) /
      ADS_ASSIGN_MIN_CHUNK_ROWS) 1) = blocks
    have hpos : 0 < blocks := by omega
    have hle : blocks ≤ threads := by omega
    by_cases hsmall : (call.cur.length + blocks - 1) / blocks ≤ ADS_ASSIGN_MAX_CHUNK_ROWS
    · refine .inr ?_
      rw [min_eq_left hsmall]
      generalize hrows : (call.cur.length + blocks - 1) / blocks = rows
      have hcover : call.cur.length ≤ rows * blocks := by
        by_contra hmore
        have hlt := (lt_ceil_div_iff hpos).mpr (Nat.lt_of_not_le hmore)
        exact Nat.lt_irrefl rows (hrows ▸ hlt)
      calc call.cur.length ≤ rows * blocks := hcover
        _ ≤ max ADS_ASSIGN_MIN_CHUNK_ROWS rows * threads :=
            Nat.mul_le_mul (le_max_right _ _) hle
        _ = threads * max ADS_ASSIGN_MIN_CHUNK_ROWS rows := Nat.mul_comm _ _
    · refine .inl ?_
      rw [min_eq_right (Nat.le_of_not_le hsmall)]
      rfl

theorem chunkRows_bounds (call : Call) :
    0 < call.chunkRows ∧ call.chunkRows ≤ ADS_ASSIGN_MAX_CHUNK_ROWS := by
  have hmin : 0 < ADS_ASSIGN_MIN_CHUNK_ROWS := by decide
  have hle : ADS_ASSIGN_MIN_CHUNK_ROWS ≤ ADS_ASSIGN_MAX_CHUNK_ROWS := by decide
  rw [Call.chunkRows, chooseAdsamplingAssignmentChunkRowsForThreads]
  split_ifs
  · exact ⟨hmin, hle⟩
  · exact ⟨hmin.trans_le (le_max_left _ _), max_le hle (min_le_right _ _)⟩

/-- There are more chunks than the channel has room for exactly where chunks of the greatest size
cannot be so few. -/
theorem capacity_lt_chunks_iff (call : Call) : call.capacity < call.chunks ↔
    max call.currentNumThreads 1 * 2 * ADS_ASSIGN_MAX_CHUNK_ROWS < call.cur.length := by
  obtain ⟨hpos, hle⟩ := chunkRows_bounds call
  rw [Call.chunks, lt_ceil_div_iff hpos, Call.capacity]
  constructor
  · intro hlt
    rcases chunkRows_cases call with heq | hfew
    · rwa [heq] at hlt
    · rw [Nat.mul_right_comm] at hlt
      omega
  · exact (Nat.mul_le_mul_left _ hle).trans_lt

/-- Every run of the assignment comes to an end. It can be the hang of a consumer that sends to the
full channel exactly where the pool has a second thread and the points do not fit in as many chunks
as the channel has room for. -/
theorem streaming_hangs_iff (call : Call) :
    (∀ as s, Run (step call) (initial call) as s → as.length ≤ 7 * call.chunks + 2) ∧
      ((∃ s, Reaches (step call) (initial call) s ∧ Halted (step call) s ∧ ¬ s.Returned) ↔
        2 ≤ call.currentNumThreads ∧
          2 * call.currentNumThreads * ADS_ASSIGN_MAX_CHUNK_ROWS < call.cur.length) := by
  refine ⟨fun as s hrun => ?_, ⟨?_, ?_⟩⟩
  · have hle := hrun.length_add_le (P := fun _ => True) (fun _ _ _ _ _ => trivial)
      (fun _ _ _ _ h => step_stepsLeft h) trivial
    rw [initial_stepsLeft] at hle
    omega
  · rintro ⟨s, hreaches, hhalted, hreturned⟩
    have hblocked := (returned_or_blocked hhalted).resolve_left hreturned
    have hthreads : 2 ≤ call.currentNumThreads := by
      by_contra hfew
      have hstart : Alone (initial call) := by
        refine ⟨?_, fun job hjob => (by cases hjob)⟩
        rw [initial, Nat.sub_eq_zero_of_le (Nat.le_of_lt_succ (Nat.lt_of_not_le hfew))]
        rfl
      have halone : Alone s := hreaches.invariant hstart fun _ _ _ => Alone.step
      obtain ⟨⟨job, hconsumer⟩, hfull⟩ := hblocked
      rw [halone.2 job hconsumer] at hfull
      exact hfull (capacity_pos call)
    refine ⟨hthreads, ?_⟩
    have hlt := (capacity_lt_chunks_iff call).mp ((books_of_reaches hreaches).capacity_lt hblocked)
    rwa [max_eq_left (by omega), Nat.mul_comm call.currentNumThreads] at hlt
  · rintro ⟨hthreads, hpoints⟩
    have hlt : call.capacity < call.chunks := by
      rw [capacity_lt_chunks_iff, max_eq_left (by omega), Nat.mul_comm call.currentNumThreads]
      exact hpoints
    obtain ⟨s, hs, hconsumer, hsent, -, -⟩ := reaches_full hthreads (Nat.le_refl _) hlt
    have hblocked : s.Blocked call := ⟨hconsumer, by rw [hsent]; exact Nat.lt_irrefl _⟩
    have hkeep : ∀ s a t, s.Blocked call → step call s a = some t → t.Blocked call :=
      fun _ _ _ h hs => h.step hs
    obtain ⟨as, t, -, hrun, hhalted⟩ := exists_halted (C := fun _ => True) hkeep
      (fun _ _ _ _ h => step_stepsLeft h) (fun _ a u h => ⟨a, u, trivial, h⟩) hblocked
    have hstill : t.Blocked call := hrun.invariant hblocked hkeep
    refine ⟨t, hs.trans ⟨as, hrun⟩, hhalted, ?_⟩
    rintro ⟨result, hfinished⟩
    obtain ⟨⟨job, hconsumer⟩, -⟩ := hstill
    rw [hfinished] at hconsumer
    cases hconsumer

end AdsStreaming

end ForgeANN
