-- SUMMARY: However the pool schedules the streaming assignment, it returns what the plain loop over chunks returns.
import ForgeANN.Lib.Pool
import ForgeANN.Rbc.AdsStreaming
import Mathlib.Algebra.BigOperators.Group.List.Basic

/-!
# Runs of the streaming assignment

Every chunk spawned is in one place: queued, on the stack of a thread, in the
channel, pending or visited. So the chunks are visited one after the other, and
when every sender is gone they have all been visited.
-/
namespace ForgeANN

open Lib

namespace AdsStreaming

variable {call : Call} {s t : State}

/-! ## What a step can do -/

theorem runJob_cases {job : Job} {job' : Option Job} (h : s.runJob call job = some (t, job')) :
    (∃ i, job = .computing i ∧ t = s ∧ job' = some (.sending i (call.assignChunk i))) ∨
      ∃ i chunk, job = .sending i chunk ∧ s.channel.length < call.capacity ∧
        t = { s with channel := s.channel ++ [(i, chunk)] } ∧ job' = none := by
  cases job with
  | computing i =>
      rw [State.runJob, Option.some.injEq, Prod.mk.injEq] at h
      exact .inl ⟨i, rfl, h.1.symm, h.2.symm⟩
  | sending i chunk =>
      rw [State.runJob] at h
      split_ifs at h with hroom
      rw [Option.some.injEq, Prod.mk.injEq] at h
      exact .inr ⟨i, chunk, rfl, hroom, h.1.symm, h.2.symm⟩

theorem takeJob_cases {take : Nat} {job : Job} (h : s.takeJob take = some (t, job)) :
    ∃ i, s.jobs[take]? = some i ∧ t = { s with jobs := s.jobs.eraseIdx take } ∧
      job = .computing i := by
  rw [State.takeJob] at h
  split at h
  · rename_i i hi
    rw [Option.some.injEq, Prod.mk.injEq] at h
    exact ⟨i, hi, h.1.symm, h.2.symm⟩
  · cases h

theorem poll_cases {take : Nat} (h : s.poll take = some t) :
    (∃ message channel, s.channel = message :: channel ∧ t = { s with
        channel, pending := s.pending.put message.1 message.2, consumer := .draining }) ∨
      (s.channel = [] ∧ s.disconnected = true ∧
        t = { s with consumer := .finished s.visits.result }) ∨
      s.channel = [] ∧ ∃ u job, s.takeJob take = some (u, job) ∧
        t = { u with consumer := .helping job } := by
  rw [State.poll] at h
  split at h
  · rename_i message channel hchannel
    exact .inl ⟨message, channel, hchannel, (Option.some.inj h).symm⟩
  · rename_i hchannel
    split_ifs at h with hdisconnected
    · exact .inr (.inl ⟨hchannel, hdisconnected, (Option.some.inj h).symm⟩)
    · obtain ⟨⟨u, job⟩, htake, rfl⟩ := Option.map_eq_some_iff.mp h
      exact .inr (.inr ⟨hchannel, u, job, htake, rfl⟩)

def thenConsumer : Option Job → ConsumerPc
  | some job => .helping job
  | none => .polling

theorem helping_cases {job : Job} {take : Nat} (hhelping : s.consumer = .helping job)
    (h : s.consumerStep call take = some t) : ∃ u job', s.runJob call job = some (u, job') ∧
      t = { u with consumer := thenConsumer job' } := by
  rw [State.consumerStep, hhelping] at h
  obtain ⟨⟨u, job'⟩, hrun, rfl⟩ := Option.map_eq_some_iff.mp h
  refine ⟨u, job', hrun, ?_⟩
  cases job' <;> rfl

theorem helperStep_cases {j take : Nat} (h : s.helperStep call j take = some t) :
    (s.helpers[j]? = some none ∧ ∃ u job, s.takeJob take = some (u, job) ∧
        t = { u with helpers := s.helpers.set j (some job) }) ∨
      ∃ job u job', s.helpers[j]? = some (some job) ∧ s.runJob call job = some (u, job') ∧
        t = { u with helpers := s.helpers.set j job' } := by
  rw [State.helperStep] at h
  split at h
  · rename_i hj
    obtain ⟨⟨u, job⟩, htake, rfl⟩ := Option.map_eq_some_iff.mp h
    exact .inl ⟨hj, u, job, htake, rfl⟩
  · rename_i job hj
    obtain ⟨⟨u, job'⟩, hrun, rfl⟩ := Option.map_eq_some_iff.mp h
    exact .inr ⟨job, u, job', hj, hrun, rfl⟩
  · cases h

/-! ## Where the chunks are -/

def Job.chunkIdx : Job → Nat
  | .computing chunkIdx => chunkIdx
  | .sending chunkIdx _ => chunkIdx

def Job.Genuine (call : Call) : Job → Prop
  | .computing _ => True
  | .sending chunkIdx chunk => chunk = call.assignChunk chunkIdx

def ConsumerPc.job : ConsumerPc → Option Job
  | .helping job => some job
  | _ => none

/-- How many chunks are spawned so far. -/
def ConsumerPc.spawned (call : Call) : ConsumerPc → Nat
  | .spawning chunkIdx => chunkIdx
  | _ => call.chunks

/-- What a weight gives to the chunk on the stack of a thread. -/
def held (weight : Nat → Nat) : Option Job → Nat
  | some job => weight job.chunkIdx
  | none => 0

/-- What a weight gives to all chunks that are spawned, place by place. -/
def State.weighed (s : State) (weight : Nat → Nat) : Nat :=
  (s.jobs.map weight).sum + held weight s.consumer.job + (s.helpers.map (held weight)).sum +
    (s.channel.map fun message => weight message.1).sum +
    (s.pending.map fun entry => weight entry.1).sum + ((List.range s.nextChunk).map weight).sum

/-- Visiting what the jobs of the chunks leave. -/
def visitAll (call : Call) (visits : Visits) (chunks : List Nat) : Visits :=
  chunks.foldl (fun visits chunkIdx => visits.visit call (call.assignChunk chunkIdx)) visits

/-- Each chunk is in one place, with the result that is its own. -/
structure Books (call : Call) (s : State) : Prop where
  weighed : ∀ weight, s.weighed weight = ((List.range (s.consumer.spawned call)).map weight).sum
  spawned : s.consumer.spawned call ≤ call.chunks
  consumer : ∀ job ∈ s.consumer.job, job.Genuine call
  helpers : ∀ job, some job ∈ s.helpers → job.Genuine call
  channel : ∀ message ∈ s.channel, message.2 = call.assignChunk message.1
  pending : ∀ entry ∈ s.pending, entry.2 = call.assignChunk entry.1
  visits : s.visits = visitAll call .start (List.range s.nextChunk)
  /-- Only while it drains may the consumer hold the chunk whose turn it is. -/
  turn : s.consumer = .draining ∨ s.nextChunk ∉ s.pending.map Prod.fst
  finished : ∀ result, s.consumer = .finished result →
    s.nextChunk = call.chunks ∧ result = s.visits.result

theorem sum_map_single (l : List Nat) (i : Nat) :
    (l.map fun k => if k = i then 1 else 0).sum = l.count i := by
  induction l with
  | nil => rfl
  | cons k l ih =>
      rw [List.map_cons, List.sum_cons, ih, List.count_cons, Nat.add_comm]
      congr 1
      simp only [beq_iff_eq]

theorem initial_books (call : Call) : Books call (initial call) where
  weighed weight := by
    have hhelpers : ((List.replicate (call.currentNumThreads - 1) none).map (held weight)).sum = 0 := by
      rw [List.map_replicate, List.sum_replicate]
      exact Nat.mul_zero _
    simp only [State.weighed, initial, hhelpers]
    rfl
  spawned := Nat.zero_le _
  consumer job h := by cases h
  helpers job h := by cases List.eq_of_mem_replicate h
  channel message h := by cases h
  pending entry h := by cases h
  visits := rfl
  turn := .inr List.not_mem_nil
  finished result h := by cases h

/-! ## The books are kept -/

section

variable {weight : Nat → Nat}

theorem sum_map_snoc (l : List Nat) (i : Nat) :
    ((l ++ [i]).map weight).sum = (l.map weight).sum + weight i := by
  rw [List.map_append, List.sum_append, List.map_singleton, List.sum_singleton]

theorem sum_map_eraseIdx {l : List Nat} {k i : Nat} (h : l[k]? = some i) :
    (l.map weight).sum = ((l.eraseIdx k).map weight).sum + weight i := by
  obtain ⟨hk, rfl⟩ := List.getElem?_eq_some_iff.mp h
  have hperm := (List.getElem_cons_eraseIdx_perm hk).map weight
  rw [← hperm.sum_eq, List.map_cons, List.sum_cons, Nat.add_comm]

end

theorem visitAll_range_succ (v : Visits) (n : Nat) : visitAll call v (List.range (n + 1)) =
    (visitAll call v (List.range n)).visit call (call.assignChunk n) := by
  rw [visitAll, List.range_succ, List.foldl_append, List.foldl_cons, List.foldl_nil]
  rfl

/-- In how many places a chunk is: one, once it is spawned. -/
theorem Books.places (h : Books call s) (i : Nat) :
    s.jobs.count i + held (fun k => if k = i then 1 else 0) s.consumer.job +
      (s.helpers.map (held fun k => if k = i then 1 else 0)).sum +
      (s.channel.map Prod.fst).count i + (s.pending.map Prod.fst).count i +
      (if i < s.nextChunk then 1 else 0) = if i < s.consumer.spawned call then 1 else 0 := by
  have hweighed := h.weighed fun k => if k = i then 1 else 0
  have hchannel := sum_map_single (s.channel.map Prod.fst) i
  have hpending := sum_map_single (s.pending.map Prod.fst) i
  rw [List.map_map] at hchannel hpending
  rw [State.weighed, sum_map_single, sum_map_single, sum_map_single] at hweighed
  rw [← hchannel, ← hpending, ← List.count_range, ← List.count_range]
  exact hweighed

theorem Books.pending_nodup (h : Books call s) : (s.pending.map Prod.fst).Nodup := by
  rw [List.nodup_iff_count_le_one]
  intro i
  have hplaces := h.places i
  split_ifs at hplaces <;> omega

/-- What has just been received is not pending yet. -/
theorem Books.not_pending {message : Nat × AnnResult AdSamplingChunkResult}
    {channel : List (Nat × AnnResult AdSamplingChunkResult)} (h : Books call s)
    (hchannel : s.channel = message :: channel) : message.1 ∉ s.pending.map Prod.fst := by
  rw [← List.count_eq_zero]
  have hplaces := h.places message.1
  rw [hchannel, List.map_cons, List.count_cons_self] at hplaces
  split_ifs at hplaces <;> omega

theorem Books.spawn {i : Nat} (h : Books call s) (hspawning : s.consumer = .spawning i)
    (hi : i < call.chunks) :
    Books call { s with jobs := s.jobs ++ [i], consumer := .spawning (i + 1) } where
  weighed weight := by
    have hweighed := h.weighed weight
    rw [State.weighed, hspawning] at hweighed
    simp only [State.weighed, ConsumerPc.job, ConsumerPc.spawned, held, sum_map_snoc,
      List.range_succ] at hweighed ⊢
    omega
  spawned := hi
  consumer job hjob := by cases hjob
  helpers := h.helpers
  channel := h.channel
  pending := h.pending
  visits := h.visits
  turn := .inr (h.turn.resolve_left (by rw [hspawning]; exact fun heq => by cases heq))
  finished result hfinished := by cases hfinished

theorem Books.spawned_all {i : Nat} (h : Books call s) (hspawning : s.consumer = .spawning i)
    (hi : ¬ i < call.chunks) : Books call { s with consumer := .polling } := by
  have hle := h.spawned
  rw [hspawning] at hle
  have hall : i = call.chunks := Nat.le_antisymm hle (Nat.le_of_not_lt hi)
  have hturn : s.nextChunk ∉ s.pending.map Prod.fst :=
    h.turn.resolve_left (by rw [hspawning]; exact fun heq => by cases heq)
  refine { h with weighed := fun weight => ?_, spawned := Nat.le_refl _, consumer := ?_,
                  turn := .inr hturn, finished := ?_ }
  · have hweighed := h.weighed weight
    rw [State.weighed, hspawning, ConsumerPc.spawned, hall] at hweighed
    exact hweighed
  · exact fun job hjob => by cases hjob
  · exact fun result hfinished => by cases hfinished

theorem Books.receive {message : Nat × AnnResult AdSamplingChunkResult}
    {channel : List (Nat × AnnResult AdSamplingChunkResult)} (h : Books call s)
    (hpolling : s.consumer = .polling) (hchannel : s.channel = message :: channel) :
    Books call { s with
      channel, pending := s.pending.put message.1 message.2, consumer := .draining } where
  weighed weight := by
    have hweighed := h.weighed weight
    rw [State.weighed, hpolling, hchannel] at hweighed
    simp only [State.weighed, Pending.put_of_not_mem (h.not_pending hchannel), List.map_cons,
      List.sum_cons, ConsumerPc.job, ConsumerPc.spawned] at hweighed ⊢
    omega
  spawned := Nat.le_refl _
  consumer job hjob := by cases hjob
  helpers := h.helpers
  channel other hother := h.channel other (by rw [hchannel]; exact List.mem_cons_of_mem _ hother)
  pending entry hentry := by
    rcases Pending.mem_put hentry with rfl | hentry
    · exact h.channel message (by rw [hchannel]; exact List.mem_cons_self)
    · exact h.pending entry hentry
  visits := h.visits
  turn := .inl rfl
  finished result hfinished := by cases hfinished

/-- Every sender is gone: all chunks have been visited. -/
theorem Books.finish (h : Books call s) (hpolling : s.consumer = .polling)
    (hchannel : s.channel = []) (hdisconnected : s.disconnected = true) :
    Books call { s with consumer := .finished s.visits.result } := by
  rw [State.disconnected, Bool.and_eq_true, List.isEmpty_iff, List.all_eq_true] at hdisconnected
  obtain ⟨hjobs, hhelpers⟩ := hdisconnected
  have hidle : ∀ weight, (s.helpers.map (held weight)).sum = 0 := by
    intro weight
    rw [List.sum_eq_zero]
    intro w hw
    obtain ⟨job, hjob, rfl⟩ := List.mem_map.mp hw
    rw [Option.isNone_iff_eq_none.mp (hhelpers job hjob)]
    rfl
  have hplaces : ∀ i, (s.pending.map Prod.fst).count i + (if i < s.nextChunk then 1 else 0) =
      if i < call.chunks then 1 else 0 := by
    intro i
    have hplaces := h.places i
    rw [hjobs, hchannel, hpolling, hidle] at hplaces
    simp only [List.count_nil, List.map_nil, ConsumerPc.job, held, Nat.zero_add] at hplaces
    exact hplaces
  have hall : s.nextChunk = call.chunks := by
    have hturn : (s.pending.map Prod.fst).count s.nextChunk = 0 :=
      List.count_eq_zero.mpr (h.turn.resolve_left (by rw [hpolling]; exact fun heq => by cases heq))
    have hnext := hplaces s.nextChunk
    have hlast := hplaces call.chunks
    rw [hturn, if_neg (Nat.lt_irrefl _)] at hnext
    rw [if_neg (Nat.lt_irrefl call.chunks)] at hlast
    split_ifs at hnext hlast <;> omega
  refine { h with weighed := fun weight => ?_, spawned := Nat.le_refl _, consumer := ?_,
                  turn := .inr ?_, finished := ?_ }
  · have hweighed := h.weighed weight
    rw [State.weighed, hpolling] at hweighed
    exact hweighed
  · exact fun job hjob => by cases hjob
  · exact h.turn.resolve_left (by rw [hpolling]; exact fun heq => by cases heq)
  · intro result hfinished
    cases hfinished
    exact ⟨hall, rfl⟩

/-- A round of the loop visits the chunk whose turn it is. -/
theorem Books.drain (h : Books call s) (hdraining : s.consumer = .draining) :
    Books call (s.drain call) := by
  rw [State.drain]
  split
  · rename_i chunk pending htake
    obtain ⟨hmem, hrest⟩ := Pending.take?_eq_some htake
    have hchunk : chunk = call.assignChunk s.nextChunk := h.pending _ hmem
    refine { h with weighed := fun weight => ?_, pending := fun entry hentry => ?_, visits := ?_,
                    turn := .inl hdraining, finished := ?_ }
    · have hweighed := h.weighed weight
      have hperm := (Pending.take?_perm h.pending_nodup htake).map fun entry => weight entry.1
      have hpending := hperm.sum_eq
      rw [List.map_cons, List.sum_cons] at hpending
      simp only [State.weighed, hpending, List.range_succ, sum_map_snoc] at hweighed ⊢
      omega
    · exact h.pending entry (hrest entry hentry)
    · rw [visitAll_range_succ, ← h.visits, hchunk]
    · intro result hfinished
      rw [hdraining] at hfinished
      cases hfinished
  · rename_i htake
    refine { h with weighed := fun weight => ?_, spawned := Nat.le_refl _, consumer := ?_,
                    turn := .inr ?_, finished := ?_ }
    · have hweighed := h.weighed weight
      rw [State.weighed, hdraining] at hweighed
      exact hweighed
    · exact fun job hjob => by cases hjob
    · exact Pending.take?_eq_none.mp htake
    · exact fun result hfinished => by cases hfinished

/-- The consumer takes a job, or goes on with it. -/
theorem Books.help {job' : Option Job} {jobs : List Nat}
    {channel : List (Nat × AnnResult AdSamplingChunkResult)} (h : Books call s)
    (hspawned : s.consumer.spawned call = call.chunks)
    (hturn : s.nextChunk ∉ s.pending.map Prod.fst) (hjob : ∀ job ∈ job', job.Genuine call)
    (hchannel : ∀ message ∈ channel, message.2 = call.assignChunk message.1)
    (hweighed : ∀ weight, (jobs.map weight).sum + held weight job' +
        (channel.map fun message => weight message.1).sum =
      (s.jobs.map weight).sum + held weight s.consumer.job +
        (s.channel.map fun message => weight message.1).sum) :
    Books call { s with jobs, channel, consumer := thenConsumer job' } := by
  have hspawned' : (thenConsumer job').spawned call = call.chunks := by cases job' <;> rfl
  have hjob' : (thenConsumer job').job = job' := by cases job' <;> rfl
  refine { h with weighed := fun weight => ?_, spawned := Nat.le_of_eq hspawned', consumer := ?_,
                  channel := hchannel, turn := .inr hturn, finished := ?_ }
  · have hbefore := h.weighed weight
    have hsame := hweighed weight
    rw [hspawned] at hbefore
    simp only [State.weighed, hspawned', hjob'] at hbefore ⊢
    omega
  · simp only [hjob']
    exact hjob
  · intro result hfinished
    cases job' <;> cases hfinished

/-- A helper takes a job, or goes on with it. -/
theorem Books.helper {j : Nat} {before job' : Option Job} {jobs : List Nat}
    {channel : List (Nat × AnnResult AdSamplingChunkResult)} (h : Books call s)
    (hj : s.helpers[j]? = some before) (hjob : ∀ job ∈ job', job.Genuine call)
    (hchannel : ∀ message ∈ channel, message.2 = call.assignChunk message.1)
    (hweighed : ∀ weight, (jobs.map weight).sum + held weight job' +
        (channel.map fun message => weight message.1).sum =
      (s.jobs.map weight).sum + held weight before +
        (s.channel.map fun message => weight message.1).sum) :
    Books call { s with jobs, channel, helpers := s.helpers.set j job' } := by
  refine { h with weighed := fun weight => ?_, helpers := fun job hmem => ?_,
                  channel := hchannel }
  · have hbefore := h.weighed weight
    have hsame := hweighed weight
    have hset : ((s.helpers.set j job').map (held weight)).sum + held weight before =
      (s.helpers.map (held weight)).sum + held weight job' := Pool.sum_map_set hj
    simp only [State.weighed] at hbefore ⊢
    omega
  · rcases List.mem_or_eq_of_mem_set hmem with hmem | rfl
    · exact h.helpers job hmem
    · exact hjob job rfl

/-- What a step of a job changes: the job moves on, perhaps into the channel. -/
theorem runJob_books {job : Job} {job' : Option Job} (h : Books call s) (hjob : job.Genuine call)
    (hrun : s.runJob call job = some (t, job')) : ∃ channel, t = { s with channel } ∧
      (∀ job ∈ job', job.Genuine call) ∧
      (∀ message ∈ channel, message.2 = call.assignChunk message.1) ∧
      ∀ weight, (s.jobs.map weight).sum + held weight job' +
          (channel.map fun message => weight message.1).sum =
        (s.jobs.map weight).sum + held weight (some job) +
          (s.channel.map fun message => weight message.1).sum := by
  rcases runJob_cases hrun with ⟨i, rfl, rfl, rfl⟩ | ⟨i, chunk, rfl, -, rfl, rfl⟩
  · refine ⟨t.channel, rfl, ?_, h.channel, fun weight => rfl⟩
    intro job hmem
    cases hmem
    rfl
  · refine ⟨_, rfl, fun job hmem => (by cases hmem), fun message hmem => ?_, fun weight => ?_⟩
    · rcases List.mem_append.mp hmem with hmem | hmem
      · exact h.channel message hmem
      · rw [List.mem_singleton.mp hmem]
        exact hjob
    · rw [List.map_append, List.sum_append, List.map_singleton, List.sum_singleton]
      simp only [held, Job.chunkIdx]
      omega

theorem takeJob_books {take : Nat} {job : Job} (htake : s.takeJob take = some (t, job)) :
    ∃ jobs, t = { s with jobs } ∧ (∀ other ∈ some job, other.Genuine call) ∧
      ∀ weight, (jobs.map weight).sum + held weight (some job) = (s.jobs.map weight).sum := by
  obtain ⟨i, hi, rfl, rfl⟩ := takeJob_cases htake
  refine ⟨_, rfl, fun other hother => ?_, fun weight => (sum_map_eraseIdx hi).symm⟩
  cases hother
  trivial

theorem Books.step {a : Action} (h : Books call s) (hs : step call s a = some t) :
    Books call t := by
  cases a with
  | consumer take =>
      have hs : s.consumerStep call take = some t := hs
      cases hconsumer : s.consumer with
      | spawning i =>
          rw [State.consumerStep, hconsumer] at hs
          simp only at hs
          split_ifs at hs with hi
          · cases hs
            exact h.spawn hconsumer hi
          · cases hs
            exact h.spawned_all hconsumer hi
      | polling =>
          rw [State.consumerStep, hconsumer] at hs
          rcases poll_cases hs with ⟨message, channel, hchannel, rfl⟩ |
            ⟨hchannel, hdisconnected, rfl⟩ | ⟨hchannel, u, job, htake, rfl⟩
          · exact h.receive hconsumer hchannel
          · exact h.finish hconsumer hchannel hdisconnected
          · obtain ⟨jobs, rfl, hjob, hweighed⟩ := takeJob_books htake
            have hturn := h.turn.resolve_left (by rw [hconsumer]; exact fun heq => by cases heq)
            refine h.help (by rw [hconsumer]; rfl) hturn hjob h.channel fun weight => ?_
            rw [hweighed, hconsumer]
            rfl
      | helping job =>
          obtain ⟨u, job', hrun, rfl⟩ := helping_cases hconsumer hs
          have hturn := h.turn.resolve_left (by rw [hconsumer]; exact fun heq => by cases heq)
          have hjob : job.Genuine call := h.consumer job (by rw [hconsumer]; rfl)
          obtain ⟨channel, rfl, hjob', hchannel, hweighed⟩ := runJob_books h hjob hrun
          refine h.help (by rw [hconsumer]; rfl) hturn hjob' hchannel fun weight => ?_
          rw [hweighed, hconsumer]
          rfl
      | draining =>
          rw [State.consumerStep, hconsumer] at hs
          cases hs
          exact h.drain hconsumer
      | finished result =>
          rw [State.consumerStep, hconsumer] at hs
          cases hs
  | helper j take =>
      rcases helperStep_cases hs with ⟨hj, u, job, htake, rfl⟩ | ⟨job, u, job', hj, hrun, rfl⟩
      · obtain ⟨jobs, rfl, hjob, hweighed⟩ := takeJob_books htake
        refine h.helper hj hjob h.channel fun weight => ?_
        rw [hweighed]
        rfl
      · have hjob := h.helpers job (List.mem_of_getElem? hj)
        obtain ⟨channel, rfl, hjob', hchannel, hweighed⟩ := runJob_books h hjob hrun
        exact h.helper hj hjob' hchannel hweighed

theorem books_of_reaches (h : Reaches (AdsStreaming.step call) (initial call) s) : Books call s :=
  h.invariant (initial_books call) fun _ _ _ => Books.step

/-! ## The result -/

theorem visitAll_of_error {v : Visits} {err : AnnError} (h : v.firstError = some err)
    (chunks : List Nat) : visitAll call v chunks = v := by
  induction chunks with
  | nil => rfl
  | cons i chunks ih =>
      have hvisit : v.visit call (call.assignChunk i) = v := by
        simp only [Visits.visit, h]
      rw [visitAll, List.foldl_cons, hvisit]
      exact ih

/-- Visiting what the jobs leave is the plain loop. -/
theorem visitAll_eq (chunks : List Nat) (counts : AdSamplingCounts)
    (calls : List AdSamplingPointAssignmentChunk) :
    ((visitAll call ⟨counts, calls, none⟩ chunks).calls,
        (visitAll call ⟨counts, calls, none⟩ chunks).result) =
      assignSerially call counts calls chunks := by
  induction chunks generalizing counts calls with
  | nil => rfl
  | cons i chunks ih =>
      have hcons : visitAll call ⟨counts, calls, none⟩ (i :: chunks) =
        visitAll call (Visits.visit call ⟨counts, calls, none⟩ (call.assignChunk i)) chunks := rfl
      rw [hcons]
      simp only [assignSerially, Visits.visit]
      cases hchunk : call.assignChunk i with
      | error err =>
          simp only
          rw [visitAll_of_error rfl]
          rfl
      | ok chunk =>
          simp only
          cases hvisit : call.visitChunk calls chunk.chunk with
          | error err =>
              simp only
              rw [visitAll_of_error rfl]
              rfl
          | ok u => exact ih _ _

/-- Whichever threads take the chunks, and in whatever order they send what they have computed, a
call that returns has made the visitor's calls in the order of the chunks, each chunk once up to the
first error, and returns the counts of all of them or that error. -/
theorem streaming_visits_in_order {result : AnnResult AdSamplingCounts}
    (h : Reaches (step call) (initial call) s) (hfinished : s.consumer = .finished result) :
    (s.visits.calls, result) = assignSerially call .zero [] (List.range call.chunks) := by
  have hbooks := books_of_reaches h
  obtain ⟨hall, hresult⟩ := hbooks.finished result hfinished
  rw [hresult, hbooks.visits, hall]
  exact visitAll_eq _ _ _

/-- Two threads and two chunks, of which the second has one point. -/
def twoChunks : Call where
  cur := List.replicate 257 0
  currentNumThreads := 2
  assignPointChunk ids sourceStart :=
    .ok ⟨⟨sourceStart, []⟩, { AdSamplingCounts.zero with fullEvals := ids.length }⟩
  visitChunk _ _ := .ok ()

/-- The helper is the first to send, and what it sends is the last chunk. -/
def lastChunkFirst : List Action :=
  [.consumer 0, .consumer 0, .helper 0 1, .helper 0 0, .helper 0 0, .consumer 0, .consumer 0,
    .consumer 0, .consumer 0, .consumer 0, .consumer 0, .consumer 0, .consumer 0, .consumer 0,
    .consumer 0, .consumer 0]

def ConsumerPc.returned : ConsumerPc → Option AdSamplingCounts
  | .finished (.ok counts) => some counts
  | _ => none

theorem eq_finished_of_returned {pc : ConsumerPc} {counts : AdSamplingCounts}
    (h : pc.returned = some counts) : pc = .finished (.ok counts) := by
  unfold ConsumerPc.returned at h
  split at h
  · cases h
    rfl
  · cases h

theorem streaming_visits_in_order_two : ∃ s, Reaches (step twoChunks) (initial twoChunks) s ∧
    (s.visits.calls, .ok { AdSamplingCounts.zero with fullEvals := 257 }) =
      assignSerially twoChunks .zero [] (List.range twoChunks.chunks) := by
  have hfollow : (follow (step twoChunks) (initial twoChunks) lastChunkFirst).map
      (fun s => s.consumer.returned) =
        some (some { AdSamplingCounts.zero with fullEvals := 257 }) := by
    decide +kernel
  obtain ⟨s, hrun, hreturned⟩ := exists_run_of_follow hfollow
  have hfinished := eq_finished_of_returned hreturned
  exact ⟨s, ⟨_, hrun⟩, streaming_visits_in_order ⟨_, hrun⟩ hfinished⟩

end AdsStreaming

end ForgeANN
