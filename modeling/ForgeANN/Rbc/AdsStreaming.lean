-- SUMMARY: The streaming ADSampling assignment: chunks computed by a pool, sent through a bounded channel and visited in order.
import ForgeANN.Common.Basic
import ForgeANN.Lib.Reorder
import ForgeANN.Lib.Transition

/-!
# Streaming ADSampling assignment

Every chunk of the points is a job of the pool, which sends its result through a
bounded channel. The thread that spawned the jobs receives the results and visits
them in the order of their chunks; while the channel is empty it runs jobs itself.
-/
namespace ForgeANN

open Lib

namespace AdsStreaming

def ADS_QUERY_CHUNK : Nat := 4096
def ADS_ASSIGN_MIN_CHUNK_ROWS : Nat := 256
def ADS_ASSIGN_MAX_CHUNK_ROWS : Nat := ADS_QUERY_CHUNK * 2

def chooseAdsamplingAssignmentChunkRowsForThreads (points threads : Nat) : Nat :=
  if points = 0 then ADS_ASSIGN_MIN_CHUNK_ROWS
  else
    let maxBlocksByMin :=
      max ((points + ADS_ASSIGN_MIN_CHUNK_ROWS - 1) / ADS_ASSIGN_MIN_CHUNK_ROWS) 1
    let targetBlocks := min (max threads 1) maxBlocksByMin
    max ADS_ASSIGN_MIN_CHUNK_ROWS
      (min ((points + targetBlocks - 1) / targetBlocks) ADS_ASSIGN_MAX_CHUNK_ROWS)

/-! ## Results of chunks -/

/-- What is counted of a chunk, and summed in the profile. -/
structure AdSamplingCounts where
  fullEvals : Nat
  prunedEvals : Nat
  groupEvals : Nat
  simdGroupCalls : Nat
  simdActiveLaneEvals : Nat
  scalarGroupEvals : Nat
  validationSources : Nat
  validationMismatches : Nat
  validationRecallHits : Nat
  validationRecallTotal : Nat
deriving DecidableEq, Repr

namespace AdSamplingCounts

def zero : AdSamplingCounts := ⟨0, 0, 0, 0, 0, 0, 0, 0, 0, 0⟩

def add (profile chunk : AdSamplingCounts) : AdSamplingCounts where
  fullEvals := profile.fullEvals + chunk.fullEvals
  prunedEvals := profile.prunedEvals + chunk.prunedEvals
  groupEvals := profile.groupEvals + chunk.groupEvals
  simdGroupCalls := profile.simdGroupCalls + chunk.simdGroupCalls
  simdActiveLaneEvals := profile.simdActiveLaneEvals + chunk.simdActiveLaneEvals
  scalarGroupEvals := profile.scalarGroupEvals + chunk.scalarGroupEvals
  validationSources := profile.validationSources + chunk.validationSources
  validationMismatches := profile.validationMismatches + chunk.validationMismatches
  validationRecallHits := profile.validationRecallHits + chunk.validationRecallHits
  validationRecallTotal := profile.validationRecallTotal + chunk.validationRecallTotal

end AdSamplingCounts

structure AdSamplingPointAssignmentChunk where
  sourceStart : Nat
  leadersByPoint : List (List Nat)
deriving DecidableEq, Repr

structure AdSamplingChunkResult where
  chunk : AdSamplingPointAssignmentChunk
  counts : AdSamplingCounts
deriving DecidableEq, Repr

/-- The arguments of `assign_point_leaders_adsampling_streaming` that matter here. The visitor is
given the calls it has had before, since it may keep a state of its own. -/
structure Call where
  cur : List UInt32
  currentNumThreads : Nat
  /-- `assign_point_chunk_adsampling_layout`, of the ids of a chunk and where they start. -/
  assignPointChunk : List UInt32 → Nat → AnnResult AdSamplingChunkResult
  visitChunk : List AdSamplingPointAssignmentChunk → AdSamplingPointAssignmentChunk →
    AnnResult Unit

namespace Call

variable (call : Call)

def chunkRows : Nat :=
  chooseAdsamplingAssignmentChunkRowsForThreads call.cur.length (max call.currentNumThreads 1)

/-- How many chunks `cur.chunks(chunk_rows)` has. -/
def chunks : Nat := (call.cur.length + call.chunkRows - 1) / call.chunkRows

def capacity : Nat := max call.currentNumThreads 1 * 2

/-- The result of the job of a chunk. -/
def assignChunk (chunkIdx : Nat) : AnnResult AdSamplingChunkResult :=
  let sourceStart := chunkIdx * call.chunkRows
  call.assignPointChunk ((call.cur.drop sourceStart).take call.chunkRows) sourceStart

end Call

/-! ## Visiting -/

/-- What the consumer has summed up, the calls of the visitor, and the first error. -/
structure Visits where
  counts : AdSamplingCounts
  calls : List AdSamplingPointAssignmentChunk
  firstError : Option AnnError

def Visits.start : Visits := ⟨.zero, [], none⟩

/-- A chunk whose turn it is: after an error, it is only taken out. -/
def Visits.visit (call : Call) (visits : Visits) (chunk : AnnResult AdSamplingChunkResult) :
    Visits :=
  match visits.firstError, chunk with
  | some _, _ => visits
  | none, .ok chunk =>
      { counts := visits.counts.add chunk.counts
        calls := visits.calls ++ [chunk.chunk]
        firstError := match call.visitChunk visits.calls chunk.chunk with
          | .ok () => none
          | .error err => some err }
  | none, .error err => { visits with firstError := some err }

def Visits.result (visits : Visits) : AnnResult AdSamplingCounts :=
  match visits.firstError with
  | some err => .error err
  | none => .ok visits.counts

/-! ## States -/

/-- A job on the stack of a thread. -/
inductive Job where
  | computing (chunkIdx : Nat)
  | sending (chunkIdx : Nat) (chunk : AnnResult AdSamplingChunkResult)

/-- The thread in the scope's closure. -/
inductive ConsumerPc where
  | spawning (chunkIdx : Nat)
  | polling
  /-- In `rayon::yield_now`, with a job that it runs itself. -/
  | helping (job : Job)
  | draining
  | finished (result : AnnResult AdSamplingCounts)

structure State where
  /-- The jobs that are spawned and that no thread has begun. -/
  jobs : List Nat
  channel : List (Nat × AnnResult AdSamplingChunkResult)
  /-- The other threads of the pool. -/
  helpers : List (Option Job)
  consumer : ConsumerPc
  pending : Pending (AnnResult AdSamplingChunkResult)
  nextChunk : Nat
  visits : Visits

def initial (call : Call) : State where
  jobs := []
  channel := []
  helpers := List.replicate (call.currentNumThreads - 1) none
  consumer := .spawning 0
  pending := []
  nextChunk := 0
  visits := .start

/-! ## Steps -/

/-- Which thread takes its next step, and the queued job it takes if it takes one. -/
inductive Action where
  | consumer (take : Nat)
  | helper (j take : Nat)
deriving DecidableEq, Repr

namespace State

variable (call : Call) (s : State)

/-- A step of a thread with a job: what the thread has then. -/
def runJob : Job → Option (State × Option Job)
  | .computing chunkIdx => some (s, some (.sending chunkIdx (call.assignChunk chunkIdx)))
  | .sending chunkIdx chunk =>
      if s.channel.length < call.capacity then
        some ({ s with channel := s.channel ++ [(chunkIdx, chunk)] }, none)
      else none

/-- A thread without a job takes one of those that are queued. -/
def takeJob (take : Nat) : Option (State × Job) :=
  match s.jobs[take]? with
  | some chunkIdx => some ({ s with jobs := s.jobs.eraseIdx take }, .computing chunkIdx)
  | none => none

/-- Every sender is dropped: that of the closure after the last spawn, those of the jobs as the jobs
end. -/
def disconnected : Bool := s.jobs.isEmpty && s.helpers.all Option.isNone

/-- A round of `rx.try_recv()`. An empty poll that finds no job changes nothing, and is no step. -/
def poll (take : Nat) : Option State :=
  match s.channel with
  | message :: channel =>
      some { s with
        channel
        pending := s.pending.put message.1 message.2
        consumer := .draining }
  | [] =>
      if s.disconnected then some { s with consumer := .finished s.visits.result }
      else (s.takeJob take).map fun taken => { taken.1 with consumer := .helping taken.2 }

/-- A round of the loop over the pending chunks. -/
def drain : State :=
  match s.pending.take? s.nextChunk with
  | some (chunk, pending) =>
      { s with pending, visits := s.visits.visit call chunk, nextChunk := s.nextChunk + 1 }
  | none => { s with consumer := .polling }

def consumerStep (take : Nat) : Option State :=
  match s.consumer with
  | .spawning chunkIdx =>
      if chunkIdx < call.chunks then
        some { s with jobs := s.jobs ++ [chunkIdx], consumer := .spawning (chunkIdx + 1) }
      else some { s with consumer := .polling }
  | .polling => s.poll take
  | .helping job =>
      (s.runJob call job).map fun after =>
        { after.1 with consumer := match after.2 with
          | some job => .helping job
          | none => .polling }
  | .draining => some (s.drain call)
  | .finished _ => none

def helperStep (j take : Nat) : Option State :=
  match s.helpers[j]? with
  | some none =>
      (s.takeJob take).map fun taken =>
        { taken.1 with helpers := s.helpers.set j (some taken.2) }
  | some (some job) =>
      (s.runJob call job).map fun after =>
        { after.1 with helpers := s.helpers.set j after.2 }
  | none => none

end State

def step (call : Call) (s : State) : Action → Option State
  | .consumer take => s.consumerStep call take
  | .helper j take => s.helperStep call j take

/-! ## Chunk after chunk -/

/-- The plain loop over chunks: each is computed and visited, up to the first error. -/
def assignSerially (call : Call) (counts : AdSamplingCounts)
    (calls : List AdSamplingPointAssignmentChunk) : List Nat →
    List AdSamplingPointAssignmentChunk × AnnResult AdSamplingCounts
  | [] => (calls, .ok counts)
  | chunkIdx :: rest =>
      match call.assignChunk chunkIdx with
      | .error err => (calls, .error err)
      | .ok chunk =>
          match call.visitChunk calls chunk.chunk with
          | .error err => (calls ++ [chunk.chunk], .error err)
          | .ok () =>
              assignSerially call (counts.add chunk.counts) (calls ++ [chunk.chunk]) rest

end AdsStreaming

end ForgeANN
