-- SUMMARY: The pipeline of resident subtree groups: one thread hydrates them under a limit of bytes, another one builds them.
import ForgeANN.Lib.Permits
import ForgeANN.Lib.Transition
import ForgeANN.Rbc.ResidentGroups

/-!
# The pipeline of resident groups

A group takes a permit for its bytes before it is hydrated, and the permit goes
with what was hydrated: through the channel, into the build, and out again when
the last of it is dropped. With one slot the groups are hydrated and built one
after the other.
-/
namespace ForgeANN

open Lib

namespace GroupPipeline

/-- What `process_d1_resident_subtree_groups` uses here. Groups are hydrated and built once at most:
what comes of it is said by their places. -/
structure Call (β : Type) where
  groups : List D1ResidentSubtreeGroup
  groupPipelineSlots : Nat
  configGroupPipelineSlots : Nat
  limiterBudgetBytes : UInt64
  /-- The width of the sketches, if there are any. -/
  sketchWidth : Option UInt64
  /-- `size_of::<ResidentSubsetSketchAccessor>()`. -/
  accessorBytes : UInt64
  hydrate : Nat → Option AnnError
  build : Nat → AnnResult β

variable {β : Type}

namespace Call

variable (call : Call β)

def groupCount : Nat := call.groups.length

def requestedGroupPipelineSlots : Nat :=
  min (max call.groupPipelineSlots 1) (max call.configGroupPipelineSlots 1)

def effectiveGroupPipelineSlots : Nat :=
  max (min call.requestedGroupPipelineSlots (max call.groupCount 1)) 1

def readyQueueCapacity : Nat := max call.effectiveGroupPipelineSlots 1

def d1ResidentSubtreeSketchBytes (width pointCount : UInt64) : UInt64 :=
  ((((max pointCount 1).saturatingMul (max width 1)).saturatingMul 4).saturatingAdd
    ((max pointCount 1).saturatingMul 4)).saturatingAdd call.accessorBytes

def residentTotalBytes (group : D1ResidentSubtreeGroup) : UInt64 :=
  group.residentBytes.saturatingAdd
    (match call.sketchWidth with
    | some width => call.d1ResidentSubtreeSketchBytes width (UInt64.ofNat group.uniqueIds.length)
    | none => 0)

/-- What `acquire` is asked for. -/
def bytes (i : Nat) : UInt64 :=
  match call.groups[i]? with
  | some group => max (call.residentTotalBytes group) 1
  | none => 1

/-- The index that a group brings along. -/
def groupIndex (i : Nat) : Nat :=
  match call.groups[i]? with
  | some group => group.groupIndex
  | none => 0

end Call

/-! ## One group after the other -/

/-- The error, what the statistics are merged from, and the groups that were built or tried. -/
structure Outcome (β : Type) where
  error : Option AnnError
  results : List β
  built : List Nat

def Outcome.start : Outcome β := ⟨none, [], []⟩

def Outcome.fail (outcome : Outcome β) (err : AnnError) : Outcome β :=
  { outcome with error := some err }

/-- A group is built. -/
def Outcome.record (outcome : Outcome β) (i : Nat) (result : AnnResult β) : Outcome β :=
  match result with
  | .ok result => { outcome with
      results := outcome.results ++ [result]
      built := outcome.built ++ [i] }
  | .error err => { outcome with error := some err, built := outcome.built ++ [i] }

/-- The loop with one slot. A permit is given at once, since the one before has been dropped. -/
def serialLoop (call : Call β) : List Nat → Outcome β → Outcome β
  | [], outcome => outcome
  | i :: rest, outcome =>
      match call.hydrate i with
      | some err => outcome.fail err
      | none =>
          match call.build i with
          | .ok result => serialLoop call rest (outcome.record i (.ok result))
          | .error err => outcome.record i (.error err)

def serial (call : Call β) : Outcome β := serialLoop call (List.range call.groupCount) .start

/-! ## Two threads -/

/-- A group that was hydrated, or the error of one that was not. -/
abbrev Message := Except AnnError Nat

inductive ProducerPc where
  /-- At the head of the loop. -/
  | checking (i : Nat)
  | acquiring (i : Nat)
  /-- In `condvar.wait`. -/
  | waiting (i : Nat)
  | hydrating (i : Nat)
  /-- The permit of a group that was not hydrated is dropped. -/
  | failing (i : Nat) (err : AnnError)
  | sending (message : Message)
  /-- In `send_timeout`. -/
  | offering (message : Message)
  /-- A group that cannot be sent is dropped. -/
  | discarding (i : Nat)
  | stopped
deriving DecidableEq

/-- Where the builder goes on after a permit is dropped. -/
inductive After where
  | receive (expected : Nat)
  | drop
  | drain
deriving DecidableEq

inductive BuilderPc where
  | receiving (expected : Nat)
  | building (expected i : Nat)
  | releasing (i : Nat) (after : After)
  | notifying (after : After)
  /-- Before `drop(hydrated_rx)`. -/
  | dropping
  /-- What is left in the channel is dropped with its last receiver, as crossbeam's channels are
  taken to do. -/
  | draining
  | storing
  | joining
  | returned
deriving DecidableEq

structure State (β : Type) where
  producer : ProducerPc
  queue : List Message
  live : UInt64
  builder : BuilderPc
  disconnected : Bool
  abort : Bool
  outcome : Outcome β

def initial : State β := ⟨.checking 0, [], 0, .receiving 0, false, false, .start⟩

def After.pc : After → BuilderPc
  | .receive expected => .receiving expected
  | .drop => .dropping
  | .drain => .draining

/-- `notify_all`: only the producer waits. -/
def ProducerPc.woken : ProducerPc → ProducerPc
  | .waiting i => .acquiring i
  | producer => producer

/-- The producer returns with a message it has not sent. -/
def ProducerPc.discard : Message → ProducerPc
  | .ok i => .discarding i
  | .error _ => .stopped

def ProducerPc.afterSend : Message → ProducerPc
  | .ok i => .checking (i + 1)
  | .error _ => .stopped

def orderViolation (expected got : Nat) : AnnError :=
  .index s!"D1 resident subtree group order violation: expected {expected}, got {got}"

def queueClosed : AnnError :=
  .index "D1 resident subtree hydrate queue closed before all groups built"

inductive Action where
  | producer
  /-- `send_timeout` has timed out, and the pipeline has been aborted meanwhile; else nothing
  changes. -/
  | timeout
  | builder
deriving DecidableEq, Repr

variable (call : Call β)

/-- When the producer drops a permit no one waits, and there is no one to wake. -/
def producerStep (s : State β) : Option (State β) :=
  match s.producer with
  | .checking i =>
      if i < call.groupCount ∧ s.abort = false then some { s with producer := .acquiring i }
      else some { s with producer := .stopped }
  | .acquiring i =>
      if canAdmit call.limiterBudgetBytes s.live (call.bytes i) then
        some { s with live := s.live.saturatingAdd (call.bytes i), producer := .hydrating i }
      else some { s with producer := .waiting i }
  | .hydrating i =>
      match call.hydrate i with
      | some err => some { s with producer := .failing i err }
      | none => some { s with producer := .sending (.ok i) }
  | .failing i err => some { s with
      live := s.live.saturatingSub (call.bytes i)
      producer := .sending (.error err) }
  | .sending message =>
      if s.abort then some { s with producer := .discard message }
      else some { s with producer := .offering message }
  | .offering message =>
      if s.disconnected then some { s with producer := .discard message }
      else if s.queue.length < call.readyQueueCapacity then
        some { s with queue := s.queue ++ [message], producer := .afterSend message }
      else none
  | .discarding i => some { s with
      live := s.live.saturatingSub (call.bytes i)
      producer := .stopped }
  | .waiting _ | .stopped => none

def timeoutStep (s : State β) : Option (State β) :=
  match s.producer with
  | .offering message => if s.abort then some { s with producer := .discard message } else none
  | _ => none

def builderStep (s : State β) : Option (State β) :=
  match s.builder with
  | .receiving expected =>
      if expected < call.groupCount then
        match s.queue with
        | .ok i :: queue =>
            if call.groupIndex i = expected then
              some { s with queue, builder := .building expected i }
            else some { s with
              queue
              outcome := s.outcome.fail (orderViolation expected (call.groupIndex i))
              builder := .releasing i .drop }
        | .error err :: queue => some { s with
            queue
            outcome := s.outcome.fail err
            builder := .dropping }
        | [] =>
            if s.producer = .stopped then
              some { s with outcome := s.outcome.fail queueClosed, builder := .dropping }
            else none
      else some { s with builder := .dropping }
  | .building expected i =>
      match call.build i with
      | .ok result => some { s with
          outcome := s.outcome.record i (.ok result)
          builder := .releasing i (.receive (expected + 1)) }
      | .error err => some { s with
          outcome := s.outcome.record i (.error err)
          builder := .releasing i .drop }
  | .releasing i after => some { s with
      live := s.live.saturatingSub (call.bytes i)
      builder := .notifying after }
  | .notifying after => some { s with producer := s.producer.woken, builder := after.pc }
  | .dropping => some { s with disconnected := true, builder := .draining }
  | .draining =>
      match s.queue with
      | .ok i :: queue => some { s with queue, builder := .releasing i .drain }
      | .error _ :: queue => some { s with queue }
      | [] => some { s with builder := .storing }
  | .storing => some { s with abort := s.outcome.error.isSome, builder := .joining }
  | .joining => if s.producer = .stopped then some { s with builder := .returned } else none
  | .returned => none

def step (s : State β) : Action → Option (State β)
  | .producer => producerStep call s
  | .timeout => timeoutStep s
  | .builder => builderStep call s

/-! ## Permits -/

def ProducerPc.held : ProducerPc → List Nat
  | .hydrating i | .failing i _ | .discarding i => [i]
  | .sending (.ok i) | .offering (.ok i) => [i]
  | _ => []

def BuilderPc.held : BuilderPc → List Nat
  | .building _ i | .releasing i _ => [i]
  | _ => []

def queueHeld (queue : List Message) : List Nat := queue.filterMap Except.toOption

/-- The groups whose permits are out. -/
def State.held (s : State β) : List Nat :=
  s.producer.held ++ (queueHeld s.queue ++ s.builder.held)

end GroupPipeline

end ForgeANN
