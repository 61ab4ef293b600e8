-- SUMMARY: What the in-memory sink holds: shard by shard, the records of what was flushed.
import ForgeANN.Spill.Memory

/-!
# What the in-memory sink holds

Whether in a segment or in the buffer, a shard has one record for each of its
flushed edges. When the sink is finished all of them are in segments.
-/
namespace ForgeANN

open Lib

/-! ## Encoding a batch -/

/-- The records of a shard's groups. -/
def recordsOf (groups : List (Nat × List SpillRecord16)) (shardId : Nat) : List SpillRecord16 :=
  (groups.filter fun group => group.1 = shardId).flatMap Prod.snd

section

variable {groups : List (Nat × List SpillRecord16)} {shardId : Nat}

theorem recordsOf_append (groups more : List (Nat × List SpillRecord16)) (shardId : Nat) :
    recordsOf (groups ++ more) shardId = recordsOf groups shardId ++ recordsOf more shardId := by
  rw [recordsOf, List.filter_append, List.flatMap_append]
  rfl

theorem recordsOf_singleton (group : Nat × List SpillRecord16) (shardId : Nat) :
    recordsOf [group] shardId = if group.1 = shardId then group.2 else [] := by
  by_cases heq : group.1 = shardId
  · simp [recordsOf, heq]
  · simp [recordsOf, heq]

/-- Wherever a record is put, its shard has it last. -/
theorem recordsOf_pushRecord (groups : List (Nat × List SpillRecord16)) (shardId : Nat)
    (record : SpillRecord16) (other : Nat) :
    recordsOf (pushRecord groups shardId record) other =
      recordsOf groups other ++ if shardId = other then [record] else [] := by
  rw [pushRecord]
  cases hlast : groups.getLast? with
  | none =>
      rw [List.getLast?_eq_none_iff.mp hlast]
      exact recordsOf_singleton ..
  | some group =>
      obtain ⟨existing, records⟩ := group
      have hgroups : recordsOf groups other =
          recordsOf groups.dropLast other ++ recordsOf [(existing, records)] other := by
        rw [← recordsOf_append, List.dropLast_append_getLast? _ hlast]
      dsimp only
      split_ifs with hsame hshard hshard
      · have heq : existing = other := hsame.trans hshard
        rw [hgroups, recordsOf_append, recordsOf_singleton, recordsOf_singleton, if_pos heq,
          if_pos heq, List.append_assoc]
      · have hne : existing ≠ other := fun heq => hshard (hsame.symm.trans heq)
        simp only [hgroups, recordsOf_append, recordsOf_singleton, if_neg hne, List.append_nil]
      · rw [recordsOf_append, recordsOf_singleton, if_pos hshard]
      · rw [recordsOf_append, recordsOf_singleton, if_neg hshard]

/-- The edges of a shard. -/
def shardOf (shardPoints shardId : Nat) (edges : List PendingEdge) : List PendingEdge :=
  edges.filter fun edge => edge.p / shardPoints = shardId

theorem shardOf_append (shardPoints shardId : Nat) (edges more : List PendingEdge) :
    shardOf shardPoints shardId (edges ++ more) =
      shardOf shardPoints shardId edges ++ shardOf shardPoints shardId more :=
  List.filter_append ..

theorem shardOf_cons (shardPoints shardId : Nat) (edge : PendingEdge) (edges : List PendingEdge) :
    shardOf shardPoints shardId (edge :: edges) =
      (if edge.p / shardPoints = shardId then [edge] else []) ++
        shardOf shardPoints shardId edges := by
  rw [shardOf, List.filter_cons]
  simp only [decide_eq_true_eq]
  split_ifs <;> rfl

theorem pushRecords_ok {shardPoints : Nat} {edges : List PendingEdge}
    (hp : ∀ edge ∈ edges, edge.p < 2 ^ 32) (groups : List (Nat × List SpillRecord16)) :
    ∃ pushed, edges.foldlM (fun groups edge => do
        let record ← SpillRecord16.fromPendingEdge edge
        .ok (pushRecord groups (edge.p / shardPoints) record)) groups = .ok pushed ∧
      ∀ shardId, recordsOf pushed shardId =
        recordsOf groups shardId ++ (shardOf shardPoints shardId edges).map PendingEdge.record := by
  induction edges generalizing groups with
  | nil => exact ⟨groups, rfl, fun shardId => (List.append_nil _).symm⟩
  | cons edge edges ih =>
      obtain ⟨pushed, hrest, hrecords⟩ := ih (fun e he => hp e (List.mem_cons_of_mem _ he))
        (pushRecord groups (edge.p / shardPoints) edge.record)
      refine ⟨pushed, ?_, fun shardId => ?_⟩
      · rw [List.foldlM_cons, fromPendingEdge_ok (hp edge List.mem_cons_self)]
        exact hrest
      · rw [hrecords, recordsOf_pushRecord, shardOf_cons, List.append_assoc, List.map_append]
        split_ifs <;> rfl

theorem encodeSpillRecordsByShard_ok (choices : InMemorySpillChoices) {shardPoints : Nat}
    (hpos : 0 < shardPoints) {edges : List PendingEdge} (hp : ∀ edge ∈ edges, edge.p < 2 ^ 32) :
    ∃ groups, encodeSpillRecordsByShard choices shardPoints edges = .ok groups ∧
      ∀ shardId, (recordsOf groups shardId).Perm
        ((shardOf shardPoints shardId edges).map PendingEdge.record) := by
  have hperm := choices.sortEdges.perm edges
  obtain ⟨groups, hencode, hrecords⟩ := @pushRecords_ok shardPoints
    (choices.sortEdges.sort edges) (fun edge hedge => hp edge (hperm.mem_iff.mp hedge)) []
  refine ⟨groups, ?_, fun shardId => ?_⟩
  · rw [encodeSpillRecordsByShard, Nat.max_eq_left hpos]
    exact hencode
  · rw [hrecords]
    exact (hperm.filter _).map _

end

/-! ## The invariant -/

/-- A segment's metadata names records it has. -/
structure InMemorySpillSegment.Formed (segment : InMemorySpillSegment) : Prop where
  srcMin : ∃ record ∈ segment.records, segment.srcMin = record.src
  srcMax : ∃ record ∈ segment.records, segment.srcMax = record.src

/-- The records of a shard's segments. -/
def segmentRecords (segments : List InMemorySpillSegment) (shardId : Nat) : List SpillRecord16 :=
  (segments.filter fun segment => segment.shardId = shardId).flatMap InMemorySpillSegment.records

namespace InMemorySpillState

/-- All records the sink has of a shard. -/
def held (state : InMemorySpillState) (shardId : Nat) : List SpillRecord16 :=
  segmentRecords state.segments shardId ++ state.buffer shardId

def Formed (state : InMemorySpillState) : Prop := ∀ segment ∈ state.segments, segment.Formed

section

variable {cfg : InMemorySpillConfig} {choices : InMemorySpillChoices} {state : InMemorySpillState}

/-- The state with a shard's buffer replaced. -/
def setBuffer (state : InMemorySpillState) (shardId : Nat) (buffer : List SpillRecord16) :
    InMemorySpillState :=
  { state with buffersByShard := state.buffersByShard.insert shardId buffer }

theorem setBuffer_buffer (shardId : Nat) (records : List SpillRecord16) (other : Nat) :
    (state.setBuffer shardId records).buffer other =
      if other = shardId then records else state.buffer other := by
  unfold setBuffer buffer
  split_ifs with heq
  · rw [heq, AList.lookup_insert, Option.getD_some]
  · rw [AList.lookup_insert_ne heq]

theorem setBuffer_held (shardId : Nat) (more : List SpillRecord16) (other : Nat) :
    (state.setBuffer shardId (state.buffer shardId ++ more)).held other =
      state.held other ++ if shardId = other then more else [] := by
  rw [held, setBuffer_buffer, held, List.append_assoc]
  split_ifs with heq heq' heq'
  · rw [heq]
    rfl
  · exact absurd heq.symm heq'
  · exact absurd heq'.symm heq
  · rw [List.append_nil]
    rfl

/-- Flushing a shard's buffer moves its records into a segment. -/
theorem flush_held (choices : InMemorySpillChoices) (state : InMemorySpillState)
    (shardId other : Nat) :
    ((state.flushMemoryShardBufferToSegment choices shardId).held other).Perm
      (state.held other) := by
  rw [flushMemoryShardBufferToSegment]
  dsimp only
  split_ifs with hempty
  · exact .refl _
  · have hbuffer := state.setBuffer_buffer shardId [] other
    have hsorted := choices.sortRecords.perm (state.buffer shardId)
    rw [held, held, segmentRecords, List.filter_append, List.flatMap_append]
    change (_ ++ (state.setBuffer shardId []).buffer other).Perm _
    rw [hbuffer, List.append_assoc]
    apply List.Perm.append_left
    by_cases heq : other = shardId
    · rw [if_pos heq, List.append_nil, heq]
      simpa using hsorted
    · have hne : shardId ≠ other := fun h => heq h.symm
      rw [if_neg heq]
      simp [hne]

theorem flush_formed (choices : InMemorySpillChoices) (h : state.Formed) (shardId : Nat) :
    (state.flushMemoryShardBufferToSegment choices shardId).Formed := by
  rw [flushMemoryShardBufferToSegment]
  dsimp only
  split_ifs with hempty
  · exact h
  · have hne : choices.sortRecords.sort (state.buffer shardId) ≠ [] := fun hnil =>
      hempty (List.nil_perm.mp (hnil ▸ choices.sortRecords.perm (state.buffer shardId)))
    intro segment hsegment
    rcases List.mem_append.mp hsegment with hsegment | hsegment
    · exact h segment hsegment
    · rw [List.mem_singleton.mp hsegment]
      constructor
      · refine ⟨_, List.head_mem hne, ?_⟩
        simp only [List.head?_eq_some_head hne, Option.map_some, Option.getD_some]
      · refine ⟨_, List.getLast_mem hne, ?_⟩
        simp only [List.getLast?_eq_some_getLast hne, Option.map_some, Option.getD_some]

theorem flush_buffer (choices : InMemorySpillChoices) (state : InMemorySpillState)
    (shardId other : Nat) :
    (state.flushMemoryShardBufferToSegment choices shardId).buffer other =
      if other = shardId then [] else state.buffer other := by
  rw [flushMemoryShardBufferToSegment]
  dsimp only
  split_ifs with hempty heq heq
  · rw [heq, hempty]
  · rfl
  · exact (state.setBuffer_buffer shardId [] other).trans (if_pos heq)
  · exact (state.setBuffer_buffer shardId [] other).trans (if_neg heq)

/-! ## Feeding -/

theorem pushGroup_held (group : Nat × List SpillRecord16) (other : Nat) :
    ((state.pushGroup cfg choices group).held other).Perm
      (state.held other ++ recordsOf [group] other) := by
  rw [recordsOf_singleton, ← setBuffer_held, pushGroup]
  split_ifs with hfull
  · exact flush_held choices (state.setBuffer group.1 (state.buffer group.1 ++ group.2)) ..
  · exact .refl _

theorem pushGroup_formed (cfg : InMemorySpillConfig) (choices : InMemorySpillChoices)
    (h : state.Formed) (group : Nat × List SpillRecord16) :
    (state.pushGroup cfg choices group).Formed := by
  rw [pushGroup]
  split_ifs with hfull
  · have hbuffered : (state.setBuffer group.1 (state.buffer group.1 ++ group.2)).Formed := h
    exact flush_formed choices hbuffered group.1
  · exact h

theorem pushGroups_held (cfg : InMemorySpillConfig) (choices : InMemorySpillChoices)
    (groups : List (Nat × List SpillRecord16)) (h : state.Formed) :
    (groups.foldl (pushGroup cfg choices) state).Formed ∧ ∀ other,
      ((groups.foldl (pushGroup cfg choices) state).held other).Perm
        (state.held other ++ recordsOf groups other) := by
  induction groups generalizing state with
  | nil => exact ⟨h, fun other => .of_eq (List.append_nil _).symm⟩
  | cons group groups ih =>
      obtain ⟨hformed, hheld⟩ := ih (pushGroup_formed cfg choices h group)
      refine ⟨hformed, fun other => (hheld other).trans ?_⟩
      rw [← List.singleton_append (x := group), recordsOf_append, ← List.append_assoc]
      exact (pushGroup_held group other).append_right _

theorem flushPendingEdges_held (cfg : InMemorySpillConfig) (choices : InMemorySpillChoices)
    (h : state.Formed) {edges : List PendingEdge} (hp : ∀ edge ∈ edges, edge.p < 2 ^ 32) :
    ∃ next, state.flushPendingEdges cfg choices edges = .ok next ∧ next.Formed ∧ ∀ shardId,
      (next.held shardId).Perm
        (state.held shardId ++ (shardOf cfg.shardPoints shardId edges).map PendingEdge.record) := by
  obtain ⟨groups, hencode, hrecords⟩ :=
    encodeSpillRecordsByShard_ok choices cfg.shardPoints_pos hp
  obtain ⟨hformed, hheld⟩ := pushGroups_held cfg choices groups h
  refine ⟨_, ?_, hformed, fun shardId => (hheld shardId).trans ((hrecords shardId).append_left _)⟩
  rw [flushPendingEdges, hencode]
  rfl

theorem batches_held (cfg : InMemorySpillConfig) (choices : InMemorySpillChoices)
    (h : state.Formed) {batches : List (List PendingEdge)}
    (hp : ∀ edge ∈ batches.flatten, edge.p < 2 ^ 32) :
    ∃ next, batches.foldlM (flushPendingEdges cfg choices) state = .ok next ∧ next.Formed ∧
      ∀ shardId, (next.held shardId).Perm (state.held shardId ++
        (shardOf cfg.shardPoints shardId batches.flatten).map PendingEdge.record) := by
  induction batches generalizing state with
  | nil => exact ⟨state, rfl, h, fun shardId => .of_eq (List.append_nil _).symm⟩
  | cons edges batches ih =>
      rw [List.flatten_cons] at hp
      obtain ⟨mid, hflush, hmid, hmidHeld⟩ := flushPendingEdges_held cfg choices h
        fun edge hedge => hp edge (List.mem_append_left _ hedge)
      obtain ⟨next, hrest, hnext, hnextHeld⟩ :=
        ih hmid fun edge hedge => hp edge (List.mem_append_right _ hedge)
      refine ⟨next, ?_, hnext, fun shardId => (hnextHeld shardId).trans ?_⟩
      · rw [List.foldlM_cons, hflush]
        exact hrest
      · rw [List.flatten_cons, shardOf_append, List.map_append, ← List.append_assoc]
        exact (hmidHeld shardId).append_right _

/-! ## Finishing -/

theorem flushBuffers_held (choices : InMemorySpillChoices) (shardIds : List Nat)
    (h : state.Formed) :
    (shardIds.foldl (flushMemoryShardBufferToSegment choices) state).Formed ∧ ∀ other,
      ((shardIds.foldl (flushMemoryShardBufferToSegment choices) state).held other).Perm
          (state.held other) ∧
        (shardIds.foldl (flushMemoryShardBufferToSegment choices) state).buffer other =
          if other ∈ shardIds then [] else state.buffer other := by
  induction shardIds generalizing state with
  | nil => exact ⟨h, fun other => ⟨.refl _, rfl⟩⟩
  | cons shardId shardIds ih =>
      obtain ⟨hformed, hrest⟩ := ih (flush_formed choices h shardId)
      refine ⟨hformed, fun other => ⟨(hrest other).1.trans (flush_held ..), ?_⟩⟩
      refine (hrest other).2.trans ?_
      rw [flush_buffer]
      simp only [List.mem_cons]
      split_ifs <;> grind

/-- When the sink is finished its segments have all it held. -/
theorem finish_held (cfg : InMemorySpillConfig) (choices : InMemorySpillChoices)
    (h : state.Formed) :
    (∀ segment ∈ (state.finish cfg choices).segments, segment.Formed) ∧ ∀ shardId,
      (segmentRecords (state.finish cfg choices).segments shardId).Perm (state.held shardId) := by
  obtain ⟨hformed, hrest⟩ :=
    flushBuffers_held choices (choices.bufferOrder state.buffersByShard.keys) h
  refine ⟨hformed, fun shardId => ?_⟩
  obtain ⟨hheld, hbuffer⟩ := hrest shardId
  have hempty : (if shardId ∈ choices.bufferOrder state.buffersByShard.keys then []
      else state.buffer shardId) = [] := by
    split_ifs with hmem
    · rfl
    · rw [(choices.bufferOrder_perm _).mem_iff, ← AList.mem_keys, ← AList.lookup_eq_none] at hmem
      rw [buffer, hmem, Option.getD_none]
  rw [held, hbuffer, hempty, List.append_nil] at hheld
  exact hheld

end

end InMemorySpillState

/-! ## The artifacts -/

/-- The segments have one record for each edge, in its shard. -/
structure InMemorySpillArtifacts.Holds (artifacts : InMemorySpillArtifacts)
    (edges : List PendingEdge) : Prop where
  shardPoints_pos : 0 < artifacts.shardPoints
  formed : ∀ segment ∈ artifacts.segments, segment.Formed
  records : ∀ shardId, (segmentRecords artifacts.segments shardId).Perm
    ((shardOf artifacts.shardPoints shardId edges).map PendingEdge.record)

theorem inMemorySpillBatches_holds (cfg : InMemorySpillConfig) (choices : InMemorySpillChoices)
    {batches : List (List PendingEdge)} (hp : ∀ edge ∈ batches.flatten, edge.p < 2 ^ 32) :
    ∃ artifacts, inMemorySpillBatches cfg choices batches = .ok artifacts ∧
      artifacts.shardPoints = cfg.shardPoints ∧ artifacts.Holds batches.flatten := by
  have hcreate : InMemorySpillState.create.Formed := fun segment hsegment => by cases hsegment
  obtain ⟨fed, hfeed, hfed, hheld⟩ := InMemorySpillState.batches_held cfg choices hcreate hp
  obtain ⟨hformed, hrecords⟩ := fed.finish_held cfg choices hfed
  refine ⟨fed.finish cfg choices, ?_, rfl, cfg.shardPoints_pos, hformed, fun shardId => ?_⟩
  · rw [inMemorySpillBatches, hfeed]
    rfl
  · exact (hrecords shardId).trans (hheld shardId)

end ForgeANN
