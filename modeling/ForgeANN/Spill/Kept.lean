-- SUMMARY: No edge is lost in the sink: each waits in its shard's buffer or stands in a segment of its shard's parts.
import ForgeANN.Spill.Sink

/-!
# What the sink keeps

A step of the sink moves edges from a buffer into a segment and segments from an
open part into a closed one. As long as no shard runs out of part ids, nothing
that stands in a part file is written over.
-/
namespace ForgeANN

open Lib

/-- The edge belongs to the shard, and its source fits a record. -/
def SpillConfig.Owns (cfg : SpillConfig) (shardId : Nat) (edge : PendingEdge) : Prop :=
  edge.p < 2 ^ 32 ∧ edge.p / cfg.shardPoints = shardId

/-- The segments of a manifest, each with the edges that were written to it. -/
abbrev SegmentLog := List (SpillSegmentDesc × List PendingEdge)

/-- The edges of a log that stand in segments of one shard. -/
def SegmentLog.edgesOf (log : SegmentLog) (shardId : Nat) : List PendingEdge :=
  (log.filter fun entry => entry.1.shardId.toNat = shardId).flatMap Prod.snd

namespace SpillState

/-! ## The invariants -/

/-- The shard's parts, closed and open. -/
def partCount (state : SpillState) (shardId : Nat) : Nat :=
  (state.partFiles.filter fun part => part.shardId = shardId).length +
    (if (state.partWritersByShard.lookup shardId).isSome then 1 else 0)

/-- What holds of every state, whatever part ids have come to. -/
structure Sound (cfg : SpillConfig) (state : SpillState) : Prop where
  buffers : ∀ shardId, ∀ edge ∈ state.buffer shardId, cfg.Owns shardId edge
  writers : ∀ shardId part, state.partWritersByShard.lookup shardId = some part →
    part.desc.shardId = shardId ∧ ∃ bytes, part.writer.Wrote bytes ∧
      bytes.length = part.desc.byteLen
  ids : ∀ shardId, (state.nextPartId shardId).toNat ≤ state.partCount shardId

/-- No shard has used up its part ids. -/
def IdsLeft (state : SpillState) : Prop := ∀ shardId, (state.nextPartId shardId).toNat < 65535

/-- A part's contents, while it is written and after it has been closed. -/
def PartHas (state : SpillState) (shardId : Nat) (fileId : UInt16) (bytes : Bytes) : Prop :=
  (∃ part, state.partWritersByShard.lookup shardId = some part ∧ part.desc.fileId = fileId ∧
      part.writer.Wrote bytes) ∨
    (∃ part ∈ state.partFiles, part.shardId = shardId ∧ part.fileId = fileId) ∧
      state.files ⟨shardId, fileId.toNat⟩ = some bytes

/-- A segment of the manifest, and the edges that stand in it. -/
structure SegmentHas (cfg : SpillConfig) (state : SpillState) (segment : SpillSegmentDesc)
    (edges : List PendingEdge) : Prop where
  byteLen : segment.byteLen = edges.length * RUN_RECORD_BYTES
  owns : ∀ edge ∈ edges, cfg.Owns segment.shardId.toNat edge
  srcMin : ∃ edge ∈ edges, segment.srcMin = UInt32.ofNat edge.p
  srcMax : ∃ edge ∈ edges, segment.srcMax = UInt32.ofNat edge.p
  part : ∃ bytes, state.PartHas segment.shardId.toNat segment.fileId bytes ∧
    bytes.Holds segment.byteOffset (edges.flatMap fun edge => edge.record.toBytes)

/-- Parts have different files, and the segments of the log stand in them. -/
structure Kept (cfg : SpillConfig) (state : SpillState) (log : SegmentLog) : Prop where
  opened : ∀ shardId part, state.partWritersByShard.lookup shardId = some part →
    part.desc.path = ⟨shardId, part.desc.fileId.toNat⟩ ∧
      part.desc.fileId < state.nextPartId shardId
  closed : ∀ part ∈ state.partFiles, part.path = ⟨part.shardId, part.fileId.toNat⟩ ∧
    part.fileId < state.nextPartId part.shardId ∧
      ∀ writer, state.partWritersByShard.lookup part.shardId = some writer →
        part.fileId < writer.desc.fileId
  manifest : state.segmentManifest = log.map Prod.fst
  segments : ∀ entry ∈ log, SegmentHas cfg state entry.1 entry.2

/-- Buffers and log together hold the edges fed so far. -/
def Accounts (cfg : SpillConfig) (state : SpillState) (log : SegmentLog)
    (input : List PendingEdge) : Prop :=
  ∀ shardId, (state.buffer shardId ++ log.edgesOf shardId).Perm
    (input.filter fun edge => edge.p / cfg.shardPoints = shardId)

/-- What the sink does with more edges: part ids grow, and while there are ids left all is kept. -/
structure Advances (cfg : SpillConfig) (state next : SpillState) (more : List PendingEdge) :
    Prop where
  sound : Sound cfg next
  ids : ∀ shardId, state.nextPartId shardId ≤ next.nextPartId shardId
  kept : IdsLeft next → ∀ log input, Kept cfg state log → Accounts cfg state log input →
    ∃ log', Kept cfg next log' ∧ Accounts cfg next log' (input ++ more)

section

variable {cfg : SpillConfig} {state mid next : SpillState} {more rest : List PendingEdge}

theorem IdsLeft.mono (h : IdsLeft next)
    (hids : ∀ shardId, state.nextPartId shardId ≤ next.nextPartId shardId) : IdsLeft state :=
  fun shardId => Nat.lt_of_le_of_lt (UInt16.le_iff_toNat_le.mp (hids shardId)) (h shardId)

theorem Advances.trans (h₁ : Advances cfg state mid more) (h₂ : Advances cfg mid next rest) :
    Advances cfg state next (more ++ rest) where
  sound := h₂.sound
  ids shardId := UInt16.le_trans (h₁.ids shardId) (h₂.ids shardId)
  kept hids log input hkept haccounts := by
    obtain ⟨log₁, hkept, haccounts⟩ := h₁.kept (hids.mono h₂.ids) log input hkept haccounts
    rw [← List.append_assoc]
    exact h₂.kept hids log₁ _ hkept haccounts

theorem Advances.refl (h : Sound cfg state) : Advances cfg state state [] := by
  refine ⟨h, fun _ => UInt16.le_refl _, fun _ log input hkept haccounts => ⟨log, hkept, ?_⟩⟩
  rwa [List.append_nil]

end

theorem create_sound (cfg : SpillConfig) : Sound cfg create := by
  constructor <;> simp [create, buffer, nextPartId, partCount]

theorem create_kept (cfg : SpillConfig) : Kept cfg create [] := by
  constructor <;> simp [create]

theorem create_accounts (cfg : SpillConfig) : Accounts cfg create [] [] := by
  intro shardId
  simp [create, buffer, SegmentLog.edgesOf]

/-! ## Contents of parts stay -/

/-- Whatever a part held stays where it was. -/
def Extends (state next : SpillState) : Prop :=
  ∀ shardId fileId bytes, state.PartHas shardId fileId bytes →
    ∃ more, next.PartHas shardId fileId (bytes ++ more)

theorem SegmentHas.extends {cfg : SpillConfig} {state next : SpillState}
    {segment : SpillSegmentDesc} {edges : List PendingEdge}
    (h : SegmentHas cfg state segment edges) (hext : state.Extends next) :
    SegmentHas cfg next segment edges := by
  obtain ⟨bytes, hhas, hholds⟩ := h.part
  obtain ⟨more, hhas⟩ := hext _ _ _ hhas
  exact { h with part := ⟨bytes ++ more, hhas, hholds.append more⟩ }

/-! ## Closing a part -/

section

variable {cfg : SpillConfig} {state : SpillState} {part : SpillPartWriter} {shardId : Nat}
  {log : SegmentLog}

theorem closePart_of_none (h : state.partWritersByShard.lookup shardId = none) :
    state.closePart shardId = state := by
  rw [closePart, h]

theorem closePart_of_some (h : state.partWritersByShard.lookup shardId = some part) :
    state.closePart shardId = { state with
      partWritersByShard := state.partWritersByShard.erase shardId
      partFiles := state.partFiles ++ [part.desc]
      files := Function.update state.files part.desc.path (some part.writer.finish) } := by
  rw [closePart, h]
  rfl

theorem closePart_lookup (state : SpillState) (shardId other : Nat) :
    (state.closePart shardId).partWritersByShard.lookup other =
      if other = shardId then none else state.partWritersByShard.lookup other := by
  cases hpart : state.partWritersByShard.lookup shardId with
  | none =>
      rw [closePart_of_none hpart]
      split_ifs with heq
      · rw [heq, hpart]
      · rfl
  | some part =>
      rw [closePart_of_some hpart]
      split_ifs with heq
      · rw [heq, AList.lookup_erase]
      · rw [AList.lookup_erase_ne heq]

@[simp] theorem closePart_buffer (other : Nat) :
    (state.closePart shardId).buffer other = state.buffer other := by
  unfold closePart
  split <;> rfl

@[simp] theorem closePart_nextPartId (other : Nat) :
    (state.closePart shardId).nextPartId other = state.nextPartId other := by
  unfold closePart
  split <;> rfl

@[simp] theorem closePart_segmentManifest :
    (state.closePart shardId).segmentManifest = state.segmentManifest := by
  unfold closePart
  split <;> rfl

theorem Sound.closePart_partCount (h : Sound cfg state) (other : Nat) :
    (state.closePart shardId).partCount other = state.partCount other := by
  cases hpart : state.partWritersByShard.lookup shardId with
  | none => rw [closePart_of_none hpart]
  | some part =>
      have hdesc := (h.writers shardId part hpart).1
      have hlookup := state.closePart_lookup shardId other
      unfold partCount
      rw [hlookup, closePart_of_some hpart]
      rcases eq_or_ne other shardId with rfl | hne
      · simp [hpart, hdesc]
      · simp [hne, hne.symm, hdesc]

theorem Sound.closePart (h : Sound cfg state) (shardId : Nat) :
    Sound cfg (state.closePart shardId) where
  buffers other edge hedge := h.buffers other edge (by rwa [closePart_buffer] at hedge)
  writers other part hpart := by
    rw [closePart_lookup] at hpart
    split_ifs at hpart
    exact h.writers other part hpart
  ids other := by
    rw [closePart_nextPartId, h.closePart_partCount]
    exact h.ids other

/-- The file of the closed part is no other part's file. -/
theorem Kept.closePart_extends (h : Kept cfg state log) (hsound : Sound cfg state) (shardId : Nat) :
    state.Extends (state.closePart shardId) := by
  intro other fileId bytes hhas
  cases hpart : state.partWritersByShard.lookup shardId with
  | none =>
      rw [closePart_of_none hpart]
      exact ⟨[], by rwa [List.append_nil]⟩
  | some part =>
      obtain ⟨hpath, -⟩ := h.opened shardId part hpart
      refine ⟨[], ?_⟩
      rw [List.append_nil]
      rcases hhas with ⟨writer, hwriter, hid, hwrote⟩ | ⟨⟨desc, hdesc, rfl, rfl⟩, hfile⟩
      · rcases eq_or_ne other shardId with rfl | hne
        · obtain rfl : part = writer := Option.some_inj.mp (hpart.symm.trans hwriter)
          right
          rw [closePart_of_some hpart]
          refine ⟨⟨part.desc, by simp, ?_, hid⟩, ?_⟩
          · exact (hsound.writers other part hpart).1
          · simp [hpath, ← hid, CandidateRunWriter.finish_of_wrote hwrote]
        · left
          refine ⟨writer, ?_, hid, hwrote⟩
          rw [closePart_lookup, if_neg hne, hwriter]
      · right
        rw [closePart_of_some hpart]
        refine ⟨⟨desc, by simp [hdesc], rfl, rfl⟩, ?_⟩
        have hne : (⟨desc.shardId, desc.fileId.toNat⟩ : PartPath) ≠ part.desc.path := by
          rw [hpath]
          rintro heq
          obtain ⟨hshard, hfileId⟩ := PartPath.mk.inj heq
          have hlt := (h.closed desc hdesc).2.2 part (hshard ▸ hpart)
          exact absurd (UInt16.lt_iff_toNat_lt.mp hlt) (by omega)
        exact (Function.update_of_ne hne _ _).trans hfile

theorem Kept.closePart (h : Kept cfg state log) (hsound : Sound cfg state) (shardId : Nat) :
    Kept cfg (state.closePart shardId) log where
  opened other part hpart := by
    rw [closePart_lookup] at hpart
    split_ifs at hpart
    rw [closePart_nextPartId]
    exact h.opened other part hpart
  closed desc hdesc := by
    have hwriter : ∀ writer,
        (state.closePart shardId).partWritersByShard.lookup desc.shardId = some writer →
          desc.shardId ≠ shardId ∧ state.partWritersByShard.lookup desc.shardId = some writer := by
      intro writer hwriter
      rw [closePart_lookup] at hwriter
      split_ifs at hwriter with heq
      exact ⟨heq, hwriter⟩
    rw [closePart_nextPartId]
    cases hpart : state.partWritersByShard.lookup shardId with
    | none =>
        rw [closePart_of_none hpart] at hdesc
        obtain ⟨hpath, hid, hlt⟩ := h.closed desc hdesc
        exact ⟨hpath, hid, fun writer hw => hlt writer (hwriter writer hw).2⟩
    | some part =>
        rw [closePart_of_some hpart] at hdesc
        rcases List.mem_append.mp hdesc with hold | hnew
        · obtain ⟨hpath, hid, hlt⟩ := h.closed desc hold
          exact ⟨hpath, hid, fun writer hw => hlt writer (hwriter writer hw).2⟩
        · obtain rfl := List.mem_singleton.mp hnew
          have hshard := (hsound.writers shardId part hpart).1
          obtain ⟨hpath, hid⟩ := h.opened shardId part hpart
          rw [hshard] at hwriter ⊢
          exact ⟨hpath, hid, fun writer hw => absurd rfl (hwriter writer hw).1⟩
  manifest := by rw [closePart_segmentManifest, h.manifest]
  segments entry hentry := (h.segments entry hentry).extends (h.closePart_extends hsound shardId)

end

/-! ## Opening a part -/

section

variable {cfg : SpillConfig} {state : SpillState} {shardId : Nat} {log : SegmentLog}

theorem openPart_lookup (other : Nat) :
    (state.openPart cfg shardId).partWritersByShard.lookup other =
      if other = shardId then
        some ⟨⟨shardId, state.nextPartId shardId,
          ⟨shardId, (state.nextPartId shardId).toNat⟩, 0⟩, .createWithConfig cfg.ioCfg⟩
      else state.partWritersByShard.lookup other := by
  unfold openPart
  split_ifs with heq
  · rw [heq, AList.lookup_insert]
  · rw [AList.lookup_insert_ne heq]

theorem openPart_nextPartId (other : Nat) :
    (state.openPart cfg shardId).nextPartId other =
      if other = shardId then saturatingAddOne (state.nextPartId shardId)
      else state.nextPartId other := by
  unfold openPart nextPartId
  split_ifs with heq
  · rw [heq, AList.lookup_insert, Option.getD_some]
  · rw [AList.lookup_insert_ne heq]

theorem toNat_saturatingAddOne (id : UInt16) :
    (saturatingAddOne id).toNat = min (id.toNat + 1) 65535 := by
  have hlt := id.toNat_lt
  unfold saturatingAddOne
  split_ifs with hmax
  · rw [hmax]
    rfl
  · have hne : id.toNat ≠ 65535 := fun heq => hmax (UInt16.toNat_inj.mp heq)
    rw [UInt16.toNat_add, UInt16.toNat_one]
    omega

theorem openPart_nextPartId_le (cfg : SpillConfig) (state : SpillState) (shardId other : Nat) :
    state.nextPartId other ≤ (state.openPart cfg shardId).nextPartId other := by
  rw [openPart_nextPartId]
  split_ifs with heq
  · have hlt := (state.nextPartId shardId).toNat_lt
    rw [heq, UInt16.le_iff_toNat_le, toNat_saturatingAddOne]
    omega
  · exact UInt16.le_refl _

theorem Sound.openPart (h : Sound cfg state)
    (hnone : state.partWritersByShard.lookup shardId = none) :
    Sound cfg (state.openPart cfg shardId) where
  buffers := h.buffers
  writers other part hpart := by
    rw [openPart_lookup] at hpart
    split_ifs at hpart with heq
    · obtain rfl := Option.some_inj.mp hpart
      exact ⟨heq.symm, [], CandidateRunWriter.createWithConfig_wrote cfg.ioCfg, rfl⟩
    · exact h.writers other part hpart
  ids other := by
    have hold := h.ids other
    unfold partCount at hold ⊢
    rw [openPart_lookup, openPart_nextPartId]
    change _ ≤ (state.partFiles.filter fun part => part.shardId = other).length + _
    rcases eq_or_ne other shardId with rfl | hne
    · rw [hnone] at hold
      rw [if_pos rfl, if_pos rfl]
      simp only [Option.isSome_none, Option.isSome_some, if_true, Bool.false_eq_true, if_false]
        at hold ⊢
      rw [toNat_saturatingAddOne]
      omega
    · rwa [if_neg hne, if_neg hne]

/-- The new part's file is no other part's file. -/
theorem Kept.openPart_extends (h : Kept cfg state log)
    (hnone : state.partWritersByShard.lookup shardId = none) :
    state.Extends (state.openPart cfg shardId) := by
  intro other fileId bytes hhas
  refine ⟨[], ?_⟩
  rw [List.append_nil]
  rcases hhas with ⟨writer, hwriter, hid, hwrote⟩ | ⟨⟨desc, hdesc, rfl, rfl⟩, hfile⟩
  · have hne : other ≠ shardId := by
      rintro rfl
      rw [hnone] at hwriter
      cases hwriter
    left
    refine ⟨writer, ?_, hid, hwrote⟩
    rw [openPart_lookup, if_neg hne, hwriter]
  · right
    refine ⟨⟨desc, hdesc, rfl, rfl⟩, ?_⟩
    have hne : (⟨desc.shardId, desc.fileId.toNat⟩ : PartPath) ≠
        ⟨shardId, (state.nextPartId shardId).toNat⟩ := by
      rintro heq
      obtain ⟨hshard, hfileId⟩ := PartPath.mk.inj heq
      have hlt := (h.closed desc hdesc).2.1
      rw [hshard] at hlt
      exact absurd (UInt16.lt_iff_toNat_lt.mp hlt) (by omega)
    exact (Function.update_of_ne hne _ _).trans hfile

theorem Kept.openPart (h : Kept cfg state log)
    (hnone : state.partWritersByShard.lookup shardId = none)
    (hids : IdsLeft (state.openPart cfg shardId)) : Kept cfg (state.openPart cfg shardId) log := by
  have hnext : state.nextPartId shardId < (state.openPart cfg shardId).nextPartId shardId := by
    have hlt := hids shardId
    rw [openPart_nextPartId, if_pos rfl, toNat_saturatingAddOne] at hlt
    rw [openPart_nextPartId, if_pos rfl, UInt16.lt_iff_toNat_lt, toNat_saturatingAddOne]
    omega
  constructor
  · intro other part hpart
    rw [openPart_lookup] at hpart
    split_ifs at hpart with heq
    · obtain rfl := Option.some_inj.mp hpart
      rw [heq]
      exact ⟨rfl, hnext⟩
    · obtain ⟨hpath, hid⟩ := h.opened other part hpart
      exact ⟨hpath, UInt16.lt_of_lt_of_le hid (openPart_nextPartId_le cfg state shardId other)⟩
  · intro desc hdesc
    obtain ⟨hpath, hid, hlt⟩ := h.closed desc hdesc
    refine ⟨hpath, UInt16.lt_of_lt_of_le hid (openPart_nextPartId_le cfg state shardId _), ?_⟩
    intro writer hwriter
    rw [openPart_lookup] at hwriter
    split_ifs at hwriter with heq
    · obtain rfl := Option.some_inj.mp hwriter
      rwa [← heq]
    · exact hlt writer hwriter
  · exact h.manifest
  · exact fun entry hentry => (h.segments entry hentry).extends (h.openPart_extends hnone)

end

/-! ## Writing a segment -/

section

variable {cfg : SpillConfig} {state : SpillState} {part : SpillPartWriter} {shardId : Nat}
  {log : SegmentLog} {staged : List PendingEdge}

theorem ensurePartWriter_cases (cfg : SpillConfig) (state : SpillState)
    (shardId pendingBytes : Nat) :
    state.ensurePartWriter cfg shardId pendingBytes =
        (state.closePart shardId).openPart cfg shardId ∨
      (∃ part, state.partWritersByShard.lookup shardId = some part) ∧
        state.ensurePartWriter cfg shardId pendingBytes = state := by
  unfold ensurePartWriter
  cases state.partWritersByShard.lookup shardId with
  | none => exact .inl (if_pos rfl)
  | some part =>
      simp only
      split_ifs
      · exact .inl rfl
      · exact .inr ⟨⟨part, rfl⟩, rfl⟩

theorem closePart_lookup_self :
    (state.closePart shardId).partWritersByShard.lookup shardId = none := by
  rw [closePart_lookup, if_pos rfl]

theorem Sound.ensurePartWriter (h : Sound cfg state) (shardId pendingBytes : Nat) :
    Sound cfg (state.ensurePartWriter cfg shardId pendingBytes) := by
  rcases state.ensurePartWriter_cases cfg shardId pendingBytes with heq | ⟨-, heq⟩
  · rw [heq]
    exact (h.closePart shardId).openPart closePart_lookup_self
  · rwa [heq]

theorem ensurePartWriter_lookup (shardId pendingBytes : Nat) :
    ∃ part, (state.ensurePartWriter cfg shardId pendingBytes).partWritersByShard.lookup shardId =
      some part := by
  rcases state.ensurePartWriter_cases cfg shardId pendingBytes with heq | ⟨⟨part, hpart⟩, heq⟩
  · exact ⟨_, by rw [heq, openPart_lookup, if_pos rfl]⟩
  · exact ⟨part, by rw [heq, hpart]⟩

theorem ensurePartWriter_nextPartId_le (shardId pendingBytes other : Nat) :
    state.nextPartId other ≤
      (state.ensurePartWriter cfg shardId pendingBytes).nextPartId other := by
  rcases state.ensurePartWriter_cases cfg shardId pendingBytes with heq | ⟨-, heq⟩
  · have hle := openPart_nextPartId_le cfg (state.closePart shardId) shardId other
    rwa [heq, ← closePart_nextPartId]
  · rw [heq]
    exact UInt16.le_refl _

theorem ensurePartWriter_buffer (shardId pendingBytes other : Nat) :
    (state.ensurePartWriter cfg shardId pendingBytes).buffer other = state.buffer other := by
  rcases state.ensurePartWriter_cases cfg shardId pendingBytes with heq | ⟨-, heq⟩
  · rw [heq]
    exact closePart_buffer other
  · rw [heq]

theorem Kept.ensurePartWriter (h : Kept cfg state log) (hsound : Sound cfg state)
    (shardId pendingBytes : Nat)
    (hids : IdsLeft (state.ensurePartWriter cfg shardId pendingBytes)) :
    Kept cfg (state.ensurePartWriter cfg shardId pendingBytes) log := by
  rcases state.ensurePartWriter_cases cfg shardId pendingBytes with heq | ⟨-, heq⟩
  · rw [heq] at hids ⊢
    exact (h.closePart hsound shardId).openPart closePart_lookup_self hids
  · rwa [heq]

/-- The segment that is written, when `staged` is not empty. -/
def newSegment (shardId : Nat) (part : SpillPartWriter) (staged : List PendingEdge) :
    SpillSegmentDesc where
  shardId := UInt32.ofNat shardId
  fileId := part.desc.fileId
  byteOffset := part.desc.byteLen
  byteLen := staged.length * RUN_RECORD_BYTES
  recordCount := UInt32.ofNat staged.length
  srcMin := (staged.head?.map fun edge => UInt32.ofNat edge.p).getD 0
  srcMax := (staged.getLast?.map fun edge => UInt32.ofNat edge.p).getD 0
  sortedBySrc := true

/-- The part with the segment written to it. -/
def grownPart (part : SpillPartWriter) (staged : List PendingEdge) (writer : CandidateRunWriter) :
    SpillPartWriter :=
  ⟨{ part.desc with byteLen := part.desc.byteLen + staged.length * RUN_RECORD_BYTES }, writer⟩

/-- The state with the segment written through `writer`. -/
def wroteSegment (state : SpillState) (shardId : Nat) (part : SpillPartWriter)
    (staged : List PendingEdge) (writer : CandidateRunWriter) : SpillState :=
  { state with
    partWritersByShard := state.partWritersByShard.insert shardId (grownPart part staged writer)
    segmentManifest := state.segmentManifest ++ [newSegment shardId part staged] }

theorem writeSegment_ok {bytes : Bytes} (hwrote : part.writer.Wrote bytes)
    (hp : ∀ edge ∈ staged, edge.p < 2 ^ 32) :
    ∃ writer, state.writeSegment shardId part staged =
        .ok (state.wroteSegment shardId part staged writer) ∧
      writer.Wrote (bytes ++ staged.flatMap fun edge => edge.record.toBytes) := by
  obtain ⟨writer, hpush, hwriter⟩ := CandidateRunWriter.pushAll_wrote hp hwrote
  refine ⟨writer, ?_, hwriter⟩
  rw [writeSegment, hpush]
  rfl

theorem wroteSegment_lookup {writer : CandidateRunWriter} (other : Nat) :
    (state.wroteSegment shardId part staged writer).partWritersByShard.lookup other =
      if other = shardId then some (grownPart part staged writer)
      else state.partWritersByShard.lookup other := by
  unfold wroteSegment
  split_ifs with heq
  · rw [heq, AList.lookup_insert]
  · rw [AList.lookup_insert_ne heq]

theorem length_records (staged : List PendingEdge) :
    (staged.flatMap fun edge => edge.record.toBytes).length = staged.length * RUN_RECORD_BYTES := by
  simp [List.length_flatMap]

variable {writer : CandidateRunWriter} {bytes : Bytes}

theorem Sound.wroteSegment (h : Sound cfg state)
    (hpart : state.partWritersByShard.lookup shardId = some part)
    (hlen : bytes.length = part.desc.byteLen)
    (hwrote : writer.Wrote (bytes ++ staged.flatMap fun edge => edge.record.toBytes)) :
    Sound cfg (state.wroteSegment shardId part staged writer) where
  buffers := h.buffers
  writers other part' hpart' := by
    rw [wroteSegment_lookup] at hpart'
    split_ifs at hpart' with heq
    · obtain rfl := Option.some_inj.mp hpart'
      refine ⟨?_, _, hwrote, ?_⟩
      · rw [heq]
        exact (h.writers shardId part hpart).1
      · rw [List.length_append, length_records, hlen, grownPart]
    · exact h.writers other part' hpart'
  ids other := by
    have hsome : ((state.wroteSegment shardId part staged writer).partWritersByShard.lookup
        other).isSome = (state.partWritersByShard.lookup other).isSome := by
      rw [wroteSegment_lookup]
      split_ifs with heq
      · rw [heq, hpart]
        rfl
      · rfl
    have hold := h.ids other
    unfold partCount at hold ⊢
    rwa [hsome]

/-- The open part grows; no other part is touched. -/
theorem wroteSegment_extends
    (hpart : state.partWritersByShard.lookup shardId = some part)
    (hold : part.writer.Wrote bytes)
    (hwrote : writer.Wrote (bytes ++ staged.flatMap fun edge => edge.record.toBytes)) :
    state.Extends (state.wroteSegment shardId part staged writer) := by
  intro other fileId bytes' hhas
  rcases hhas with ⟨part', hpart', hid, hwrote'⟩ | hclosed
  · rcases eq_or_ne other shardId with rfl | hne
    · obtain rfl : part = part' := Option.some_inj.mp (hpart.symm.trans hpart')
      have hbytes : bytes' = bytes := by
        rw [← CandidateRunWriter.finish_of_wrote hwrote', CandidateRunWriter.finish_of_wrote hold]
      refine ⟨staged.flatMap fun edge => edge.record.toBytes,
        .inl ⟨grownPart part staged writer, ?_, hid, ?_⟩⟩
      · rw [wroteSegment_lookup, if_pos rfl]
      · rw [hbytes]
        exact hwrote
    · refine ⟨[], .inl ⟨part', ?_, hid, by rwa [List.append_nil]⟩⟩
      rw [wroteSegment_lookup, if_neg hne, hpart']
  · exact ⟨[], .inr (by rwa [List.append_nil])⟩

theorem newSegment_shardId (hne : staged ≠ []) (howns : ∀ edge ∈ staged, cfg.Owns shardId edge) :
    (newSegment shardId part staged).shardId.toNat = shardId := by
  obtain ⟨edge, hedge⟩ := List.exists_mem_of_ne_nil staged hne
  obtain ⟨hp, rfl⟩ := howns edge hedge
  exact UInt32.toNat_ofNat_of_lt' (Nat.lt_of_le_of_lt (Nat.div_le_self ..) hp)

theorem newSegment_has (hne : staged ≠ [])
    (howns : ∀ edge ∈ staged, cfg.Owns shardId edge)
    (hlen : bytes.length = part.desc.byteLen)
    (hwrote : writer.Wrote (bytes ++ staged.flatMap fun edge => edge.record.toBytes)) :
    SegmentHas cfg (state.wroteSegment shardId part staged writer)
      (newSegment shardId part staged) staged := by
  have hshard : (newSegment shardId part staged).shardId.toNat = shardId :=
    newSegment_shardId hne howns
  constructor
  · rfl
  · intro edge hedge
    rw [hshard]
    exact howns edge hedge
  · refine ⟨staged.head hne, List.head_mem hne, ?_⟩
    simp [newSegment, List.head?_eq_some_head hne]
  · refine ⟨staged.getLast hne, List.getLast_mem hne, ?_⟩
    simp [newSegment, List.getLast?_eq_some_getLast hne]
  · refine ⟨_, .inl ⟨grownPart part staged writer, ?_, rfl, hwrote⟩, ?_⟩
    · rw [hshard, wroteSegment_lookup, if_pos rfl]
    have hholds := Bytes.Holds.of_append bytes (staged.flatMap fun edge => edge.record.toBytes) []
    rw [List.append_nil, hlen] at hholds
    exact hholds

theorem Kept.wroteSegment (h : Kept cfg state log) (hne : staged ≠ [])
    (howns : ∀ edge ∈ staged, cfg.Owns shardId edge)
    (hpart : state.partWritersByShard.lookup shardId = some part)
    (hold : part.writer.Wrote bytes) (hlen : bytes.length = part.desc.byteLen)
    (hwrote : writer.Wrote (bytes ++ staged.flatMap fun edge => edge.record.toBytes)) :
    Kept cfg (state.wroteSegment shardId part staged writer)
      (log ++ [(newSegment shardId part staged, staged)]) where
  opened other part' hpart' := by
    rw [wroteSegment_lookup] at hpart'
    split_ifs at hpart' with heq
    · obtain rfl := Option.some_inj.mp hpart'
      rw [heq]
      exact h.opened shardId part hpart
    · exact h.opened other part' hpart'
  closed desc hdesc := by
    obtain ⟨hpath, hid, hlt⟩ := h.closed desc hdesc
    refine ⟨hpath, hid, fun part' hpart' => ?_⟩
    rw [wroteSegment_lookup] at hpart'
    split_ifs at hpart' with heq
    · obtain rfl := Option.some_inj.mp hpart'
      exact hlt part (by rw [heq, hpart])
    · exact hlt part' hpart'
  manifest := by
    rw [List.map_append, ← h.manifest]
    rfl
  segments entry hentry := by
    rcases List.mem_append.mp hentry with hmem | hnew
    · exact (h.segments entry hmem).extends (wroteSegment_extends hpart hold hwrote)
    · obtain rfl := List.mem_singleton.mp hnew
      exact newSegment_has hne howns hlen hwrote

end

/-! ## Flushing a buffer -/

section

variable {cfg : SpillConfig} {state : SpillState} {log : SegmentLog} {input : List PendingEdge}

/-- The state with a shard's buffer replaced. -/
def setBuffer (state : SpillState) (shardId : Nat) (buffer : List PendingEdge) : SpillState :=
  { state with buffersByShard := state.buffersByShard.insert shardId buffer }

theorem setBuffer_buffer (shardId : Nat) (buf : List PendingEdge) (other : Nat) :
    (state.setBuffer shardId buf).buffer other =
      if other = shardId then buf else state.buffer other := by
  unfold setBuffer buffer
  split_ifs with heq
  · rw [heq, AList.lookup_insert, Option.getD_some]
  · rw [AList.lookup_insert_ne heq]

theorem Sound.setBuffer (h : Sound cfg state) {shardId : Nat} {buf : List PendingEdge}
    (hbuf : ∀ edge ∈ buf, cfg.Owns shardId edge) : Sound cfg (state.setBuffer shardId buf) where
  buffers other edge hedge := by
    rw [setBuffer_buffer] at hedge
    split_ifs at hedge with heq
    · rw [heq]
      exact hbuf edge hedge
    · exact h.buffers other edge hedge
  writers := h.writers
  ids := h.ids

theorem Kept.setBuffer (h : Kept cfg state log) (shardId : Nat) (buf : List PendingEdge) :
    Kept cfg (state.setBuffer shardId buf) log :=
  ⟨h.opened, h.closed, h.manifest, fun entry hentry =>
    (h.segments entry hentry).extends fun _ _ _ hhas => ⟨[], by rwa [List.append_nil]⟩⟩

theorem edgesOf_concat (log : SegmentLog) (segment : SpillSegmentDesc) (edges : List PendingEdge)
    (shardId : Nat) :
    SegmentLog.edgesOf (log ++ [(segment, edges)]) shardId =
      log.edgesOf shardId ++ if segment.shardId.toNat = shardId then edges else [] := by
  unfold SegmentLog.edgesOf
  rw [List.filter_append, List.flatMap_append]
  split_ifs with heq
  · simp [heq]
  · simp [heq]

/-- A flush empties the shard's buffer and touches no other. -/
theorem flushShardBufferToPart_advances (choices : SpillChoices) (h : Sound cfg state)
    (shardId : Nat) :
    ∃ next, state.flushShardBufferToPart cfg choices shardId = .ok next ∧
      Advances cfg state next [] ∧
      ∀ other, next.buffer other = if other = shardId then [] else state.buffer other := by
  by_cases hnil : state.buffer shardId = []
  · refine ⟨state, ?_, .refl h, fun other => ?_⟩
    · rw [flushShardBufferToPart, if_pos hnil]
    · split_ifs with heq
      · rw [heq, hnil]
      · rfl
  · let staged := choices.sortEdges.sort (state.buffer shardId)
    let emptied := state.setBuffer shardId []
    let ready := emptied.ensurePartWriter cfg shardId (staged.length * RUN_RECORD_BYTES)
    have hperm : staged.Perm (state.buffer shardId) := choices.sortEdges.perm _
    have hne : staged ≠ [] := fun heq => hnil (heq ▸ hperm).symm.eq_nil
    have howns : ∀ edge ∈ staged, cfg.Owns shardId edge := fun edge hedge =>
      h.buffers shardId edge (hperm.mem_iff.mp hedge)
    have hemptied : Sound cfg emptied := h.setBuffer (by simp)
    have hready : Sound cfg ready := hemptied.ensurePartWriter shardId _
    obtain ⟨part, hpart⟩ : ∃ part, ready.partWritersByShard.lookup shardId = some part :=
      ensurePartWriter_lookup shardId _
    obtain ⟨-, bytes, hold, hlen⟩ := hready.writers shardId part hpart
    have hwrite : ∃ writer, ready.writeSegment shardId part staged =
        .ok (ready.wroteSegment shardId part staged writer) ∧
          writer.Wrote (bytes ++ staged.flatMap fun edge => edge.record.toBytes) :=
      writeSegment_ok hold fun edge hedge => (howns edge hedge).1
    obtain ⟨writer, hok, hwrote⟩ := hwrite
    have hbuffer : ∀ other, (ready.wroteSegment shardId part staged writer).buffer other =
        if other = shardId then [] else state.buffer other := fun other =>
      (ensurePartWriter_buffer shardId _ other).trans (setBuffer_buffer shardId [] other)
    refine ⟨ready.wroteSegment shardId part staged writer, ?_, ⟨?_, ?_, ?_⟩, hbuffer⟩
    · have hlookup : ((state.setBuffer shardId []).ensurePartWriter cfg shardId
          ((choices.sortEdges.sort (state.buffer shardId)).length *
            RUN_RECORD_BYTES)).partWritersByShard.lookup shardId = some part := hpart
      unfold flushShardBufferToPart
      rw [if_neg hnil]
      unfold setBuffer at hlookup
      dsimp only
      rw [hlookup]
      exact hok
    · exact hready.wroteSegment hpart hlen hwrote
    · intro other
      have hle : emptied.nextPartId other ≤ ready.nextPartId other :=
        ensurePartWriter_nextPartId_le shardId _ other
      exact hle
    · intro hids log input hkept haccounts
      have hkept : Kept cfg ready log :=
        (hkept.setBuffer shardId []).ensurePartWriter hemptied shardId _ hids
      refine ⟨_, hkept.wroteSegment hne howns hpart hold hlen hwrote, fun other => ?_⟩
      rw [hbuffer, edgesOf_concat, newSegment_shardId hne howns, List.append_nil]
      refine .trans ?_ (haccounts other)
      rcases eq_or_ne other shardId with rfl | hother
      · rw [if_pos rfl, if_pos rfl, List.nil_append]
        exact List.perm_append_comm.trans (hperm.append_right _)
      · rw [if_neg hother, if_neg hother.symm, List.append_nil]

end

/-! ## Feeding -/

theorem Advances.perm {cfg : SpillConfig} {state next : SpillState} {more more' : List PendingEdge}
    (h : Advances cfg state next more) (hperm : more.Perm more') : Advances cfg state next more' where
  sound := h.sound
  ids := h.ids
  kept hids log input hkept haccounts := by
    obtain ⟨log', hkept, haccounts⟩ := h.kept hids log input hkept haccounts
    exact ⟨log', hkept, fun shardId =>
      (haccounts shardId).trans ((hperm.append_left input).filter _)⟩

section

variable {cfg : SpillConfig} {state : SpillState}

/-- An edge joins its shard's buffer. -/
theorem buffered_advances (h : Sound cfg state) {edge : PendingEdge} (hp : edge.p < 2 ^ 32) :
    Advances cfg state (state.setBuffer (edge.p / cfg.shardPoints)
      (state.buffer (edge.p / cfg.shardPoints) ++ [edge])) [edge] where
  sound := by
    apply h.setBuffer
    intro e he
    rcases List.mem_append.mp he with hold | hnew
    · exact h.buffers _ e hold
    · obtain rfl := List.mem_singleton.mp hnew
      exact ⟨hp, rfl⟩
  ids _ := UInt16.le_refl _
  kept _ log input hkept haccounts := by
    refine ⟨log, hkept.setBuffer _ _, fun shardId => ?_⟩
    rw [setBuffer_buffer, List.filter_append]
    split_ifs with heq
    · subst heq
      rw [List.filter_cons_of_pos (by simp), List.filter_nil, List.append_assoc]
      have hcomm : ([edge] ++ log.edgesOf (edge.p / cfg.shardPoints)).Perm
          (log.edgesOf (edge.p / cfg.shardPoints) ++ [edge]) := List.perm_append_comm
      refine (hcomm.append_left _).trans ?_
      rw [← List.append_assoc]
      exact (haccounts _).append_right [edge]
    · rw [List.filter_cons_of_neg (by simpa using Ne.symm heq), List.filter_nil, List.append_nil]
      exact haccounts shardId

theorem pushEdge_advances (choices : SpillChoices) (h : Sound cfg state) {edge : PendingEdge}
    (hp : edge.p < 2 ^ 32) :
    ∃ next, state.pushEdge cfg choices edge = .ok next ∧ Advances cfg state next [edge] := by
  have hbuffered := buffered_advances h hp
  unfold pushEdge
  dsimp only
  split_ifs with hfull
  · obtain ⟨next, hflush, hnext, -⟩ :=
      flushShardBufferToPart_advances choices hbuffered.sound (edge.p / cfg.shardPoints)
    exact ⟨next, hflush, hbuffered.trans hnext⟩
  · exact ⟨_, rfl, hbuffered⟩

theorem pushEdges_advances (choices : SpillChoices) {edges : List PendingEdge}
    (hp : ∀ edge ∈ edges, edge.p < 2 ^ 32) (h : Sound cfg state) :
    ∃ next, edges.foldlM (pushEdge cfg choices) state = .ok next ∧
      Advances cfg state next edges := by
  induction edges generalizing state with
  | nil => exact ⟨state, rfl, .refl h⟩
  | cons edge edges ih =>
      obtain ⟨mid, hpush, hmid⟩ := pushEdge_advances choices h (hp edge List.mem_cons_self)
      obtain ⟨next, hrest, hnext⟩ := ih (fun e he => hp e (List.mem_cons_of_mem _ he)) hmid.sound
      refine ⟨next, ?_, hmid.trans hnext⟩
      rw [List.foldlM_cons, hpush]
      exact hrest

theorem flushPendingEdges_advances (choices : SpillChoices) {edges : List PendingEdge}
    (hp : ∀ edge ∈ edges, edge.p < 2 ^ 32) (h : Sound cfg state) :
    ∃ next, state.flushPendingEdges cfg choices edges = .ok next ∧
      Advances cfg state next edges := by
  have hperm := choices.sortEdges.perm edges
  obtain ⟨next, hpush, hnext⟩ :=
    pushEdges_advances choices (fun edge hedge => hp edge (hperm.mem_iff.mp hedge)) h
  exact ⟨next, hpush, hnext.perm hperm⟩

theorem batches_advances (choices : SpillChoices) {batches : List (List PendingEdge)}
    (hp : ∀ edge ∈ batches.flatten, edge.p < 2 ^ 32) (h : Sound cfg state) :
    ∃ next, batches.foldlM (flushPendingEdges cfg choices) state = .ok next ∧
      Advances cfg state next batches.flatten := by
  induction batches generalizing state with
  | nil => exact ⟨state, rfl, .refl h⟩
  | cons edges batches ih =>
      rw [List.flatten_cons] at hp ⊢
      obtain ⟨mid, hflush, hmid⟩ := flushPendingEdges_advances choices
        (fun edge hedge => hp edge (List.mem_append_left _ hedge)) h
      obtain ⟨next, hrest, hnext⟩ :=
        ih (fun edge hedge => hp edge (List.mem_append_right _ hedge)) hmid.sound
      refine ⟨next, ?_, hmid.trans hnext⟩
      rw [List.foldlM_cons, hflush]
      exact hrest

/-! ## Finishing -/

theorem flushBuffers_advances (choices : SpillChoices) (shardIds : List Nat) (h : Sound cfg state) :
    ∃ next, shardIds.foldlM (flushShardBufferToPart cfg choices) state = .ok next ∧
      Advances cfg state next [] ∧
      ∀ other, next.buffer other = if other ∈ shardIds then [] else state.buffer other := by
  induction shardIds generalizing state with
  | nil => exact ⟨state, rfl, .refl h, fun _ => rfl⟩
  | cons shardId shardIds ih =>
      obtain ⟨mid, hflush, hmid, hmidBuffer⟩ := flushShardBufferToPart_advances choices h shardId
      obtain ⟨next, hrest, hnext, hnextBuffer⟩ := ih hmid.sound
      refine ⟨next, ?_, hmid.trans hnext, fun other => ?_⟩
      · rw [List.foldlM_cons, hflush]
        exact hrest
      · simp only [hnextBuffer, hmidBuffer, List.mem_cons]
        split_ifs <;> grind

/-- Every shard with edges in its buffer is among the keys. -/
theorem flushAllBuffersToParts_advances (choices : SpillChoices) (h : Sound cfg state) :
    ∃ next, state.flushAllBuffersToParts cfg choices = .ok next ∧ Advances cfg state next [] ∧
      ∀ shardId, next.buffer shardId = [] := by
  obtain ⟨next, hflush, hnext, hbuffer⟩ :=
    flushBuffers_advances choices (choices.bufferOrder state.buffersByShard.keys) h
  refine ⟨next, hflush, hnext, fun shardId => ?_⟩
  rw [hbuffer]
  split_ifs with hmem
  · rfl
  · rw [(choices.bufferOrder_perm _).mem_iff, ← AList.mem_keys, ← AList.lookup_eq_none] at hmem
    rw [buffer, hmem, Option.getD_none]

theorem closePart_advances (h : Sound cfg state) (shardId : Nat) :
    Advances cfg state (state.closePart shardId) [] where
  sound := h.closePart shardId
  ids other := by
    rw [closePart_nextPartId]
    exact UInt16.le_refl _
  kept _ log input hkept haccounts := by
    refine ⟨log, hkept.closePart h shardId, fun other => ?_⟩
    rw [closePart_buffer, List.append_nil]
    exact haccounts other

theorem closeParts_advances (shardIds : List Nat) (h : Sound cfg state) :
    Advances cfg state (shardIds.foldl closePart state) [] ∧
      ∀ other, (shardIds.foldl closePart state).partWritersByShard.lookup other =
        if other ∈ shardIds then none else state.partWritersByShard.lookup other := by
  induction shardIds generalizing state with
  | nil => exact ⟨.refl h, fun _ => rfl⟩
  | cons shardId shardIds ih =>
      obtain ⟨hnext, hlookup⟩ := ih (h.closePart shardId)
      refine ⟨(closePart_advances h shardId).trans hnext, fun other => ?_⟩
      simp only [List.foldl_cons, hlookup, closePart_lookup, List.mem_cons]
      split_ifs <;> grind

/-- Closing parts leaves the buffers alone. -/
theorem closeParts_buffer (shardIds : List Nat) (state : SpillState) (other : Nat) :
    (shardIds.foldl closePart state).buffer other = state.buffer other := by
  induction shardIds generalizing state with
  | nil => rfl
  | cons shardId shardIds ih => rw [List.foldl_cons, ih, closePart_buffer]

theorem finishPartWriters_advances (choices : SpillChoices) (h : Sound cfg state) :
    Advances cfg state (state.finishPartWriters choices) [] ∧
      ∀ shardId, (state.finishPartWriters choices).partWritersByShard.lookup shardId = none := by
  obtain ⟨hnext, hlookup⟩ :=
    closeParts_advances (choices.writerOrder state.partWritersByShard.keys) h
  refine ⟨hnext, fun shardId => ?_⟩
  rw [finishPartWriters, hlookup]
  split_ifs with hmem
  · rfl
  · rwa [(choices.writerOrder_perm _).mem_iff, ← AList.mem_keys, ← AList.lookup_eq_none] at hmem

end

end SpillState

/-! ## The artifacts -/

/-- A segment of the artifacts opens and reads back the edges that were written to it. -/
structure SpillArtifacts.Stores (artifacts : SpillArtifacts) (cfg : SpillConfig)
    (segment : SpillSegmentDesc) (edges : List PendingEdge) : Prop where
  owns : ∀ edge ∈ edges, cfg.Owns segment.shardId.toNat edge
  srcMin : ∃ edge ∈ edges, segment.srcMin = UInt32.ofNat edge.p
  srcMax : ∃ edge ∈ edges, segment.srcMax = UInt32.ofNat edge.p
  opens : ∃ reader, openSegment artifacts segment = .ok reader ∧
    reader.edges = (edges.map PendingEdge.spilled, none)

/-- No shard has reached 65535 parts. -/
def SpillArtifacts.PartsFit (artifacts : SpillArtifacts) : Prop :=
  ∀ shardId, (artifacts.partFiles.filter fun part => part.shardId = shardId).length < 65535

namespace SpillState

/-- With all parts closed, a segment is found in the last part of its shard and id. -/
theorem SegmentHas.stores {cfg : SpillConfig} {state : SpillState} {log : SegmentLog}
    {segment : SpillSegmentDesc} {edges : List PendingEdge}
    (h : SegmentHas cfg state segment edges) (hkept : Kept cfg state log)
    (hclosed : ∀ shardId, state.partWritersByShard.lookup shardId = none) :
    SpillArtifacts.Stores ⟨state.partFiles, state.segmentManifest, state.files⟩ cfg segment
      edges where
  owns := h.owns
  srcMin := h.srcMin
  srcMax := h.srcMax
  opens := by
    obtain ⟨bytes, hhas, hholds⟩ := h.part
    rcases hhas with ⟨part, hpart, -⟩ | ⟨⟨desc, hdesc, hshard, hid⟩, hfile⟩
    · rw [hclosed] at hpart
      cases hpart
    · let wanted := fun part : SpillPartFileDesc =>
        part.shardId = segment.shardId.toNat && part.fileId = segment.fileId
      obtain ⟨found, hfound⟩ : ∃ found, state.partFiles.reverse.find? wanted = some found := by
        rw [← Option.isSome_iff_exists, List.find?_isSome]
        exact ⟨desc, List.mem_reverse.mpr hdesc, by simp [wanted, hshard, hid]⟩
      have hmem := List.mem_reverse.mp (List.mem_of_find?_eq_some hfound)
      have hwanted : found.shardId = segment.shardId.toNat ∧ found.fileId = segment.fileId := by
        simpa [wanted] using List.find?_some hfound
      refine ⟨.new bytes segment.byteOffset segment.byteLen, ?_, ?_⟩
      · have hpath := (hkept.closed found hmem).1
        rw [hwanted.1, hwanted.2] at hpath
        simp only [openSegment]
        rw [hfound]
        simp only [hpath, hfile]
      · rw [h.byteLen]
        exact SegmentReader.edges_of_holds (fun edge hedge => (h.owns edge hedge).1) hholds

end SpillState

/-- Whatever is fed to a sink stands in the segments of its artifacts, shard by shard. -/
theorem spillBatches_stores (cfg : SpillConfig) (choices : SpillChoices)
    {batches : List (List PendingEdge)} (hp : ∀ edge ∈ batches.flatten, edge.p < 2 ^ 32) :
    ∃ artifacts, spillBatches cfg choices batches = .ok artifacts ∧
      (artifacts.PartsFit → ∃ log : SegmentLog, artifacts.segmentManifest = log.map Prod.fst ∧
        (∀ entry ∈ log, artifacts.Stores cfg entry.1 entry.2) ∧
        ∀ shardId, (log.edgesOf shardId).Perm
          (batches.flatten.filter fun edge => edge.p / cfg.shardPoints = shardId)) := by
  obtain ⟨fed, hfeed, hfed⟩ :=
    SpillState.batches_advances choices hp (SpillState.create_sound cfg)
  obtain ⟨flushed, hflush, hflushed, hempty⟩ :=
    SpillState.flushAllBuffersToParts_advances choices hfed.sound
  obtain ⟨hfinished, hclosed⟩ := SpillState.finishPartWriters_advances choices hflushed.sound
  have hall := (hfed.trans hflushed).trans hfinished
  let finished := flushed.finishPartWriters choices
  refine ⟨⟨finished.partFiles, finished.segmentManifest, finished.files⟩, ?_, fun hfit => ?_⟩
  · rw [spillBatches, hfeed]
    change fed.finish cfg choices = _
    rw [SpillState.finish, hflush]
    rfl
  · have hids : SpillState.IdsLeft (flushed.finishPartWriters choices) := by
      intro shardId
      apply Nat.lt_of_le_of_lt (hfinished.sound.ids shardId)
      rw [SpillState.partCount, hclosed]
      exact hfit shardId
    obtain ⟨log, hkept, haccounts⟩ :=
      hall.kept hids [] [] (SpillState.create_kept cfg) (SpillState.create_accounts cfg)
    refine ⟨log, hkept.manifest, fun entry hentry => ?_, fun shardId => ?_⟩
    · exact (hkept.segments entry hentry).stores hkept hclosed
    · have hperm := haccounts shardId
      rw [SpillState.finishPartWriters, SpillState.closeParts_buffer, hempty] at hperm
      simpa using hperm

end ForgeANN
