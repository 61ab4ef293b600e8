-- SUMMARY: Materialising merged children from assignment records, and what each child ends up holding.
import ForgeANN.Common.Chunks
import ForgeANN.Rbc.AssignRecord
import ForgeANN.Rbc.Merge
import ForgeANN.Rbc.RunStore

/-!
# Materialising merged children

The assignment records are read in batches; each point goes once to every
merged group that one of its leaders belongs to. A group's points gather in a
buffer that is flushed to the run store when it is full, unless the group is
small enough to be returned inline.
-/
namespace ForgeANN

def MATERIALIZE_CHILD_BUFFER_POINTS : Nat := 4096
def MATERIALIZE_BATCH_POINTS : Nat := 16384

structure BufferedMergedChild where
  extents : List RunExtent
  buffer : List UInt32
  inline : Bool
deriving Repr

structure MaterializedMergedChild where
  extents : List RunExtent
  points : Option (List UInt32)
deriving Repr

def indexOutOfBounds (len index : Nat) : AnnError :=
  .panic s!"index out of bounds: the len is {len} but the index is {index}"

/-! ## The code -/

/-- One past the greatest raw child of a group. -/
def rawChildCount (mergeGroups : List MergedRawGroup) : Nat :=
  (mergeGroups.flatMap MergedRawGroup.rawChildren).foldl (fun n c => max n (c.toNat + 1)) 0

/-- Writes the index of a merged group at its raw children. -/
def setRawToMerged (rawToMerged : List UInt16) (mergedIdx : Nat) (rawChildren : List UInt16) :
    List UInt16 :=
  rawChildren.foldl (fun map c => map.set c.toNat (UInt16.ofNat mergedIdx)) rawToMerged

def rawToMerged (mergeGroups : List MergedRawGroup) : List UInt16 :=
  mergeGroups.zipIdx.foldl (fun map (group, mergedIdx) => setRawToMerged map mergedIdx group.rawChildren)
    (List.replicate (rawChildCount mergeGroups) 0xFFFF)

/-- The merged groups of a point, without repetition, in the order of its leaders. -/
def mergedForPoint (map : List UInt16) (merged : List UInt16) : List UInt16 → AnnResult (List UInt16)
  | [] => .ok merged
  | rawChild :: record =>
      match map[rawChild.toNat]? with
      | none => .error (indexOutOfBounds map.length rawChild.toNat)
      | some mergedIdx =>
          if mergedIdx ∈ merged then mergedForPoint map merged record
          else mergedForPoint map (merged ++ [mergedIdx]) record

def flushMaterializedChildBuffer (depth : Nat) (child : BufferedMergedChild)
    (store : ExternalRunStore) : BufferedMergedChild × ExternalRunStore :=
  if child.buffer = [] then (child, store)
  else
    let (extent, store) := store.appendPoints depth child.buffer
    ({ child with extents := child.extents ++ [extent], buffer := [] }, store)

/-- The children under construction, and the store their runs go to. -/
abbrev MaterializeState := List BufferedMergedChild × ExternalRunStore

def pushPoint (depth bufferCap : Nat) (point : UInt32) (st : MaterializeState) (mergedIdx : UInt16) :
    AnnResult MaterializeState :=
  match st.1[mergedIdx.toNat]? with
  | none => .error (indexOutOfBounds st.1.length mergedIdx.toNat)
  | some child =>
      let child := { child with buffer := child.buffer ++ [point] }
      if !child.inline ∧ bufferCap ≤ child.buffer.length then
        let (child, store) := flushMaterializedChildBuffer depth child st.2
        .ok (st.1.set mergedIdx.toNat child, store)
      else .ok (st.1.set mergedIdx.toNat child, st.2)

def pushPoints (depth bufferCap : Nat) (st : MaterializeState) (points : List (UInt32 × List UInt16)) :
    AnnResult MaterializeState :=
  points.foldlM (fun st (point, merged) => merged.foldlM (pushPoint depth bufferCap point) st) st

def readBatch {σ : Type} [AssignmentRecordSource σ] (recordCap : Nat) (source : σ) :
    Nat → AnnResult (List (List UInt16 × Nat) × σ)
  | 0 => .ok ([], source)
  | n + 1 => do
      let (record, source) ← AssignmentRecordSource.readRecord source recordCap
      let (records, source) ← readBatch recordCap source n
      .ok (record :: records, source)

def materializeBatch {σ : Type} [AssignmentRecordSource σ] (depth bufferCap recordCap : Nat)
    (map : List UInt16) (st : σ × MaterializeState) (pointBatch : List UInt32) :
    AnnResult (σ × MaterializeState) := do
  let (records, source) ← readBatch recordCap st.1 pointBatch.length
  let perPointMerged ←
    (records.map fun (record, len) => record.take len).mapM (mergedForPoint map [])
  let st ← pushPoints depth bufferCap st.2 (pointBatch.zip perPointMerged)
  .ok (source, st)

/-- Buffers left over are flushed, or returned for inline children. -/
def finishChildren (depth : Nat) :
    List BufferedMergedChild → ExternalRunStore → List MaterializedMergedChild × ExternalRunStore
  | [], store => ([], store)
  | child :: children, store =>
      let (child, store) :=
        if child.inline then (child, store) else flushMaterializedChildBuffer depth child store
      let (materialized, store) := finishChildren depth children store
      (⟨child.extents, if child.inline then some child.buffer else none⟩ :: materialized, store)

def materializeMergedChildrenFromAssignmentRecords {σ : Type} [AssignmentRecordSource σ]
    (cur : List UInt32) (depth fanout : Nat) (mergeGroups : List MergedRawGroup)
    (assignmentSource : σ) (store : ExternalRunStore) (inlineLimit : Option Nat) :
    AnnResult (List MaterializedMergedChild × ExternalRunStore) := do
  let map := rawToMerged mergeGroups
  let recordCap := assignRecordFanout fanout
  let bufferCap := max MATERIALIZE_CHILD_BUFFER_POINTS recordCap
  let children := mergeGroups.map fun group : MergedRawGroup =>
    (⟨[], [], inlineLimit.any fun limit => group.rawLen ≤ limit⟩ : BufferedMergedChild)
  let batchPoints := max MATERIALIZE_BATCH_POINTS bufferCap
  let (_, children, store) ← (chunks batchPoints cur).foldlM
    (materializeBatch depth bufferCap recordCap map) (assignmentSource, children, store)
  .ok (finishChildren depth children store)

/-- The points of a materialised child: inline, or from its runs. -/
def readMaterialized (store : ExternalRunStore) (depth : Nat) (child : MaterializedMergedChild) :
    AnnResult (List UInt32) :=
  match child.points with
  | some points => .ok points
  | none => store.readChildRunChain depth child.extents

/-! ## The groups of a point -/

section

variable {mergeGroups : List MergedRawGroup} {map : List UInt16}

private theorem foldl_max_le {l : List UInt16} {n : Nat} :
    n ≤ l.foldl (fun n c => max n (c.toNat + 1)) n ∧
      ∀ c ∈ l, c.toNat < l.foldl (fun n c => max n (c.toNat + 1)) n := by
  induction l generalizing n with
  | nil => simp
  | cons a l ih =>
      obtain ⟨hle, hmem⟩ := ih (n := max n (a.toNat + 1))
      refine ⟨by rw [List.foldl_cons]; omega, fun c hc => ?_⟩
      rcases List.mem_cons.mp hc with rfl | hc
      · rw [List.foldl_cons]; omega
      · exact hmem c hc

theorem lt_rawChildCount {c : UInt16} (h : c ∈ mergeGroups.flatMap MergedRawGroup.rawChildren) :
    c.toNat < rawChildCount mergeGroups :=
  foldl_max_le.2 c h

@[simp] theorem setRawToMerged_length (mergedIdx : Nat) (rawChildren : List UInt16) :
    (setRawToMerged map mergedIdx rawChildren).length = map.length := by
  induction rawChildren generalizing map with
  | nil => rfl
  | cons c rawChildren ih =>
      rw [setRawToMerged, List.foldl_cons, ← setRawToMerged, ih, List.length_set]

theorem setRawToMerged_getElem? {mergedIdx : Nat} {rawChildren : List UInt16} {c : UInt16}
    (hc : c.toNat < map.length) :
    (setRawToMerged map mergedIdx rawChildren)[c.toNat]? =
      if c ∈ rawChildren then some (UInt16.ofNat mergedIdx) else map[c.toNat]? := by
  induction rawChildren generalizing map with
  | nil => simp [setRawToMerged]
  | cons a rawChildren ih =>
      rw [setRawToMerged, List.foldl_cons, ← setRawToMerged, ih (by rwa [List.length_set]),
        List.getElem?_set]
      by_cases hmem : c ∈ rawChildren
      · simp [hmem]
      · by_cases ha : a = c
        · subst ha
          simp [hmem, hc]
        · have hne : a.toNat ≠ c.toNat := fun h => ha (UInt16.toNat_inj.mp h)
          simp [hmem, hne, Ne.symm ha]

/-- The fold over groups numbered from `k` on: groups without a raw child leave it alone. -/
private theorem foldl_setRawToMerged_of_notMem {c : UInt16}
    (hc : c ∉ mergeGroups.flatMap MergedRawGroup.rawChildren) (k : Nat)
    (hlt : c.toNat < map.length) :
    ((mergeGroups.zipIdx k).foldl (fun map (p : MergedRawGroup × Nat) =>
      setRawToMerged map p.2 p.1.rawChildren) map)[c.toNat]? = map[c.toNat]? := by
  induction mergeGroups generalizing map k with
  | nil => rfl
  | cons group groups ih =>
      rw [List.flatMap_cons, List.mem_append, not_or] at hc
      rw [List.zipIdx_cons, List.foldl_cons, ih hc.2 _ (by rwa [setRawToMerged_length]),
        setRawToMerged_getElem? hlt, if_neg hc.1]

private theorem foldl_setRawToMerged_getElem?
    (hnodup : (mergeGroups.flatMap MergedRawGroup.rawChildren).Nodup) {j k : Nat}
    {group : MergedRawGroup} (hj : mergeGroups[j]? = some group) {c : UInt16}
    (hc : c ∈ group.rawChildren) (hlt : c.toNat < map.length) :
    ((mergeGroups.zipIdx k).foldl (fun map (p : MergedRawGroup × Nat) =>
      setRawToMerged map p.2 p.1.rawChildren) map)[c.toNat]? = some (UInt16.ofNat (j + k)) := by
  induction mergeGroups generalizing map j k with
  | nil => simp at hj
  | cons first groups ih =>
      rw [List.flatMap_cons, List.nodup_append'] at hnodup
      rw [List.zipIdx_cons, List.foldl_cons]
      cases j with
      | zero =>
          cases hj
          rw [foldl_setRawToMerged_of_notMem (fun h => hnodup.2.2 hc h) _
            (by rwa [setRawToMerged_length]), setRawToMerged_getElem? hlt, if_pos hc, Nat.zero_add]
      | succ j =>
          rw [ih hnodup.2.1 hj (by rwa [setRawToMerged_length]), Nat.add_assoc, Nat.add_comm 1]

/-- Each raw child of a group is mapped to the group's index. -/
theorem rawToMerged_getElem? (hnodup : (mergeGroups.flatMap MergedRawGroup.rawChildren).Nodup)
    {j : Nat} {group : MergedRawGroup} (hj : mergeGroups[j]? = some group) {c : UInt16}
    (hc : c ∈ group.rawChildren) :
    (rawToMerged mergeGroups)[c.toNat]? = some (UInt16.ofNat j) := by
  have hgroup : group ∈ mergeGroups := List.mem_of_getElem? hj
  have hlt : c.toNat < (List.replicate (rawChildCount mergeGroups) (0xFFFF : UInt16)).length := by
    rw [List.length_replicate]
    exact lt_rawChildCount (List.mem_flatMap.mpr ⟨group, hgroup, hc⟩)
  exact foldl_setRawToMerged_getElem? hnodup hj hc hlt

/-- Every leader is in a group: the groups it is in are found, each once. -/
theorem mergedForPoint_ok {leaders : List UInt16} (merged : List UInt16)
    (h : ∀ c ∈ leaders, ∃ m, map[c.toNat]? = some m) :
    ∃ all, mergedForPoint map merged leaders = .ok all ∧
      ∀ m, m ∈ all ↔ m ∈ merged ∨ ∃ c ∈ leaders, map[c.toNat]? = some m := by
  induction leaders generalizing merged with
  | nil => exact ⟨merged, rfl, by simp⟩
  | cons c leaders ih =>
      obtain ⟨mc, hmc⟩ := h c List.mem_cons_self
      have hrest : ∀ c ∈ leaders, ∃ m, map[c.toNat]? = some m :=
        fun d hd => h d (List.mem_cons_of_mem _ hd)
      simp only [mergedForPoint, hmc]
      split_ifs with hmem
      · obtain ⟨all, hall, hiff⟩ := ih merged hrest
        refine ⟨all, hall, fun m => ?_⟩
        rw [hiff, List.exists_mem_cons_iff, hmc]
        grind
      · obtain ⟨all, hall, hiff⟩ := ih (merged ++ [mc]) hrest
        refine ⟨all, hall, fun m => ?_⟩
        rw [hiff, List.exists_mem_cons_iff, hmc]
        grind

end

/-! ## What a child holds -/

section

open ExternalRunStore

variable {store : ExternalRunStore} {depth bufferCap : Nat}

/-- The points a child has been given: those of its runs, then those in its buffer. -/
structure Gathered (store : ExternalRunStore) (depth bufferCap : Nat) (child : BufferedMergedChild)
    (points : List UInt32) : Prop where
  runs : ∃ runs, List.Forall₂ (store.Stored depth) child.extents runs ∧
    runs.flatten ++ child.buffer = points
  inline_extents : child.inline = true → child.extents = []
  small : child.inline = false → child.buffer.length < bufferCap

/-- Flushing moves the buffer into a run; nothing else in the store changes. -/
theorem flush_gathered {child : BufferedMergedChild} {points : List UInt32}
    (hruns : ∃ runs, List.Forall₂ (store.Stored depth) child.extents runs ∧
      runs.flatten ++ child.buffer = points)
    (hinline : child.inline = false) (hfits : child.buffer.length < 2 ^ 64) (hcap : 0 < bufferCap) :
    Gathered (flushMaterializedChildBuffer depth child store).2 depth bufferCap
      (flushMaterializedChildBuffer depth child store).1 points := by
  obtain ⟨runs, hruns, heq⟩ := hruns
  rw [flushMaterializedChildBuffer]
  split_ifs with hempty
  · exact ⟨⟨runs, hruns, heq⟩, by simp [hinline], fun _ => by rwa [hempty]⟩
  · refine ⟨⟨runs ++ [child.buffer], ?_, by simpa using heq⟩, by simp [hinline], fun _ => hcap⟩
    exact List.rel_append (hruns.imp fun _ _ hs => hs.appendPoints child.buffer)
      (.cons (appendPoints_stored hfits) .nil)

theorem flush_inline (child : BufferedMergedChild) :
    (flushMaterializedChildBuffer depth child store).1.inline = child.inline := by
  rw [flushMaterializedChildBuffer]
  split_ifs <;> rfl

theorem flush_buffer (child : BufferedMergedChild) :
    (flushMaterializedChildBuffer depth child store).1.buffer = [] := by
  rw [flushMaterializedChildBuffer]
  split_ifs with h
  · exact h
  · rfl

/-- Runs of other children survive a flush. -/
theorem flush_stored {child : BufferedMergedChild} {extent : RunExtent} {points : List UInt32}
    (h : store.Stored depth extent points) :
    (flushMaterializedChildBuffer depth child store).2.Stored depth extent points := by
  rw [flushMaterializedChildBuffer]
  split_ifs
  · exact h
  · exact h.appendPoints _

theorem Gathered.flush {child : BufferedMergedChild} {points : List UInt32}
    (h : Gathered store depth bufferCap child points) (other : BufferedMergedChild) :
    Gathered (flushMaterializedChildBuffer depth other store).2 depth bufferCap child points := by
  obtain ⟨⟨runs, hruns, heq⟩, hinline, hsmall⟩ := h
  exact ⟨⟨runs, hruns.imp fun _ _ => flush_stored, heq⟩, hinline, hsmall⟩

/-- Child `j` has been given the points `points j`. -/
def AllGathered (depth bufferCap : Nat) (points : Nat → List UInt32) (st : MaterializeState) : Prop :=
  ∀ j child, st.1[j]? = some child → Gathered st.2 depth bufferCap child (points j)

theorem AllGathered.set {points : Nat → List UInt32} {children : List BufferedMergedChild}
    {m : Nat} {child : BufferedMergedChild} {more : List UInt32}
    (h : ∀ j c, m ≠ j → children[j]? = some c → Gathered store depth bufferCap c (points j))
    (hchild : Gathered store depth bufferCap child (points m ++ more)) :
    AllGathered depth bufferCap (fun j => points j ++ if m = j then more else [])
      (children.set m child, store) := by
  intro j c hc
  rw [List.getElem?_set] at hc
  by_cases hm : m = j
  · subst hm
    rw [if_pos rfl] at hc
    split_ifs at hc
    cases hc
    simpa using hchild
  · rw [if_neg hm] at hc
    simpa [hm] using h j c hm hc

variable {points : Nat → List UInt32} {st : MaterializeState}

theorem pushPoint_ok (hcap : 0 < bufferCap) (hfits : bufferCap < 2 ^ 64) {point : UInt32}
    {mergedIdx : UInt16} (hidx : mergedIdx.toNat < st.1.length)
    (h : AllGathered depth bufferCap points st) :
    ∃ st', pushPoint depth bufferCap point st mergedIdx = .ok st' ∧ st'.1.length = st.1.length ∧
      AllGathered depth bufferCap
        (fun j => points j ++ if mergedIdx.toNat = j then [point] else []) st' := by
  obtain ⟨children, store⟩ := st
  have hget := List.getElem?_eq_getElem hidx
  obtain ⟨⟨runs, hruns, heq⟩, hinline, hsmall⟩ := h _ _ hget
  have hpushed : runs.flatten ++ (children[mergedIdx.toNat].buffer ++ [point]) =
      points mergedIdx.toNat ++ [point] := by
    rw [← List.append_assoc, heq]
  simp only [pushPoint, hget]
  split_ifs with hflush
  · simp only [Bool.not_eq_eq_eq_not, Bool.not_true, List.length_append, List.length_singleton]
      at hflush
    have hlt : children[mergedIdx.toNat].buffer.length < bufferCap := hsmall hflush.1
    refine ⟨_, rfl, List.length_set .., AllGathered.set (fun j c _ hc => (h j c hc).flush _) ?_⟩
    refine flush_gathered ⟨runs, hruns, hpushed⟩ hflush.1 ?_ hcap
    rw [List.length_append, List.length_singleton]
    omega
  · refine ⟨_, rfl, List.length_set .., AllGathered.set (fun j c _ hc => h j c hc) ?_⟩
    refine ⟨⟨runs, hruns, hpushed⟩, hinline, fun hno => ?_⟩
    simp only [Bool.not_eq_eq_eq_not, Bool.not_true, not_and, not_le] at hflush
    exact hflush hno

/-- What pushing a point to the groups `merged` adds to child `j`. -/
def pushed (j : Nat) (point : UInt32 × List UInt16) : List UInt32 :=
  List.replicate ((point.2.map UInt16.toNat).count j) point.1

theorem pushMerged_ok (hcap : 0 < bufferCap) (hfits : bufferCap < 2 ^ 64) (point : UInt32)
    {merged : List UInt16} (hidx : ∀ m ∈ merged, m.toNat < st.1.length)
    (h : AllGathered depth bufferCap points st) :
    ∃ st', merged.foldlM (pushPoint depth bufferCap point) st = .ok st' ∧
      st'.1.length = st.1.length ∧
      AllGathered depth bufferCap (fun j => points j ++ pushed j (point, merged)) st' := by
  induction merged generalizing st points with
  | nil => exact ⟨st, rfl, rfl, by simpa [pushed] using h⟩
  | cons m merged ih =>
      obtain ⟨st₁, hpush, hlen₁, h₁⟩ := pushPoint_ok hcap hfits (hidx m List.mem_cons_self) h
      obtain ⟨st₂, hfold, hlen₂, h₂⟩ :=
        ih (fun k hk => hlen₁ ▸ hidx k (List.mem_cons_of_mem _ hk)) h₁
      refine ⟨st₂, ?_, hlen₂.trans hlen₁, ?_⟩
      · rw [List.foldlM_cons, hpush]
        exact hfold
      · intro j child hchild
        have hall := h₂ j child hchild
        simp only [List.append_assoc] at hall ⊢
        convert hall using 2
        by_cases hm : m.toNat = j
        · simp [pushed, hm, List.replicate_succ]
        · simp [pushed, hm]

theorem pushPoints_ok (hcap : 0 < bufferCap) (hfits : bufferCap < 2 ^ 64)
    {batch : List (UInt32 × List UInt16)} (hidx : ∀ p ∈ batch, ∀ m ∈ p.2, m.toNat < st.1.length)
    (h : AllGathered depth bufferCap points st) :
    ∃ st', pushPoints depth bufferCap st batch = .ok st' ∧ st'.1.length = st.1.length ∧
      AllGathered depth bufferCap (fun j => points j ++ batch.flatMap (pushed j)) st' := by
  induction batch generalizing st points with
  | nil => exact ⟨st, rfl, rfl, by simpa using h⟩
  | cons p batch ih =>
      obtain ⟨point, merged⟩ := p
      have hmerged : ∀ m ∈ merged, m.toNat < st.1.length :=
        hidx (point, merged) List.mem_cons_self
      obtain ⟨st₁, hpush, hlen₁, h₁⟩ := pushMerged_ok hcap hfits point hmerged h
      obtain ⟨st₂, hfold, hlen₂, h₂⟩ :=
        ih (fun q hq m hm => hlen₁ ▸ hidx q (List.mem_cons_of_mem _ hq) m hm) h₁
      refine ⟨st₂, ?_, hlen₂.trans hlen₁, ?_⟩
      · simp only [pushPoints, List.foldlM_cons, hpush]
        exact hfold
      · intro j child hchild
        simpa using h₂ j child hchild

/-! ## Batches -/

variable {σ : Type} [AssignmentRecordSource σ] {cap : Nat} {source : σ} {map : List UInt16}

theorem readBatch_ok {now later : List (List UInt16)} (h : Delivers cap source (now ++ later)) :
    ∃ records source', readBatch cap source now.length = .ok (records, source') ∧
      (records.map fun r => r.1.take r.2) = now ∧ Delivers cap source' later := by
  induction now generalizing source with
  | nil => exact ⟨[], source, rfl, rfl, h⟩
  | cons leaders now ih =>
      cases h with
      | @cons _ source₁ slots _ _ hread hslots hrest =>
          obtain ⟨records, source₂, hbatch, hmap, hlater⟩ := ih hrest
          refine ⟨(slots, leaders.length) :: records, source₂, ?_, ?_, hlater⟩
          · rw [List.length_cons, readBatch, hread]
            simp only [bind, Except.bind, hbatch]
          · rw [List.map_cons, hslots, hmap]

/-- The groups of a point whose leaders are all in some group. -/
def pointMerged (map : List UInt16) (leaders : List UInt16) : List UInt16 :=
  match mergedForPoint map [] leaders with
  | .ok merged => merged
  | .error _ => []

theorem mergedForPoint_eq {leaders : List UInt16} (h : ∀ c ∈ leaders, ∃ m, map[c.toNat]? = some m) :
    mergedForPoint map [] leaders = .ok (pointMerged map leaders) := by
  obtain ⟨all, hall, -⟩ := mergedForPoint_ok [] h
  simp only [pointMerged, hall]

theorem mem_pointMerged {leaders : List UInt16} (h : ∀ c ∈ leaders, ∃ m, map[c.toNat]? = some m)
    {m : UInt16} : m ∈ pointMerged map leaders ↔ ∃ c ∈ leaders, map[c.toNat]? = some m := by
  obtain ⟨all, hall, hiff⟩ := mergedForPoint_ok [] h
  simp only [pointMerged, hall, hiff, List.not_mem_nil, false_or]

theorem mapM_mergedForPoint {assignment : List (List UInt16)}
    (h : ∀ leaders ∈ assignment, ∀ c ∈ leaders, ∃ m, map[c.toNat]? = some m) :
    assignment.mapM (mergedForPoint map []) = .ok (assignment.map (pointMerged map)) := by
  induction assignment with
  | nil => rfl
  | cons leaders assignment ih =>
      rw [List.mapM_cons, mergedForPoint_eq (h leaders List.mem_cons_self),
        ih fun l hl => h l (List.mem_cons_of_mem _ hl)]
      rfl

/-- Every leader of the assignment is in a group, and every group has a child. -/
structure Mapped (map : List UInt16) (n : Nat) (assignment : List (List UInt16)) : Prop where
  covered : ∀ leaders ∈ assignment, ∀ c ∈ leaders, ∃ m, map[c.toNat]? = some m
  bounded : ∀ leaders ∈ assignment, ∀ c ∈ leaders, ∀ m, map[c.toNat]? = some m → m.toNat < n

theorem Mapped.append {n : Nat} {now later : List (List UInt16)}
    (h : Mapped map n (now ++ later)) : Mapped map n now ∧ Mapped map n later :=
  ⟨⟨fun l hl => h.covered l (List.mem_append_left _ hl),
      fun l hl => h.bounded l (List.mem_append_left _ hl)⟩,
    ⟨fun l hl => h.covered l (List.mem_append_right _ hl),
      fun l hl => h.bounded l (List.mem_append_right _ hl)⟩⟩

theorem materializeBatch_ok (hcap : 0 < bufferCap) (hfits : bufferCap < 2 ^ 64)
    {batch : List UInt32} {now later : List (List UInt16)} (hlen : now.length = batch.length)
    (hsource : Delivers cap source (now ++ later)) (hmapped : Mapped map st.1.length now)
    (h : AllGathered depth bufferCap points st) :
    ∃ source' st', materializeBatch depth bufferCap cap map (source, st) batch =
        .ok (source', st') ∧
      Delivers cap source' later ∧ st'.1.length = st.1.length ∧
      AllGathered depth bufferCap
        (fun j => points j ++ (batch.zip (now.map (pointMerged map))).flatMap (pushed j)) st' := by
  obtain ⟨records, source', hread, hrecords, hlater⟩ := readBatch_ok hsource
  have hidx : ∀ p ∈ batch.zip (now.map (pointMerged map)), ∀ m ∈ p.2, m.toNat < st.1.length := by
    intro p hp m hm
    obtain ⟨leaders, hleaders, hp₂⟩ := List.mem_map.mp (List.of_mem_zip hp).2
    rw [← hp₂, mem_pointMerged (hmapped.covered leaders hleaders)] at hm
    obtain ⟨c, hc, hm⟩ := hm
    exact hmapped.bounded leaders hleaders c hc m hm
  obtain ⟨st', hpush, hlen', h'⟩ := pushPoints_ok hcap hfits hidx h
  refine ⟨source', st', ?_, hlater, hlen', h'⟩
  rw [materializeBatch, ← hlen]
  simp only [hread, hrecords, mapM_mergedForPoint hmapped.covered, bind, Except.bind, hpush]

theorem foldlM_materializeBatch_ok (hcap : 0 < bufferCap) (hfits : bufferCap < 2 ^ 64)
    {batches : List (List UInt32)} {assignment : List (List UInt16)}
    (hlen : assignment.length = batches.flatten.length)
    (hsource : Delivers cap source assignment) (hmapped : Mapped map st.1.length assignment)
    (h : AllGathered depth bufferCap points st) :
    ∃ source' st', batches.foldlM (materializeBatch depth bufferCap cap map) (source, st) =
        .ok (source', st') ∧
      st'.1.length = st.1.length ∧
      AllGathered depth bufferCap (fun j => points j ++
        (batches.flatten.zip (assignment.map (pointMerged map))).flatMap (pushed j)) st' := by
  induction batches generalizing source st points assignment with
  | nil => exact ⟨source, st, rfl, rfl, by simpa using h⟩
  | cons batch batches ih =>
      rw [List.flatten_cons, List.length_append] at hlen
      obtain ⟨now, later, rfl, hnow⟩ : ∃ now later, assignment = now ++ later ∧
          now.length = batch.length :=
        ⟨_, _, (List.take_append_drop batch.length assignment).symm, by
          rw [List.length_take]; omega⟩
      rw [List.length_append, hnow] at hlen
      obtain ⟨source₁, st₁, hbatch, hsource₁, hlen₁, h₁⟩ :=
        materializeBatch_ok hcap hfits hnow hsource hmapped.append.1 h
      obtain ⟨source₂, st₂, hfold, hlen₂, h₂⟩ :=
        ih (by omega) hsource₁ (hlen₁ ▸ hmapped.append.2) h₁
      refine ⟨source₂, st₂, ?_, hlen₂.trans hlen₁, ?_⟩
      · rw [List.foldlM_cons, hbatch]
        exact hfold
      · intro j child hchild
        have hall := h₂ j child hchild
        rw [List.map_append, List.flatten_cons, List.zip_append (by rw [List.length_map, hnow])]
        simpa only [List.flatMap_append, List.append_assoc] using hall

/-! ## The finished children -/

theorem finishChildren_stored {children : List BufferedMergedChild} {extent : RunExtent}
    {run : List UInt32} (h : store.Stored depth extent run) :
    (finishChildren depth children store).2.Stored depth extent run := by
  induction children generalizing store with
  | nil => exact h
  | cons child children ih =>
      simp only [finishChildren]
      split_ifs
      · exact ih h
      · exact ih (flush_stored h)

theorem readChildRunChain_of_stored {extents : List RunExtent} {runs : List (List UInt32)}
    (h : List.Forall₂ (store.Stored depth) extents runs) :
    store.readChildRunChain depth extents = .ok runs.flatten := by
  induction h with
  | nil => rfl
  | cons hs _ ih =>
      rw [readChildRunChain, hs.readChildRun, ih]
      rfl

/-- Finished, a child reads back as the points it was given. -/
theorem finishChildren_reads (hcap : 0 < bufferCap) (hfits : bufferCap < 2 ^ 64)
    {children : List BufferedMergedChild} (h : AllGathered depth bufferCap points (children, store))
    {j : Nat} (hj : j < children.length) :
    ∃ child, (finishChildren depth children store).1[j]? = some child ∧
      readMaterialized (finishChildren depth children store).2 depth child = .ok (points j) := by
  induction children generalizing store points j with
  | nil => simp at hj
  | cons child children ih =>
      obtain ⟨⟨runs, hruns, heq⟩, hinline, hsmall⟩ := h 0 child rfl
      simp only [finishChildren]
      cases hin : child.inline with
      | true =>
          simp only [↓reduceIte, hin]
          have htail : AllGathered depth bufferCap (fun j => points (j + 1)) (children, store) :=
            fun j c hc => h (j + 1) c hc
          cases j with
          | zero =>
              rw [hinline hin] at hruns
              cases hruns
              exact ⟨_, rfl, by rw [readMaterialized, ← heq]; rfl⟩
          | succ j => exact ih htail (Nat.lt_of_succ_lt_succ hj)
      | false =>
          simp only [Bool.false_eq_true, ↓reduceIte, flush_inline, hin]
          have htail : AllGathered depth bufferCap (fun j => points (j + 1))
              (children, (flushMaterializedChildBuffer depth child store).2) :=
            fun j c hc => (h (j + 1) c hc).flush child
          cases j with
          | zero =>
              obtain ⟨⟨runs', hruns', heq'⟩, -, -⟩ := flush_gathered ⟨runs, hruns, heq⟩ hin
                (lt_trans (hsmall hin) hfits) hcap
              rw [flush_buffer, List.append_nil] at heq'
              refine ⟨_, rfl, ?_⟩
              rw [readMaterialized, ← heq']
              exact readChildRunChain_of_stored (hruns'.imp fun _ _ => finishChildren_stored)
          | succ j => exact ih htail (Nat.lt_of_succ_lt_succ hj)

@[simp] theorem finishChildren_length (children : List BufferedMergedChild) :
    (finishChildren depth children store).1.length = children.length := by
  induction children generalizing store with
  | nil => rfl
  | cons child children ih => simp [finishChildren, ih]

private theorem mapM_eq_map_range {α β : Type} {f : α → AnnResult β} {g : Nat → β} {l : List α}
    (h : ∀ j < l.length, ∃ a, l[j]? = some a ∧ f a = .ok (g j)) :
    l.mapM f = .ok ((List.range l.length).map g) := by
  induction l generalizing g with
  | nil => rfl
  | cons a l ih =>
      obtain ⟨b, hb, hf⟩ := h 0 (by simp)
      cases hb
      have hrest := ih (g := fun j => g (j + 1)) fun j hj => h (j + 1) (Nat.succ_lt_succ hj)
      rw [List.mapM_cons, hf, hrest, List.length_cons, List.range_succ_eq_map]
      simp [bind, Except.bind, pure, Except.pure, Function.comp_def]

/-- Materialising gives every child the points that have a leader in its group, in order. -/
theorem materialize_ok {cur : List UInt32} {fanout : Nat} {mergeGroups : List MergedRawGroup}
    {assignment : List (List UInt16)} (hlen : assignment.length = cur.length)
    (hsource : Delivers (assignRecordFanout fanout) source assignment)
    (hmapped : Mapped (rawToMerged mergeGroups) mergeGroups.length assignment)
    (depth : Nat) (store : ExternalRunStore) (inlineLimit : Option Nat) :
    ∃ children store', materializeMergedChildrenFromAssignmentRecords cur depth fanout mergeGroups
        source store inlineLimit = .ok (children, store') ∧
      children.mapM (readMaterialized store' depth) =
        .ok ((List.range mergeGroups.length).map fun j =>
          (cur.zip (assignment.map (pointMerged (rawToMerged mergeGroups)))).flatMap (pushed j)) := by
  set bufferCap := max MATERIALIZE_CHILD_BUFFER_POINTS (assignRecordFanout fanout) with hbuffer
  have hbounds := assignRecordFanout_bounds fanout
  have hcap : 0 < bufferCap := by omega
  have hfits : bufferCap < 2 ^ 64 := by
    have : MATERIALIZE_CHILD_BUFFER_POINTS < 2 ^ 64 := by decide
    omega
  have hbatches : (chunks (max MATERIALIZE_BATCH_POINTS bufferCap) cur).flatten = cur :=
    chunks_flatten (by omega) cur
  set children := mergeGroups.map fun group : MergedRawGroup =>
    (⟨[], [], inlineLimit.any fun limit => group.rawLen ≤ limit⟩ : BufferedMergedChild)
    with hchildren
  have hempty : AllGathered depth bufferCap (fun _ => []) (children, store) := by
    intro j child hchild
    obtain ⟨group, -, rfl⟩ := List.mem_map.mp (List.mem_of_getElem? hchild)
    exact ⟨⟨[], .nil, rfl⟩, fun _ => rfl, fun _ => hcap⟩
  have hn : children.length = mergeGroups.length := List.length_map ..
  obtain ⟨source', ⟨children', store'⟩, hfold, hlen', h'⟩ :=
    foldlM_materializeBatch_ok hcap hfits (by rw [hbatches, hlen]) hsource (hn.symm ▸ hmapped)
      hempty
  rw [hbatches] at h'
  refine ⟨(finishChildren depth children' store').1, (finishChildren depth children' store').2, by
    rw [materializeMergedChildrenFromAssignmentRecords]
    simp only [← hbuffer, ← hchildren, hfold, bind, Except.bind], ?_⟩
  have hlast : (finishChildren depth children' store').1.length = mergeGroups.length := by
    rw [finishChildren_length]
    exact hlen'.trans hn
  rw [← hlast]
  refine mapM_eq_map_range fun j hj => ?_
  rw [finishChildren_length] at hj
  obtain ⟨child, hget, hread⟩ := finishChildren_reads hcap hfits h' hj
  exact ⟨child, hget, hread.trans (by rw [List.nil_append])⟩

end

end ForgeANN
