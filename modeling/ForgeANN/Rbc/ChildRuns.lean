-- SUMMARY: Runs read back by path, one extent at a time or in batches of coalesced extents.
import ForgeANN.Lib.Except
import ForgeANN.Lib.Greedy
import ForgeANN.Lib.SortDedup
import ForgeANN.Lib.Table
import ForgeANN.Rbc.RunStore
import Mathlib.Data.List.Perm.Basic
import Mathlib.Data.Prod.Lex

/-!
# Child runs

The points of a child are the runs at its extents, in order. A batch of children
is read with its extents sorted by their place in the file; extents that touch
are read at once, and each one is handed out to its child.
-/
namespace ForgeANN

open Lib

structure ChildRun where
  extents : List RunExtent
  len : Nat
  seed : UInt64
deriving Repr

structure ChildRunExtentBatchStats where
  logicalExtents : Nat
  coalescedReads : Nat
  logicalBytes : Nat
  physicalBytes : Nat
  headerReadSavings : Nat
deriving DecidableEq, Repr

/-- An extent to be read; `end` in the source is `stop`. -/
structure ChildExtentRead where
  runIdx : Nat
  extentIdx : Nat
  extent : RunExtent
  start : Nat
  stop : Nat
deriving DecidableEq, Repr

/-- The directory's files, by their paths. -/
abbrev Files := String → Option Bytes

def runsPath (baseDir : String) (depth : Nat) : String :=
  s!"{baseDir}/partition_d{ExternalRunStore.depthLabel depth}_runs.bin"

/-! ## One extent at a time -/

def readRunPointsFromPath (files : Files) (path : String) (ioCfg : DirectIoConfig)
    (extent : RunExtent) : AnnResult (List UInt32) :=
  match files path with
  | none => .error (.io .notFound)
  | some file =>
      if ioCfg.enabled then ExternalRunStore.readRunPointsDirect ioCfg path file extent
      else ExternalRunStore.readRunPointsBuffered file extent

def readChildRunChainFromPath (files : Files) (baseDir : String) (ioCfg : DirectIoConfig)
    (depth : Nat) : List RunExtent → AnnResult (List UInt32)
  | [] => .ok []
  | extent :: extents => do
      let chunk ← readRunPointsFromPath files (runsPath baseDir depth) ioCfg extent
      let points ← readChildRunChainFromPath files baseDir ioCfg depth extents
      .ok (chunk ++ points)

/-! ## In batches -/

namespace ChildExtentRead

def new (runIdx extentIdx : Nat) (extent : RunExtent) : ChildExtentRead where
  runIdx := runIdx
  extentIdx := extentIdx
  extent := extent
  start := extent.byteOffset
  stop := extent.byteOffset + (RUN_EXTENT_HEADER_BYTES + extent.len * 4)

/-- `(read.start, read.end)`. -/
def place (read : ChildExtentRead) : Nat ×ₗ Nat := toLex (read.start, read.stop)

/-- `(read.run_idx, read.extent_idx)`. -/
def owner (read : ChildExtentRead) : Nat ×ₗ Nat := toLex (read.runIdx, read.extentIdx)

end ChildExtentRead

/-- The unstable sorts of a batch. -/
structure BatchSorts where
  byPlace : UnstableSort fun a b : ChildExtentRead => a.place ≤ b.place
  byOwner : UnstableSort fun a b : ChildExtentRead => a.owner ≤ b.owner

def childExtentReads (runs : List ChildRun) : List ChildExtentRead :=
  runs.zipIdx.flatMap fun run => run.1.extents.zipIdx.map fun extent => .new run.2 extent.2 extent.1

/-- Extents that start where the ones before them reach to, or earlier; the state is the
group's end. -/
def extentGroups (reads : List ChildExtentRead) : List (GreedyRun ChildExtentRead Nat) :=
  greedyRuns ChildExtentRead.stop
    (fun groupEnd read => if read.start ≤ groupEnd then some (max groupEnd read.stop) else none) reads

def groupLen (group : GreedyRun ChildExtentRead Nat) : Nat := group.state - group.first.start

def sliceOutOfRange : AnnError := .panic "range end index out of range for slice"

/-- The points at an offset of a group's bytes, whose number stands in front of them. -/
def readPayload (bytes : Bytes) (offset : Nat) : AnnResult (List UInt32) :=
  let headerEnd := offset + RUN_EXTENT_HEADER_BYTES
  if bytes.length < headerEnd then .error sliceOutOfRange
  else
    let len := ofLe (bytes.readAt offset RUN_EXTENT_HEADER_BYTES)
    if bytes.length < headerEnd + len * 4 then .error sliceOutOfRange
    else .ok ((List.range len).map fun idx =>
      UInt32.ofNat (ofLe (bytes.readAt (headerEnd + idx * 4) 4)))

/-- A group's bytes are read at once. Without direct I/O `read_exact_at_file` fills the buffer, as
`read_exact_at` of a `DirectIoFile` does. -/
def readGroupBytes (files : Files) (path : String) (ioCfg : DirectIoConfig)
    (group : GreedyRun ChildExtentRead Nat) : AnnResult Bytes :=
  match files path with
  | none => .error (.io .notFound)
  | some file => DirectIoFile.readExactAt ioCfg file group.first.start path (groupLen group)

def readGroup (files : Files) (path : String) (ioCfg : DirectIoConfig) (sorts : BatchSorts)
    (output : List (List UInt32)) (group : GreedyRun ChildExtentRead Nat) :
    AnnResult (List (List UInt32)) := do
  let bytes ← readGroupBytes files path ioCfg group
  (sorts.byOwner.sort group.items).foldlM (fun output read => do
    let payload ← readPayload bytes (read.start - group.first.start)
    .ok (output.modify read.runIdx (· ++ payload))) output

def readChildRunsBatchedFromPath (files : Files) (baseDir : String) (ioCfg : DirectIoConfig)
    (sorts : BatchSorts) (depth : Nat) (runs : List ChildRun) :
    AnnResult (List (List UInt32) × ChildRunExtentBatchStats) := do
  let reads := sorts.byPlace.sort (childExtentReads runs)
  let groups := extentGroups reads
  let output ← groups.foldlM (readGroup files (runsPath baseDir depth) ioCfg sorts)
    (runs.map fun _ => [])
  .ok (output,
    { logicalExtents := reads.length
      coalescedReads := groups.length
      logicalBytes := (reads.map fun read => read.stop - read.start).sum
      physicalBytes := (groups.map groupLen).sum
      headerReadSavings := reads.length - groups.length })

/-! ## What stands at an extent -/

/-- The run `points` stands in the file at `extent`. -/
structure ExtentHolds (file : Bytes) (extent : RunExtent) (points : List UInt32) : Prop where
  holds : file.Holds extent.byteOffset (runBytes points)
  len : extent.len = points.length
  fits : points.length < 2 ^ 64

/-- The points that stand in a file at an offset, behind their number. -/
def runAt (file : Bytes) (offset : Nat) : List UInt32 :=
  (List.range (ofLe (file.readAt offset RUN_EXTENT_HEADER_BYTES))).map fun idx =>
    UInt32.ofNat (ofLe (file.readAt (offset + RUN_EXTENT_HEADER_BYTES + idx * 4) 4))

theorem runBytes_length (points : List UInt32) :
    (runBytes points).length = RUN_EXTENT_HEADER_BYTES + points.length * 4 := by
  simp [runBytes, List.length_flatMap]

namespace ExtentHolds

variable {file : Bytes} {extent : RunExtent} {points : List UInt32}

theorem header (h : ExtentHolds file extent points) :
    ofLe (file.readAt extent.byteOffset RUN_EXTENT_HEADER_BYTES) = points.length := by
  have hhead := h.holds.left.readAt
  rw [toLe_length] at hhead
  rw [hhead, ofLe_toLe, Nat.mod_eq_of_lt (lt_of_lt_of_le h.fits (by decide))]

theorem runAt_eq (h : ExtentHolds file extent points) : runAt file extent.byteOffset = points := by
  have hbody := h.holds.right
  rw [toLe_length] at hbody
  rw [runAt, h.header]
  refine List.ext_getElem (by simp) fun i hi hi' => ?_
  have hbytes : (points.flatMap fun point => toLe 4 point.toNat).length = points.length * 4 := by
    simp [List.length_flatMap]
  have hread := hbody.readAt
  rw [hbytes] at hread
  have hpoint : (file.readAt (extent.byteOffset + RUN_EXTENT_HEADER_BYTES) (points.length * 4)).readAt
      (i * 4) 4 = file.readAt (extent.byteOffset + RUN_EXTENT_HEADER_BYTES + i * 4) 4 :=
    Bytes.readAt_readAt file (by omega)
  rw [hread, Bytes.readAt_flatMap (fun point : UInt32 => toLe_length 4 point.toNat) hi'] at hpoint
  rw [List.getElem_map, List.getElem_range, ← hpoint, ExternalRunStore.ofLe_toLe_uint32]

end ExtentHolds

/-- Points read out of a group's bytes. -/
theorem ExtentHolds.readPayload_eq {file : Bytes} {extent : RunExtent} {points : List UInt32}
    (h : ExtentHolds file extent points) {start len : Nat} (hstart : start ≤ extent.byteOffset)
    (hend : extent.byteOffset + (runBytes points).length ≤ start + len) :
    readPayload (file.readAt start len) (extent.byteOffset - start) =
      .ok (runAt file extent.byteOffset) := by
  rw [runBytes_length] at hend
  have hheader : (file.readAt start len).readAt (extent.byteOffset - start)
      RUN_EXTENT_HEADER_BYTES = file.readAt extent.byteOffset RUN_EXTENT_HEADER_BYTES := by
    rw [Bytes.readAt_readAt file (by omega), Nat.add_sub_cancel' hstart]
  have hheaderIn : ¬ (file.readAt start len).length <
      extent.byteOffset - start + RUN_EXTENT_HEADER_BYTES := by
    rw [Bytes.readAt_length]
    omega
  have hbodyIn : ¬ (file.readAt start len).length <
      extent.byteOffset - start + RUN_EXTENT_HEADER_BYTES + points.length * 4 := by
    rw [Bytes.readAt_length]
    omega
  rw [readPayload, if_neg hheaderIn]
  dsimp only
  rw [hheader, h.header, if_neg hbodyIn, runAt, h.header]
  refine congrArg Except.ok (List.map_congr_left fun i hi => ?_)
  have hlt := List.mem_range.mp hi
  rw [Bytes.readAt_readAt file (by omega)]
  congr 3
  omega

/-! ## The groups of a batch -/

section

variable {reads : List ChildExtentRead} {group : GreedyRun ChildExtentRead Nat}

theorem flatMap_extentGroups (reads : List ChildExtentRead) :
    (extentGroups reads).flatMap GreedyRun.items = reads := flatMap_greedyRuns reads

/-- A group starts with its first extent and reaches to the end of each of its extents. -/
theorem extentGroups_bounds (hsorted : reads.Pairwise fun a b => a.place ≤ b.place)
    (hgroup : group ∈ extentGroups reads) {read : ChildExtentRead} (hread : read ∈ group.items) :
    group.first.start ≤ read.start ∧ read.stop ≤ group.state := by
  constructor
  · have hsub := items_sublist hgroup
    have hitems := hsorted.sublist hsub
    rcases List.mem_cons.mp hread with rfl | hmore
    · exact Nat.le_refl _
    · exact (Prod.Lex.toLex_le_toLex'.mp ((List.pairwise_cons.mp hitems).1 read hmore)).1
  · have hreach : ∀ read ∈ group.items, read.stop ≤ group.state := by
      refine greedyRuns_rule (P := fun items state => ∀ read ∈ items, read.stop ≤ state) ?_ ?_ hgroup
      · intro read r hr
        obtain rfl := List.mem_singleton.mp hr
        exact Nat.le_refl _
      · intro taken state read next htaken hjoin r hr
        split_ifs at hjoin
        obtain rfl := Option.some.inj hjoin
        rcases List.mem_append.mp hr with hr | hr
        · exact (htaken r hr).trans (Nat.le_max_left ..)
        · obtain rfl := List.mem_singleton.mp hr
          exact Nat.le_max_right ..
    exact hreach read hread

/-- A group ends where one of its extents does. -/
theorem extentGroups_state (hgroup : group ∈ extentGroups reads) :
    ∃ read ∈ group.items, group.state = read.stop := by
  refine greedyRuns_rule (P := fun items state => ∃ read ∈ items, state = read.stop) ?_ ?_ hgroup
  · exact fun read => ⟨read, List.mem_singleton_self _, rfl⟩
  · rintro taken state read next ⟨last, hlast, rfl⟩ hjoin
    split_ifs at hjoin
    obtain rfl := Option.some.inj hjoin
    rcases Nat.le_total last.stop read.stop with hle | hle
    · exact ⟨read, List.mem_append_right _ (List.mem_singleton_self _), Nat.max_eq_right hle⟩
    · exact ⟨last, List.mem_append_left _ hlast, Nat.max_eq_left hle⟩

/-! ## What a batch delivers -/

/-- An extent to be read whose points stand in the file. -/
structure ReadHolds (file : Bytes) (read : ChildExtentRead) : Prop where
  start : read.start = read.extent.byteOffset
  stop : read.stop = read.extent.byteOffset + (RUN_EXTENT_HEADER_BYTES + read.extent.len * 4)
  holds : ∃ points, ExtentHolds file read.extent points

/-- What a read adds to its child. -/
def deliver (file : Bytes) (output : List (List UInt32)) (read : ChildExtentRead) :
    List (List UInt32) :=
  output.modify read.runIdx (· ++ runAt file read.start)

variable {files : Files} {path : String} {ioCfg : DirectIoConfig} {sorts : BatchSorts} {file : Bytes}

theorem readGroup_eq (hfile : files path = some file)
    (hsorted : reads.Pairwise fun a b => a.place ≤ b.place)
    (hholds : ∀ read ∈ reads, ReadHolds file read) (hgroup : group ∈ extentGroups reads)
    (output : List (List UInt32)) :
    readGroup files path ioCfg sorts output group =
      .ok ((sorts.byOwner.sort group.items).foldl (deliver file) output) := by
  have hmem : ∀ read ∈ group.items, read ∈ reads := fun read hread =>
    (items_sublist hgroup).subset hread
  have hin : group.first.start + groupLen group ≤ file.length := by
    obtain ⟨last, hlast, hstate⟩ := extentGroups_state hgroup
    obtain ⟨hstart, hstop, points, hpoints⟩ := hholds last (hmem last hlast)
    have hfirst := (extentGroups_bounds hsorted hgroup hlast).1
    have hend := hpoints.holds.1
    rw [runBytes_length, ← hpoints.len, ← hstop] at hend
    rw [groupLen, hstate]
    omega
  rw [readGroup, readGroupBytes, hfile]
  dsimp only
  rw [DirectIoFile.readExactAt, if_pos (.inr (.inr hin)), ok_bind]
  apply foldlM_eq_ok_foldl
  intro read hread output
  have hitem := (sorts.byOwner.perm _).mem_iff.mp hread
  obtain ⟨hstart, hstop, points, hpoints⟩ := hholds read (hmem read hitem)
  obtain ⟨hfirst, hlast⟩ := extentGroups_bounds hsorted hgroup hitem
  rw [hstart] at hfirst
  have hend : read.extent.byteOffset + (runBytes points).length ≤
      group.first.start + groupLen group := by
    rw [runBytes_length, ← hpoints.len, ← hstop, groupLen]
    omega
  rw [hstart, hpoints.readPayload_eq hfirst hend, ok_bind, deliver, hstart]

/-- The order in which a batch's extents are handed out. -/
def batchOrder (sorts : BatchSorts) (reads : List ChildExtentRead) : List ChildExtentRead :=
  (extentGroups reads).flatMap fun group => sorts.byOwner.sort group.items

theorem foldlM_readGroup (hfile : reads ≠ [] → files path = some file)
    (hsorted : reads.Pairwise fun a b => a.place ≤ b.place)
    (hholds : ∀ read ∈ reads, ReadHolds file read) (output : List (List UInt32)) :
    (extentGroups reads).foldlM (readGroup files path ioCfg sorts) output =
      .ok ((batchOrder sorts reads).foldl (deliver file) output) := by
  rw [batchOrder, List.foldl_flatMap]
  apply foldlM_eq_ok_foldl
  intro group hgroup output
  have hne : reads ≠ [] := List.ne_nil_of_mem ((items_sublist hgroup).subset List.mem_cons_self)
  exact readGroup_eq (hfile hne) hsorted hholds hgroup output

theorem batchOrder_perm (sorts : BatchSorts) (reads : List ChildExtentRead) :
    (batchOrder sorts reads).Perm reads := by
  conv_rhs => rw [← flatMap_extentGroups reads]
  exact List.Perm.flatMap_left _ fun group _ => sorts.byOwner.perm _

/-- Within a child, the extents come in their order. -/
def OwnOrder (a b : ChildExtentRead) : Prop := a.runIdx = b.runIdx → a.extentIdx ≤ b.extentIdx

/-- If a child's extents lie in the file in their order, they are handed out in that order. -/
theorem batchOrder_ownOrder (hsorted : reads.Pairwise fun a b => a.place ≤ b.place)
    (hforward : ∀ a ∈ reads, ∀ b ∈ reads, a.runIdx = b.runIdx → a.start ≤ b.start →
      a.extentIdx ≤ b.extentIdx) :
    (batchOrder sorts reads).Pairwise OwnOrder := by
  have hgroups := hsorted
  rw [← flatMap_extentGroups reads, List.pairwise_flatMap] at hgroups
  rw [batchOrder, List.pairwise_flatMap]
  constructor
  · intro group _
    refine (sorts.byOwner.sorted group.items).imp fun {a b} hab hrun => ?_
    exact (Prod.Lex.toLex_le_toLex'.mp hab).2 hrun
  · refine hgroups.2.imp_of_mem fun {g h} hg hh hplace a ha b hb hrun => ?_
    have ha' := (sorts.byOwner.perm _).mem_iff.mp ha
    have hb' := (sorts.byOwner.perm _).mem_iff.mp hb
    have hstart := (Prod.Lex.toLex_le_toLex'.mp (hplace a ha' b hb')).1
    exact hforward a ((items_sublist hg).subset ha') b ((items_sublist hh).subset hb') hrun hstart

end

/-! ## The extents of the children -/

section

variable {runs : List ChildRun} {run : ChildRun} {j : Nat}

theorem mem_childExtentReads {read : ChildExtentRead} : read ∈ childExtentReads runs ↔
    ∃ j run i extent, runs[j]? = some run ∧ run.extents[i]? = some extent ∧
      read = .new j i extent := by
  simp only [childExtentReads, List.mem_flatMap, List.mem_map, Prod.exists,
    List.mem_zipIdx_iff_getElem?]
  constructor
  · rintro ⟨run, j, hrun, extent, i, hextent, rfl⟩
    exact ⟨j, run, i, extent, hrun, hextent, rfl⟩
  · rintro ⟨j, run, i, extent, hrun, hextent, rfl⟩
    exact ⟨run, j, hrun, extent, i, hextent, rfl⟩

/-- The reads of one child. -/
def readsOf (j : Nat) (run : ChildRun) : List ChildExtentRead :=
  run.extents.zipIdx.map fun extent => .new j extent.2 extent.1

theorem readsOf_runIdx {read : ChildExtentRead} (h : read ∈ readsOf j run) : read.runIdx = j := by
  obtain ⟨extent, _, rfl⟩ := List.mem_map.mp h
  rfl

theorem filter_readsOf (i : Nat) : (readsOf j run).filter (fun read => read.runIdx = i) =
    if j = i then readsOf j run else [] := by
  split_ifs with h
  · exact List.filter_eq_self.mpr fun read hread => by simpa [h] using readsOf_runIdx hread
  · exact List.filter_eq_nil_iff.mpr fun read hread => by simpa [readsOf_runIdx hread] using h

theorem filter_readsOf_from (k : Nat) (h : runs[j]? = some run) :
    ((runs.zipIdx k).flatMap fun run => readsOf run.2 run.1).filter
      (fun read => read.runIdx = k + j) = readsOf (k + j) run := by
  induction runs generalizing k j with
  | nil => simp at h
  | cons first runs ih =>
      rw [List.zipIdx_cons, List.flatMap_cons, List.filter_append, filter_readsOf]
      cases j with
      | zero =>
          obtain rfl : first = run := by simpa using h
          have hrest : ((runs.zipIdx (k + 1)).flatMap fun run => readsOf run.2 run.1).filter
              (fun read => read.runIdx = k + 0) = [] := by
            apply List.filter_eq_nil_iff.mpr
            intro read hread
            obtain ⟨⟨run, i⟩, hrun, hread⟩ := List.mem_flatMap.mp hread
            have hi := (List.mem_zipIdx hrun).1
            rw [readsOf_runIdx hread]
            simp only [decide_eq_true_eq]
            omega
          rw [hrest, List.append_nil]
          exact if_pos rfl
      | succ j =>
          have hnext := ih (k + 1) (by simpa using h)
          rw [Nat.add_right_comm, Nat.add_assoc] at hnext
          rw [if_neg (by omega), List.nil_append]
          exact hnext

theorem filter_childExtentReads (h : runs[j]? = some run) :
    (childExtentReads runs).filter (fun read => read.runIdx = j) = readsOf j run := by
  have hfrom := filter_readsOf_from 0 h
  rw [Nat.zero_add] at hfrom
  exact hfrom

end

/-- The chunks of a child, one at each of its extents, which lie in the file in their order. -/
structure ForwardRun (file : Bytes) (run : ChildRun) (chunks : List (List UInt32)) : Prop where
  holds : List.Forall₂ (ExtentHolds file) run.extents chunks
  forward : run.extents.Pairwise fun a b => a.byteOffset < b.byteOffset

section

variable {file : Bytes} {runs : List ChildRun} {run : ChildRun} {chunks : List (List UInt32)}
  {chunksOf : List (List (List UInt32))} {j : Nat} {sorts : BatchSorts}

theorem ForwardRun.flatMap_runAt (h : ForwardRun file run chunks) :
    (readsOf j run).flatMap (fun read => runAt file read.start) = chunks.flatten := by
  have hextents : (readsOf j run).flatMap (fun read => runAt file read.start) =
      run.extents.flatMap fun extent => runAt file extent.byteOffset := by
    conv_rhs => rw [← List.zipIdx_map_fst 0 run.extents]
    rw [readsOf, List.flatMap_map, List.flatMap_map]
    rfl
  have hchunks : ∀ {extents : List RunExtent} {chunks : List (List UInt32)},
      List.Forall₂ (ExtentHolds file) extents chunks →
        extents.flatMap (fun extent => runAt file extent.byteOffset) = chunks.flatten := by
    intro extents chunks hholds
    induction hholds with
    | nil => rfl
    | cons hextent _ ih => rw [List.flatMap_cons, List.flatten_cons, hextent.runAt_eq, ih]
  rw [hextents, hchunks h.holds]

theorem ForwardRun.readHolds (h : ForwardRun file run chunks) {read : ChildExtentRead}
    (hread : read ∈ readsOf j run) : ReadHolds file read := by
  obtain ⟨⟨extent, i⟩, hextent, rfl⟩ := List.mem_map.mp hread
  have hmem := List.mem_of_getElem? (List.mem_zipIdx_iff_getElem?.mp hextent)
  obtain ⟨points, -, hpoints⟩ := exists_of_mem_forall₂ h.holds.flip hmem
  exact ⟨rfl, rfl, points, hpoints⟩

theorem ForwardRun.extentIdx_le (h : ForwardRun file run chunks) {a b : ChildExtentRead}
    (ha : a ∈ readsOf j run) (hb : b ∈ readsOf j run) (hstart : a.start ≤ b.start) :
    a.extentIdx ≤ b.extentIdx := by
  obtain ⟨⟨extent, i⟩, hextent, rfl⟩ := List.mem_map.mp ha
  obtain ⟨⟨extent', i'⟩, hextent', rfl⟩ := List.mem_map.mp hb
  obtain ⟨hi, hget⟩ := List.getElem?_eq_some_iff.mp (List.mem_zipIdx_iff_getElem?.mp hextent)
  obtain ⟨hi', hget'⟩ := List.getElem?_eq_some_iff.mp (List.mem_zipIdx_iff_getElem?.mp hextent')
  by_contra hlt
  have hback := List.pairwise_iff_getElem.mp h.forward i' i hi' hi (Nat.lt_of_not_le hlt)
  rw [hget, hget'] at hback
  exact absurd hstart (Nat.not_le_of_lt hback)

theorem readsOf_extentIdx (j : Nat) (run : ChildRun) :
    (readsOf j run).Pairwise fun a b => a.extentIdx < b.extentIdx := by
  have hidx : (readsOf j run).map ChildExtentRead.extentIdx = List.range run.extents.length := by
    rw [readsOf, List.map_map, List.range_eq_range', ← List.zipIdx_map_snd]
    rfl
  rw [← List.pairwise_map (R := (· < ·)), hidx]
  exact List.pairwise_lt_range

/-- Every child gets its chunks, in their order. -/
theorem readChildRunsBatched_eq {files : Files} {baseDir : String} {ioCfg : DirectIoConfig}
    {depth : Nat} (hfile : ∀ run ∈ runs, run.extents ≠ [] → files (runsPath baseDir depth) = some file)
    (hruns : List.Forall₂ (ForwardRun file) runs chunksOf) :
    ∃ stats, readChildRunsBatchedFromPath files baseDir ioCfg sorts depth runs =
      .ok (chunksOf.map List.flatten, stats) := by
  have hperm := sorts.byPlace.perm (childExtentReads runs)
  have hsorted := sorts.byPlace.sorted (childExtentReads runs)
  generalize hreads : sorts.byPlace.sort (childExtentReads runs) = reads at hperm hsorted
  have hchild : ∀ {j : Nat} {run : ChildRun}, runs[j]? = some run →
      ∃ chunks, chunksOf[j]? = some chunks ∧ ForwardRun file run chunks := by
    intro j run hrun
    obtain ⟨hj, rfl⟩ := List.getElem?_eq_some_iff.mp hrun
    have hj' : j < chunksOf.length := hruns.length_eq ▸ hj
    exact ⟨chunksOf[j], List.getElem?_eq_getElem hj', hruns.get hj hj'⟩
  have hown : ∀ {read : ChildExtentRead}, read ∈ reads →
      ∃ j run, runs[j]? = some run ∧ read ∈ readsOf j run := by
    intro read hread
    obtain ⟨j, run, i, extent, hrun, hextent, rfl⟩ :=
      mem_childExtentReads.mp (hperm.mem_iff.mp hread)
    exact ⟨j, run, hrun, List.mem_map.mpr
      ⟨(extent, i), List.mem_zipIdx_iff_getElem?.mpr hextent, rfl⟩⟩
  have hholds : ∀ read ∈ reads, ReadHolds file read := by
    intro read hread
    obtain ⟨j, run, hrun, hread⟩ := hown hread
    obtain ⟨chunks, -, hforward⟩ := hchild hrun
    exact hforward.readHolds hread
  have hforward : ∀ a ∈ reads, ∀ b ∈ reads, a.runIdx = b.runIdx → a.start ≤ b.start →
      a.extentIdx ≤ b.extentIdx := by
    intro a ha b hb hidx hstart
    obtain ⟨j, run, hrun, ha⟩ := hown ha
    obtain ⟨j', run', hrun', hb⟩ := hown hb
    rw [readsOf_runIdx ha, readsOf_runIdx hb] at hidx
    subst hidx
    obtain rfl := Option.some.inj (hrun.symm.trans hrun')
    obtain ⟨chunks, -, hforward⟩ := hchild hrun
    exact hforward.extentIdx_le ha hb hstart
  have hpresent : reads ≠ [] → files (runsPath baseDir depth) = some file := by
    intro hne
    obtain ⟨read, hread⟩ := List.exists_mem_of_ne_nil _ hne
    obtain ⟨j, run, hrun, hread⟩ := hown hread
    apply hfile run (List.mem_of_getElem? hrun)
    rintro hnil
    rw [readsOf, hnil] at hread
    cases hread
  have horder : ∀ {j : Nat} {run : ChildRun}, runs[j]? = some run →
      (batchOrder sorts reads).filter (fun read => read.runIdx = j) = readsOf j run := by
    intro j run hrun
    have hown := ((batchOrder_perm sorts reads).trans hperm).filter fun read => read.runIdx = j
    rw [filter_childExtentReads hrun] at hown
    have hdelivered : ((batchOrder sorts reads).filter fun read => read.runIdx = j).Pairwise
        fun a b => a.extentIdx ≤ b.extentIdx := by
      refine ((batchOrder_ownOrder hsorted hforward).filter _).imp_of_mem fun {a b} ha hb hab => ?_
      apply hab
      rw [of_decide_eq_true (List.mem_filter.mp ha).2, of_decide_eq_true (List.mem_filter.mp hb).2]
    refine List.Perm.eq_of_pairwise ?_ hdelivered ((readsOf_extentIdx j run).imp Nat.le_of_lt) hown
    intro a b ha hb hab hba
    have hinj := List.inj_on_of_nodup_map
      (List.pairwise_map.mpr ((readsOf_extentIdx j run).imp Nat.ne_of_lt))
    exact hinj (hown.mem_iff.mp ha) hb (Nat.le_antisymm hab hba)
  have houtput : (batchOrder sorts reads).foldl (deliver file) (runs.map fun _ => []) =
      chunksOf.map List.flatten := by
    have hfold := foldl_modify ChildExtentRead.runIdx (fun read points => points ++ runAt file read.start)
      (batchOrder sorts reads) (runs.map fun _ => [])
    rw [show deliver file = fun output read =>
      output.modify read.runIdx fun points => points ++ runAt file read.start from rfl, hfold]
    apply List.ext_getElem?
    intro j
    rw [List.getElem?_mapIdx, List.getElem?_map, List.getElem?_map]
    cases hrun : runs[j]? with
    | none =>
        have hnone : chunksOf[j]? = none := by
          rw [List.getElem?_eq_none_iff] at hrun ⊢
          rwa [← hruns.length_eq]
        rw [hnone]
        rfl
    | some run =>
        obtain ⟨chunks, hchunks, hrunForward⟩ := hchild hrun
        rw [hchunks]
        simp only [Option.map_some, horder hrun, List.foldl_append_eq_append, List.nil_append]
        rw [← List.flatMap_def, hrunForward.flatMap_runAt]
  unfold readChildRunsBatchedFromPath
  dsimp only
  rw [hreads, foldlM_readGroup hpresent hsorted hholds, ok_bind, houtput]
  exact ⟨_, rfl⟩

end

end ForgeANN
