-- SUMMARY: Vectors copied to a file in the order of a list of ids, and the reads that find them there.
import ForgeANN.Gather.Faithful
import ForgeANN.Points.ResidentSubset
import Mathlib.Data.List.SplitBy

/-!
# Vector runs

The vectors of a list of ids are written one behind the other. Ids that follow
one another in the list form an extent, of which only the first id, the place in
the file and the length are kept.
-/
namespace ForgeANN

open Lib

/-! ## Files of numbers -/

def f32SliceAsBytes (slice : List F32) : Bytes := slice.flatMap fun v => toLe 4 v.bits.toNat

/-- The numbers in a byte slice. -/
def f32sOfBytes (bytes : Bytes) : List F32 :=
  (List.range (bytes.length / 4)).map fun i => ⟨UInt32.ofNat (ofLe (bytes.readAt (i * 4) 4))⟩

/-- `read_file_exact_at`: the loop goes on after short reads. -/
def readFileExactAt (file : Bytes) (len offset : Nat) : AnnResult Bytes :=
  if len = 0 then .ok []
  else if offset + len ≤ file.length then .ok (file.readAt offset len)
  else .error (.index "Unexpected EOF while reading vector run")

/-! ## The store -/

/-- A point store as far as a vector run uses it: a batch read that gets through gives the vectors
of its ids. -/
structure PointSource where
  dim : Nat
  vector : UInt32 → List F32
  readPointsInto : List UInt32 → List F32 → AnnResult (List F32)
  reads : ∀ ids out result, readPointsInto ids out = .ok result →
    result = ids.flatMap vector ∧ ∀ pid ∈ ids, (vector pid).length = dim

structure VectorRunExtent where
  globalStart : UInt32
  byteOffset : Nat
  len : Nat
deriving DecidableEq, Repr

structure VectorRunPointStore where
  file : Bytes
  globalIds : List UInt32
  idToRow : List (UInt32 × Nat)
  extents : List VectorRunExtent
  dim : Nat
  rowBytes : Nat

/-- What has been written, and where the next run goes. -/
structure RunFile where
  file : Bytes
  extents : List VectorRunExtent
  byteOffset : Nat

/-- `next == prev.saturating_add(1)`. -/
def follows (prev next : UInt32) : Bool := next = saturatingAdd prev 1

def writeRun (source : PointSource) (run : RunFile) (runIds : List UInt32) : AnnResult RunFile := do
  let data ← source.readPointsInto runIds (List.replicate (runIds.length * source.dim) F32.zero)
  .ok {
    file := run.file ++ f32SliceAsBytes data
    extents := run.extents ++ [⟨runIds.headD 0, run.byteOffset, runIds.length⟩]
    byteOffset := run.byteOffset + data.length * 4 }

/-- The order in which a batch read goes through its rows. -/
abbrev LocalRowSort := UnstableSort fun a b : Nat × Nat => a.1 < b.1 ∨ a.1 = b.1 ∧ a.2 ≤ b.2

namespace VectorRunPointStore

def materialize (sort : TableSort) (source : PointSource) (globalIds : List UInt32) :
    AnnResult VectorRunPointStore :=
  if source.dim = 0 then .error (.index "Vector run point store requires nonzero dimension")
  else do
    let run ← (globalIds.splitBy follows).foldlM (writeRun source) ⟨[], [], 0⟩
    .ok {
      file := run.file
      globalIds
      idToRow := ForgeANN.idToRow sort globalIds
      extents := run.extents
      dim := source.dim
      rowBytes := source.dim * 4 }

variable (store : VectorRunPointStore)

def localRowForGlobalId (pid : UInt32) : AnnResult Nat :=
  tableRow store.idToRow pid (.index (s!"Point id {pid} not present in vector run point store " ++
    s!"with {store.globalIds.length} points"))

/-- The extent around an id, and the id's place in it. -/
def withinExtent (pid : UInt32) (extent : VectorRunExtent) : Option (VectorRunExtent × Nat) :=
  let start := extent.globalStart
  let end' := saturatingAdd start (UInt32.ofNat extent.len)
  if start ≤ pid ∧ pid < end' then some (extent, (pid - start).toNat) else none

def extentForLocalRow (localRow : Nat) : AnnResult (VectorRunExtent × Nat) :=
  match store.globalIds[localRow]? with
  | none => .error (.index (s!"Local vector run row {localRow} out of bounds for " ++
      s!"{store.globalIds.length} rows"))
  | some pid =>
      match store.extents.findSome? (withinExtent pid) with
      | none => .error (.index s!"Point id {pid} has no vector run extent")
      | some found => .ok found

def readLocalRowsInto (localStart count : Nat) (out : List F32) : AnnResult (List F32) :=
  if count = 0 then .ok out
  else if out.length ≠ count * store.dim then
    .error (.index
      s!"Vector run buffer size mismatch: got {out.length} expected {count * store.dim}")
  else do
    let (extent, rowInExtent) ← store.extentForLocalRow localStart
    if extent.len < rowInExtent + count then
      .error (.index "Vector run read crossed extent boundary")
    else do
      let bytes ← readFileExactAt store.file (out.length * 4)
        (extent.byteOffset + rowInExtent * store.rowBytes)
      .ok (f32sOfBytes bytes)

def checkMatrixBuffer (rows : Nat) (out : List F32) : AnnResult Unit :=
  if out.length ≠ rows * store.dim then
    .error (.index s!"Point matrix size mismatch: got {out.length} expected {rows * store.dim}")
  else .ok ()

def readPointInto (pid : UInt32) (out : List F32) : AnnResult (List F32) :=
  if out.length ≠ store.dim then
    .error (.index s!"Point buffer width mismatch: got {out.length} expected {store.dim}")
  else do
    let localRow ← store.localRowForGlobalId pid
    store.readLocalRowsInto localRow 1 out

def readRangeInto (startPid : UInt32) (count : Nat) (out : List F32) : AnnResult (List F32) := do
  store.checkMatrixBuffer count out
  if count = 0 then .ok out
  else do
    let localStart ← store.localRowForGlobalId startPid
    if ∀ row < count, store.globalIds[localStart + row]? =
        some (saturatingAdd startPid (UInt32.ofNat row)) then
      store.readLocalRowsInto localStart count out
    else
      .error (.index (s!"Vector run range [{startPid}..{saturatingAdd startPid (UInt32.ofNat count)}) " ++
        "is not contiguous in the run"))

/-- The rows that are read together with the one before them, and the others. -/
def takeLocalRun (prev : Nat × Nat) : List (Nat × Nat) →
    AnnResult (List (Nat × Nat) × List (Nat × Nat))
  | [] => .ok ([], [])
  | row :: rows =>
      if row.1 = prev.1 + 1 then do
        let prevExtent ← store.extentForLocalRow prev.1
        let extent ← store.extentForLocalRow row.1
        if prevExtent.1 = extent.1 then do
          let (run, left) ← takeLocalRun row rows
          .ok (row :: run, left)
        else .ok ([], row :: rows)
      else .ok ([], row :: rows)

/-- The runs of rows, one read for each; `fuel` bounds their number. -/
def readRuns : Nat → List (Nat × Nat) → List F32 → AnnResult (List F32)
  | _, [], out => .ok out
  | 0, _ :: _, _ => .error (.panic "out of fuel")
  | fuel + 1, row :: rows, out => do
      let (more, left) ← store.takeLocalRun row rows
      let runLen := more.length + 1
      let buffer ← store.readLocalRowsInto row.1 runLen (List.replicate (runLen * store.dim) F32.zero)
      let out ← (row :: more).zipIdx.foldlM (fun out entry =>
        copySlice buffer (entry.2 * store.dim) out (entry.1.2 * store.dim) store.dim) out
      readRuns fuel left out

def readPointsInto (sort : LocalRowSort) (ids : List UInt32) (out : List F32) :
    AnnResult (List F32) := do
  store.checkMatrixBuffer ids.length out
  if ids = [] then .ok out
  else do
    let rows ← ids.zipIdx.mapM fun entry => do
      let localRow ← store.localRowForGlobalId entry.1
      .ok (localRow, entry.2)
    store.readRuns rows.length (sort.sort rows) out

end VectorRunPointStore

/-! ## Numbers read back -/

theorem f32SliceAsBytes_length (slice : List F32) :
    (f32SliceAsBytes slice).length = slice.length * 4 := by
  simp [f32SliceAsBytes, List.length_flatMap]

theorem f32SliceAsBytes_append (a b : List F32) :
    f32SliceAsBytes (a ++ b) = f32SliceAsBytes a ++ f32SliceAsBytes b :=
  List.flatMap_append ..

/-- A slice of the numbers, read from its bytes. -/
theorem f32sOfBytes_readAt {slice : List F32} {start len : Nat} (h : start + len ≤ slice.length) :
    f32sOfBytes ((f32SliceAsBytes slice).readAt (start * 4) (len * 4)) =
      (slice.drop start).take len := by
  have hlen : len * 4 / 4 = len := Nat.mul_div_cancel len (Nat.succ_pos 3)
  apply List.ext_getElem
  · rw [f32sOfBytes, List.length_map, List.length_range, Bytes.readAt_length, hlen,
      List.length_take, List.length_drop]
    omega
  · intro i hi hi'
    have hlt : i < len := by
      rw [List.length_take] at hi'
      omega
    have hinner : ((f32SliceAsBytes slice).readAt (start * 4) (len * 4)).readAt (i * 4) 4 =
        (f32SliceAsBytes slice).readAt ((start + i) * 4) 4 := by
      apply Bytes.ext_at'
      · simp
      · intro k hk
        rw [Bytes.readAt_length] at hk
        rw [Bytes.at'_readAt hk, Bytes.at'_readAt hk, Bytes.at'_readAt (by omega)]
        congr 1
        omega
    have hin : start + i < slice.length := by
      omega
    have hvalue : (f32SliceAsBytes slice).readAt ((start + i) * 4) 4 =
        toLe 4 slice[start + i].bits.toNat :=
      Bytes.readAt_flatMap (fun v => toLe_length 4 _) hin
    have hbits : slice[start + i].bits.toNat < 256 ^ 4 := slice[start + i].bits.toNat_lt
    simp only [f32sOfBytes, List.getElem_map, List.getElem_range]
    rw [hinner, hvalue, ofLe_toLe, List.getElem_take, List.getElem_drop, Nat.mod_eq_of_lt hbits,
      UInt32.ofNat_toNat]

/-! ## The layout of the file -/

/-- The ids go up by one from each to the next. -/
def Consecutive (ids : List UInt32) : Prop :=
  ∀ first k pid, ids[0]? = some first → ids[k]? = some pid → pid.toNat = first.toNat + k

/-- The extents of runs of which the first one starts at row `base`. -/
def extentsFrom (rowBytes : Nat) : Nat → List (List UInt32) → List VectorRunExtent
  | _, [] => []
  | base, run :: runs =>
      ⟨run.headD 0, base * rowBytes, run.length⟩ :: extentsFrom rowBytes (base + run.length) runs

theorem extentsFrom_append (rowBytes base : Nat) (front back : List (List UInt32)) :
    extentsFrom rowBytes base (front ++ back) =
      extentsFrom rowBytes base front ++ extentsFrom rowBytes (base + front.flatten.length) back := by
  induction front generalizing base with
  | nil => rfl
  | cons run front ih =>
      rw [List.cons_append, extentsFrom, extentsFrom, ih, List.cons_append, List.flatten_cons,
        List.length_append, Nat.add_assoc]

/-- The file, the extents and the offset once the given runs are written. -/
def writtenRuns (source : PointSource) (runs : List (List UInt32)) : RunFile where
  file := f32SliceAsBytes (runs.flatten.flatMap source.vector)
  extents := extentsFrom (source.dim * 4) 0 runs
  byteOffset := runs.flatten.length * (source.dim * 4)

/-- One run goes behind the others. -/
theorem writeRun_written {source : PointSource} {done : List (List UInt32)} {runIds : List UInt32}
    {next : RunFile} (h : writeRun source (writtenRuns source done) runIds = .ok next) :
    next = writtenRuns source (done ++ [runIds]) ∧
      ∀ pid ∈ runIds, (source.vector pid).length = source.dim := by
  rw [writeRun] at h
  cases hread : source.readPointsInto runIds
      (List.replicate (runIds.length * source.dim) F32.zero) with
  | error err =>
      rw [hread] at h
      cases h
  | ok data =>
      rw [hread, ok_bind] at h
      obtain ⟨rfl, hwidth⟩ := source.reads _ _ _ hread
      refine ⟨?_, hwidth⟩
      rw [← Except.ok.inj h]
      have hflat : (done ++ [runIds]).flatten = done.flatten ++ runIds := by
        rw [List.flatten_append, List.flatten_singleton]
      simp only [writtenRuns, hflat, List.flatMap_append, f32SliceAsBytes_append, extentsFrom_append,
        extentsFrom, length_flatMap_of_width hwidth, List.length_append, Nat.add_mul, Nat.zero_add,
        Nat.mul_assoc]

theorem writeRuns_written {source : PointSource} {done runs : List (List UInt32)} {run : RunFile}
    (h : runs.foldlM (writeRun source) (writtenRuns source done) = .ok run) :
    run = writtenRuns source (done ++ runs) ∧
      ∀ pid ∈ runs.flatten, (source.vector pid).length = source.dim := by
  refine foldlM_induction (P := fun written run => run = writtenRuns source (done ++ written) ∧
    ∀ pid ∈ written.flatten, (source.vector pid).length = source.dim) ?_ ?_ h
  · rintro written runIds - _ run' ⟨rfl, hwidths⟩ hstep
    obtain ⟨rfl, hwidth⟩ := writeRun_written hstep
    refine ⟨by rw [List.append_assoc], fun pid hpid => ?_⟩
    rw [List.flatten_append, List.flatten_singleton] at hpid
    rcases List.mem_append.mp hpid with hmem | hmem
    · exact hwidths pid hmem
    · exact hwidth pid hmem
  · exact ⟨by rw [List.append_nil], fun pid hpid => by cases hpid⟩

/-! ## The extent of a row -/

theorem consecutive_of_chain {ids : List UInt32} (hchain : ids.IsChain fun a b => follows a b)
    (hmax : ∀ pid ∈ ids, pid < 4294967295) : Consecutive ids := by
  intro first k pid hfirst hpid
  induction k generalizing pid with
  | zero => rw [Option.some.inj (hfirst.symm.trans hpid), Nat.add_zero]
  | succ k ih =>
      have hlen := (List.getElem?_eq_some_iff.mp hpid).1
      have hprev := List.getElem?_eq_getElem (Nat.lt_of_succ_lt hlen)
      have hfollows := List.isChain_iff_getElem.mp hchain k hlen
      have hstep : pid = saturatingAdd ids[k] 1 := by
        rw [← Option.some.inj ((List.getElem?_eq_getElem hlen).symm.trans hpid)]
        exact of_decide_eq_true hfollows
      have hlt := UInt32.lt_iff_toNat_lt.mp (hmax ids[k] (List.getElem_mem _))
      have hle := UInt32.lt_iff_toNat_lt.mp (hmax pid (List.mem_of_getElem? hpid))
      have hone : (1 : UInt32).toNat = 1 := rfl
      have hlast : (4294967295 : UInt32).toNat = 4294967295 := rfl
      have hsum := saturatingAdd_toNat ids[k] 1
      rw [← hstep, ih _ hprev] at hsum
      rw [ih _ hprev] at hlt
      omega

/-- An extent is found for the ids of its run, and for no others. -/
theorem withinExtent_iff {run : List UInt32} {first pid : UInt32} (byteOffset : Nat)
    (hrun : Consecutive run) (hfirst : run[0]? = some first) (hmax : ∀ q ∈ run, q < 4294967295) :
    (∀ k, run[k]? = some pid → VectorRunPointStore.withinExtent pid ⟨first, byteOffset, run.length⟩ =
        some (⟨first, byteOffset, run.length⟩, k)) ∧
      (pid ∉ run → VectorRunPointStore.withinExtent pid ⟨first, byteOffset, run.length⟩ = none) := by
  have hpos : 0 < run.length := (List.getElem?_eq_some_iff.mp hfirst).1
  have hlast : (4294967295 : UInt32).toNat = 4294967295 := rfl
  have hend : (saturatingAdd first (UInt32.ofNat run.length)).toNat = first.toNat + run.length := by
    have hget := List.getElem?_eq_getElem (show run.length - 1 < run.length by omega)
    have hle := UInt32.lt_iff_toNat_lt.mp (hmax _ (List.mem_of_getElem? hget))
    have hat := hrun first _ _ hfirst hget
    rw [saturatingAdd_toNat, UInt32.toNat_ofNat', Nat.mod_eq_of_lt (by omega)]
    omega
  refine ⟨fun k hk => ?_, fun hmem => ?_⟩
  · have hlen := (List.getElem?_eq_some_iff.mp hk).1
    have hat := hrun first k pid hfirst hk
    have hle : first ≤ pid := UInt32.le_iff_toNat_le.mpr (by omega)
    have hlt : pid < saturatingAdd first (UInt32.ofNat run.length) :=
      UInt32.lt_iff_toNat_lt.mpr (by omega)
    have hsub : (pid - first).toNat = k := by
      rw [UInt32.toNat_sub_of_le _ _ hle]
      omega
    simp only [VectorRunPointStore.withinExtent]
    rw [if_pos ⟨hle, hlt⟩, hsub]
  · apply if_neg
    rintro ⟨hle, hlt⟩
    have hle : first.toNat ≤ pid.toNat := UInt32.le_iff_toNat_le.mp hle
    have hlt := UInt32.lt_iff_toNat_lt.mp hlt
    rw [hend] at hlt
    have hget := List.getElem?_eq_getElem (show pid.toNat - first.toNat < run.length by omega)
    have hat := hrun first _ _ hfirst hget
    have hpid : run[pid.toNat - first.toNat] = pid := UInt32.toNat_inj.mp (by omega)
    exact hmem (hpid ▸ List.getElem_mem _)

/-- Every item of the runs stands in one of them. -/
theorem exists_run_of_getElem? {runs : List (List UInt32)} {r : Nat} {pid : UInt32}
    (h : runs.flatten[r]? = some pid) : ∃ front run back k,
      runs = front ++ run :: back ∧ r = front.flatten.length + k ∧ run[k]? = some pid := by
  induction runs generalizing r with
  | nil => cases h
  | cons run runs ih =>
      rw [List.flatten_cons] at h
      by_cases hr : r < run.length
      · rw [List.getElem?_append_left hr] at h
        exact ⟨[], run, runs, r, rfl, (Nat.zero_add r).symm, h⟩
      · rw [List.getElem?_append_right (Nat.le_of_not_lt hr)] at h
        obtain ⟨front, run', back, k, rfl, hk, hpid⟩ := ih h
        refine ⟨run :: front, run', back, k, rfl, ?_, hpid⟩
        rw [List.flatten_cons, List.length_append]
        omega

/-- Runs of ids as `materialize` cuts them. -/
structure RunsOf (globalIds : List UInt32) (runs : List (List UInt32)) : Prop where
  flatten : runs.flatten = globalIds
  nonempty : ∀ run ∈ runs, ∃ first, run[0]? = some first
  consecutive : ∀ run ∈ runs, Consecutive run
  max : ∀ pid ∈ globalIds, pid < 4294967295

theorem runsOf_splitBy {globalIds : List UInt32} (hmax : ∀ pid ∈ globalIds, pid < 4294967295) :
    RunsOf globalIds (globalIds.splitBy follows) where
  flatten := List.flatten_splitBy ..
  nonempty run hrun := by
    cases run with
    | nil => exact absurd hrun (List.nil_notMem_splitBy follows globalIds)
    | cons first run => exact ⟨first, rfl⟩
  consecutive run hrun := by
    apply consecutive_of_chain (List.isChain_of_mem_splitBy hrun)
    intro pid hpid
    apply hmax
    rw [← List.flatten_splitBy follows globalIds]
    exact List.mem_flatten_of_mem hrun hpid
  max := hmax

theorem RunsOf.max_of_mem {globalIds run : List UInt32} {runs : List (List UInt32)}
    (h : RunsOf globalIds runs) (hrun : run ∈ runs) : ∀ pid ∈ run, pid < 4294967295 := by
  intro pid hpid
  apply h.max
  rw [← h.flatten]
  exact List.mem_flatten_of_mem hrun hpid

theorem headD_of_getElem? {run : List UInt32} {first : UInt32} (h : run[0]? = some first) :
    run.headD 0 = first := by
  cases run with
  | nil => cases h
  | cons a run => exact Option.some.inj h

theorem findSome?_extentsFrom_none {pid : UInt32} (rowBytes base : Nat) {runs : List (List UInt32)}
    (hruns : ∀ run ∈ runs, Consecutive run ∧ (∃ first, run[0]? = some first) ∧
      ∀ q ∈ run, q < 4294967295)
    (hmem : pid ∉ runs.flatten) :
    (extentsFrom rowBytes base runs).findSome? (VectorRunPointStore.withinExtent pid) = none := by
  induction runs generalizing base with
  | nil => rfl
  | cons run runs ih =>
      obtain ⟨hconsecutive, ⟨first, hfirst⟩, hmax⟩ := hruns run List.mem_cons_self
      rw [List.flatten_cons, List.mem_append, not_or] at hmem
      have hnone := (withinExtent_iff (base * rowBytes) hconsecutive hfirst hmax).2
        hmem.1
      rw [extentsFrom, List.findSome?_cons, headD_of_getElem? hfirst, hnone]
      exact ih _ (fun other hother => hruns other (List.mem_cons_of_mem run hother)) hmem.2

namespace VectorRunPointStore

/-- A store as `materialize` leaves it. -/
structure Laid (store : VectorRunPointStore) (vector : UInt32 → List F32) : Prop where
  dim_pos : 0 < store.dim
  row_bytes : store.rowBytes = store.dim * 4
  file : store.file = f32SliceAsBytes (store.globalIds.flatMap vector)
  extents : store.extents = extentsFrom store.rowBytes 0 (store.globalIds.splitBy follows)
  table : ∃ sort, store.idToRow = ForgeANN.idToRow sort store.globalIds
  width : ∀ pid ∈ store.globalIds, (vector pid).length = store.dim
  nodup : store.globalIds.Nodup
  max : ∀ pid ∈ store.globalIds, pid < 4294967295

theorem materialize_laid {sort : TableSort} {source : PointSource} {globalIds : List UInt32}
    {store : VectorRunPointStore} (h : materialize sort source globalIds = .ok store)
    (hnodup : globalIds.Nodup) (hmax : ∀ pid ∈ globalIds, pid < 4294967295) :
    store.Laid source.vector ∧ store.globalIds = globalIds ∧ store.dim = source.dim := by
  rw [materialize] at h
  split_ifs at h with hdim
  cases hruns : (globalIds.splitBy follows).foldlM (writeRun source) ⟨[], [], 0⟩ with
  | error err =>
      rw [hruns] at h
      cases h
  | ok run =>
      have hstart : (⟨[], [], 0⟩ : RunFile) = writtenRuns source [] := by
        simp [writtenRuns, extentsFrom, f32SliceAsBytes]
      rw [hruns, ok_bind] at h
      rw [hstart] at hruns
      obtain ⟨rfl, hwidth⟩ := writeRuns_written hruns
      cases h
      rw [List.flatten_splitBy] at hwidth
      refine ⟨⟨Nat.pos_of_ne_zero hdim, rfl, ?_, rfl, ⟨sort, rfl⟩, hwidth, hnodup, hmax⟩, rfl, rfl⟩
      simp only [writtenRuns, List.nil_append, List.flatten_splitBy]

variable {store : VectorRunPointStore} {vector : UInt32 → List F32} {r : Nat} {pid : UInt32}

/-- The extent of a row is that of its run. -/
theorem Laid.extent_eq (h : store.Laid vector) {front back : List (List UInt32)}
    {run : List UInt32} {k : Nat} (hruns : store.globalIds.splitBy follows = front ++ run :: back)
    (hk : run[k]? = some pid) (hr : r = front.flatten.length + k) :
    store.extentForLocalRow r =
      .ok (⟨run.headD 0, front.flatten.length * store.rowBytes, run.length⟩, k) := by
  have hcut := runsOf_splitBy h.max
  rw [hruns] at hcut
  have hflatten := hcut.flatten
  rw [List.flatten_append, List.flatten_cons] at hflatten
  have hpid : store.globalIds[r]? = some pid := by
    rw [← hflatten, hr, List.getElem?_append_right (Nat.le_add_right ..), Nat.add_sub_cancel_left,
      List.getElem?_append_left (List.getElem?_eq_some_iff.mp hk).1, hk]
  have hrun : run ∈ front ++ run :: back := by
    simp
  have hfront : ∀ other ∈ front, other ∈ front ++ run :: back :=
    fun other => List.mem_append_left _
  have hnot : pid ∉ front.flatten := by
    have hnodup := h.nodup
    rw [← hflatten] at hnodup
    intro hmem
    exact (List.disjoint_of_nodup_append hnodup) hmem
      (List.mem_append_left _ (List.mem_of_getElem? hk))
  obtain ⟨first, hfirst⟩ := hcut.nonempty run hrun
  have hnone := findSome?_extentsFrom_none store.rowBytes 0
    (fun other hother => ⟨hcut.consecutive other (hfront other hother),
      hcut.nonempty other (hfront other hother), hcut.max_of_mem (hfront other hother)⟩) hnot
  have hsome := (withinExtent_iff ((0 + front.flatten.length) * store.rowBytes)
    (hcut.consecutive run hrun) hfirst (hcut.max_of_mem hrun)).1 k hk
  rw [Nat.zero_add] at hsome
  rw [extentForLocalRow, hpid]
  simp only [h.extents, hruns, extentsFrom_append, extentsFrom, List.findSome?_append, hnone,
    Option.none_or, List.findSome?_cons, headD_of_getElem? hfirst, hsome, Nat.zero_add]

/-- Where a row is in its extent, and where it is in the file. -/
theorem Laid.extent_spec (h : store.Laid vector) (hr : r < store.globalIds.length) :
    ∃ extent k, store.extentForLocalRow r = .ok (extent, k) ∧ k < extent.len ∧
      extent.byteOffset + k * store.rowBytes = r * store.rowBytes ∧
      r + extent.len ≤ store.globalIds.length + k := by
  have hflatten := List.flatten_splitBy follows store.globalIds
  obtain ⟨pid, hget⟩ : ∃ pid, store.globalIds[r]? = some pid := ⟨_, List.getElem?_eq_getElem hr⟩
  rw [← hflatten] at hget
  obtain ⟨front, run, back, k, hruns, hrow, hk⟩ := exists_run_of_getElem? hget
  refine ⟨_, k, h.extent_eq hruns hk hrow, (List.getElem?_eq_some_iff.mp hk).1, ?_, ?_⟩
  · rw [hrow, Nat.add_mul]
  · rw [← hflatten, hruns, hrow, List.flatten_append, List.flatten_cons, List.length_append,
      List.length_append]
    dsimp only
    omega

/-- Ids that follow one another in the list are in one extent. -/
theorem Laid.extent_next (h : store.Laid vector) {extent : VectorRunExtent} {k : Nat}
    {next : UInt32} (hextent : store.extentForLocalRow r = .ok (extent, k))
    (hpid : store.globalIds[r]? = some pid) (hnext : store.globalIds[r + 1]? = some next)
    (hfollows : follows pid next = true) :
    store.extentForLocalRow (r + 1) = .ok (extent, k + 1) := by
  have hflatten := List.flatten_splitBy follows store.globalIds
  rw [← hflatten] at hpid hnext
  obtain ⟨front, run, back, j, hruns, hrow, hj⟩ := exists_run_of_getElem? hpid
  have heq := h.extent_eq hruns hj hrow
  rw [hextent] at heq
  obtain ⟨rfl, rfl⟩ := Prod.mk.inj (Except.ok.inj heq)
  have hlen := (List.getElem?_eq_some_iff.mp hj).1
  have hstep : r + 1 - front.flatten.length = k + 1 := by
    omega
  rw [hruns, List.flatten_append, List.flatten_cons, List.getElem?_append_right (by omega),
    hstep] at hnext
  by_cases hinside : k + 1 < run.length
  · rw [List.getElem?_append_left hinside] at hnext
    exact h.extent_eq hruns hnext (by omega)
  · -- a run does not end before an id that follows its last one
    have hends : k + 1 = run.length := by
      omega
    rw [List.getElem?_append_right (by omega), hends, Nat.sub_self] at hnext
    have hchain := List.isChain_getLast_head_splitBy follows store.globalIds
    rw [hruns] at hchain
    cases back with
    | nil => cases hnext
    | cons other back =>
        obtain ⟨hne, hne', hnot⟩ := (List.isChain_append.mp hchain).2.1.rel
        have hlast : run.getLast hne = pid := by
          apply Option.some.inj
          rw [← List.getLast?_eq_some_getLast hne, List.getLast?_eq_getElem?, ← hends,
            Nat.add_sub_cancel, hj]
        have hhead : other.head hne' = next := by
          apply Option.some.inj
          rw [← List.head?_eq_some_head hne', List.head?_eq_getElem?, ← hnext, List.flatten_cons,
            List.getElem?_append_left (List.length_pos_iff.mpr hne')]
        rw [hlast, hhead, hfollows] at hnot
        cases hnot

/-! ## Reading rows -/

/-- Rows within one extent are read as they were written. -/
theorem Laid.readLocalRowsInto_eq (h : store.Laid vector) {extent : VectorRunExtent}
    {k count : Nat} {out : List F32} (hextent : store.extentForLocalRow r = .ok (extent, k))
    (hr : r < store.globalIds.length) (hpos : 0 < count) (hfit : k + count ≤ extent.len)
    (hout : out.length = count * store.dim) :
    store.readLocalRowsInto r count out =
      .ok (((store.globalIds.flatMap vector).drop (r * store.dim)).take (count * store.dim)) := by
  obtain ⟨_, _, heq, -, hoffset, hend⟩ := h.extent_spec hr
  rw [hextent] at heq
  obtain ⟨rfl, rfl⟩ := Prod.mk.inj (Except.ok.inj heq)
  have hdata := length_flatMap_of_width h.width
  have hplace : extent.byteOffset + k * store.rowBytes = r * store.dim * 4 := by
    rw [hoffset, h.row_bytes, Nat.mul_assoc]
  have hbound : r * store.dim + count * store.dim ≤ (store.globalIds.flatMap vector).length := by
    rw [hdata, ← Nat.add_mul]
    exact Nat.mul_le_mul_right _ (by omega)
  have hlen : 0 < count * store.dim := Nat.mul_pos hpos h.dim_pos
  rw [readLocalRowsInto, if_neg (Nat.ne_of_gt hpos), if_neg (not_not.mpr hout), hextent, ok_bind]
  simp only [if_neg (Nat.not_lt.mpr hfit), hplace, hout, h.file]
  rw [readFileExactAt, if_neg (by omega),
    if_pos (by rw [f32SliceAsBytes_length]; omega), ok_bind, f32sOfBytes_readAt hbound]

/-- The rows read together are in one extent, one behind the other. -/
theorem Laid.takeLocalRun_spec (h : store.Laid vector) {prev : Nat × Nat} {rows : List (Nat × Nat)}
    {extent : VectorRunExtent} {k : Nat} (hprev : store.extentForLocalRow prev.1 = .ok (extent, k))
    (hk : k < extent.len) (hrows : ∀ row ∈ rows, row.1 < store.globalIds.length) :
    ∃ more left, store.takeLocalRun prev rows = .ok (more, left) ∧ rows = more ++ left ∧
      (∀ i row, (prev :: more)[i]? = some row → row.1 = prev.1 + i) ∧
      k + (more.length + 1) ≤ extent.len := by
  induction rows generalizing prev k with
  | nil =>
      refine ⟨[], [], rfl, rfl, fun i row hrow => ?_, hk⟩
      match i with
      | 0 => rw [← Option.some.inj hrow, Nat.add_zero]
      | i + 1 => cases hrow
  | cons row rows ih =>
      obtain ⟨hrow, hrows⟩ := List.forall_mem_cons.mp hrows
      have hstop : ∀ i other, [prev][i]? = some other → other.1 = prev.1 + i := by
        intro i other hother
        match i with
        | 0 => rw [← Option.some.inj hother, Nat.add_zero]
        | i + 1 => cases hother
      rw [takeLocalRun]
      split_ifs with hnext
      · obtain ⟨rowExtent, j, hextent, hj, hoffset, -⟩ := h.extent_spec hrow
        rw [hprev, ok_bind, hextent, ok_bind]
        dsimp only
        split_ifs with hsame
        · subst hsame
          have hprevRow : prev.1 < store.globalIds.length := by
            omega
          obtain ⟨_, _, heq, -, hbefore, -⟩ := h.extent_spec hprevRow
          rw [hprev] at heq
          obtain ⟨rfl, rfl⟩ := Prod.mk.inj (Except.ok.inj heq)
          have hstep : j = k + 1 := by
            rw [hnext, Nat.succ_mul, ← hbefore, Nat.add_assoc, ← Nat.succ_mul] at hoffset
            have hpos : 0 < store.rowBytes := h.row_bytes ▸ Nat.mul_pos h.dim_pos (Nat.succ_pos 3)
            exact Nat.eq_of_mul_eq_mul_right hpos (Nat.add_left_cancel hoffset)
          obtain ⟨more, left, htake, hsplit, hrun, hfit⟩ := ih hextent hj hrows
          rw [htake, ok_bind]
          refine ⟨row :: more, left, rfl, by rw [hsplit, List.cons_append], ?_, ?_⟩
          · intro i other hother
            match i with
            | 0 => rw [← Option.some.inj hother, Nat.add_zero]
            | i + 1 =>
                rw [hrun i other hother, hnext]
                omega
          · rw [List.length_cons]
            omega
        · exact ⟨[], row :: rows, rfl, rfl, hstop, hk⟩
      · exact ⟨[], row :: rows, rfl, rfl, hstop, hk⟩

/-- The rows of a run go from the buffer to their places. -/
theorem scatter_spec {buffer out : List F32} {dim n runLen first : Nat} {rowOf : Nat → List F32}
    {done : List Nat} (hbuffer : buffer.length = runLen * dim) (hwidth : ∀ p < n, (rowOf p).length = dim)
    (rows : List (Nat × Nat))
    (hrows : ∀ i row, rows[i]? = some row →
      row.2 < n ∧ first + i < runLen ∧ slot dim buffer (first + i) = rowOf row.2)
    (hfilled : FilledAt dim n rowOf done out) :
    ∃ next, (rows.zipIdx first).foldlM (fun out entry =>
        copySlice buffer (entry.2 * dim) out (entry.1.2 * dim) dim) out = .ok next ∧
      FilledAt dim n rowOf (done ++ rows.map Prod.snd) next := by
  induction rows generalizing first done out with
  | nil =>
      rw [List.map_nil, List.append_nil]
      exact ⟨out, rfl, hfilled⟩
  | cons row rows ih =>
      obtain ⟨hplace, hin, hslot⟩ := hrows 0 row rfl
      rw [Nat.add_zero] at hin hslot
      have hsrc : first * dim + dim ≤ buffer.length := hbuffer ▸ slot_bound dim hin
      have hdst : row.2 * dim + dim ≤ out.length := hfilled.length ▸ slot_bound dim hplace
      have hnext := hfilled.setSlot hplace (hwidth row.2 hplace)
      rw [List.zipIdx_cons, List.foldlM_cons, RowFile.copySlice_eq hsrc hdst, hslot, ok_bind,
        List.map_cons, ← List.singleton_append, ← List.append_assoc]
      apply ih _ hnext
      intro i other hother
      have hlater := hrows (i + 1) other hother
      rwa [← Nat.add_assoc, Nat.add_right_comm] at hlater

/-- All runs together put the vector of each id to its place. -/
theorem Laid.readRuns_spec (h : store.Laid vector) {n : Nat} {rowOf : Nat → List F32}
    {rows : List (Nat × Nat)} {fuel : Nat} {done : List Nat} {out : List F32}
    (hfuel : rows.length ≤ fuel)
    (hrows : ∀ row ∈ rows, row.2 < n ∧ ∃ pid, store.globalIds[row.1]? = some pid ∧
      rowOf row.2 = vector pid)
    (hwidth : ∀ p < n, (rowOf p).length = store.dim)
    (hfilled : FilledAt store.dim n rowOf done out) :
    ∃ next, store.readRuns fuel rows out = .ok next ∧
      FilledAt store.dim n rowOf (done ++ rows.map Prod.snd) next := by
  induction fuel generalizing rows done out with
  | zero =>
      rw [List.length_eq_zero_iff.mp (Nat.le_zero.mp hfuel), List.map_nil, List.append_nil]
      exact ⟨out, rfl, hfilled⟩
  | succ fuel ih =>
      cases rows with
      | nil =>
          rw [List.map_nil, List.append_nil]
          exact ⟨out, rfl, hfilled⟩
      | cons row rows =>
          have hlocal : ∀ other ∈ row :: rows, other.1 < store.globalIds.length := by
            intro other hother
            obtain ⟨-, pid, hpid, -⟩ := hrows other hother
            exact (List.getElem?_eq_some_iff.mp hpid).1
          obtain ⟨hrow, hrest⟩ := List.forall_mem_cons.mp hlocal
          obtain ⟨extent, k, hextent, hk, -, -⟩ := h.extent_spec hrow
          obtain ⟨more, left, htake, rfl, hrun, hfit⟩ := h.takeLocalRun_spec hextent hk hrest
          have hzeros : (List.replicate ((more.length + 1) * store.dim) F32.zero).length =
              (more.length + 1) * store.dim := List.length_replicate
          have hread := h.readLocalRowsInto_eq hextent hrow (Nat.succ_pos _) hfit hzeros
          have hdata := length_flatMap_of_width h.width
          have hend : row.1 + (more.length + 1) ≤ store.globalIds.length := by
            have hlast := List.getElem?_eq_getElem (show more.length < (row :: more).length by simp)
            have hat := hrun more.length _ hlast
            have hin := hlocal _ (List.mem_append_left left (List.mem_of_getElem? hlast))
            omega
          have hbuffer := slice_length hdata hend
          obtain ⟨next, hscatter, hnext⟩ := scatter_spec hbuffer hwidth (row :: more)
            (fun i other hother => by
              have hmem : other ∈ row :: (more ++ left) :=
                List.mem_append_left left (List.mem_of_getElem? hother)
              have hlt : i < more.length + 1 := (List.getElem?_eq_some_iff.mp hother).1
              obtain ⟨hplace, pid, hpid, hvector⟩ := hrows other hmem
              rw [hrun i other hother] at hpid
              rw [Nat.zero_add, slot_slice hlt, slot_flatMap h.width hpid]
              exact ⟨hplace, hlt, hvector.symm⟩) hfilled
          have hleft : left.length ≤ fuel := by
            simp only [List.length_cons, List.length_append] at hfuel
            omega
          obtain ⟨last, hruns, hlast⟩ := ih hleft
            (fun other hother => hrows other (List.mem_append_right (row :: more) hother)) hnext
          rw [readRuns, htake, ok_bind]
          dsimp only
          rw [hread, ok_bind, hscatter, ok_bind]
          refine ⟨last, hruns, ?_⟩
          rw [← List.cons_append, List.map_append, ← List.append_assoc]
          exact hlast

/-! ## Reads by id -/

theorem Laid.lookup (h : store.Laid vector) (hmem : pid ∈ store.globalIds) :
    ∃ row, store.localRowForGlobalId pid = .ok row ∧ store.globalIds[row]? = some pid := by
  obtain ⟨sort, htable⟩ := h.table
  rw [localRowForGlobalId, htable]
  exact tableRow_of_mem hmem

theorem Laid.lookup_absent (h : store.Laid vector) (hmem : pid ∉ store.globalIds) :
    ∃ err, store.localRowForGlobalId pid = .error (.index err) := by
  obtain ⟨sort, htable⟩ := h.table
  rw [localRowForGlobalId, htable]
  exact ⟨_, tableRow_of_not_mem hmem⟩

/-- A batch read answers its query. -/
theorem Laid.readPointsInto_answers (h : store.Laid vector) (sort : LocalRowSort)
    {ids : List UInt32} {out : List F32} (hout : out.length = ids.length * store.dim) :
    Answers store.globalIds vector ids (store.readPointsInto sort ids out) := by
  rw [readPointsInto, checkMatrixBuffer, if_neg (not_not.mpr hout), ok_bind]
  split_ifs with hnil
  · subst hnil
    have hempty : out = [] := List.length_eq_zero_iff.mp (by rw [hout, List.length_nil, Nat.zero_mul])
    refine ⟨fun _ => by rw [hempty]; rfl, fun hmissing => ?_⟩
    obtain ⟨pid, hpid, -⟩ := hmissing
    cases hpid
  · refine ⟨fun hall => ?_, fun hmissing => ?_⟩
    · have hlookup : ∀ entry ∈ ids.zipIdx, (do
          let localRow ← store.localRowForGlobalId entry.1
          .ok (localRow, entry.2)) = Except.ok (store.globalIds.idxOf entry.1, entry.2) := by
        intro entry hentry
        obtain ⟨row, hrow, hget⟩ := h.lookup (hall entry.1 (List.fst_mem_of_mem_zipIdx hentry))
        obtain ⟨hlt, heq⟩ := List.getElem?_eq_some_iff.mp hget
        rw [hrow, ok_bind, ← heq, h.nodup.idxOf_getElem]
      rw [mapM_eq_ok_map hlookup, ok_bind]
      have hperm := sort.perm (ids.zipIdx.map fun entry => (store.globalIds.idxOf entry.1, entry.2))
      have hplaces : ∀ p < ids.length, (ids.getD p 0) ∈ ids := by
        intro p hp
        rw [List.getD_eq_getElem?_getD, List.getElem?_eq_getElem hp]
        exact List.getElem_mem hp
      have hrows : ∀ row ∈ sort.sort
          (ids.zipIdx.map fun entry => (store.globalIds.idxOf entry.1, entry.2)),
          row.2 < ids.length ∧ ∃ pid, store.globalIds[row.1]? = some pid ∧
            vector (ids.getD row.2 0) = vector pid := by
        intro row hrow
        obtain ⟨entry, hentry, rfl⟩ := List.mem_map.mp (hperm.mem_iff.mp hrow)
        have hget := List.mem_zipIdx_iff_getElem?.mp hentry
        have hmem := hall entry.1 (List.mem_of_getElem? hget)
        refine ⟨(List.getElem?_eq_some_iff.mp hget).1, entry.1, ?_, ?_⟩
        · rw [List.getElem?_eq_getElem (List.idxOf_lt_length_of_mem hmem), List.getElem_idxOf]
        · rw [List.getD_eq_getElem?_getD, hget, Option.getD_some]
      have hfuel : (sort.sort (ids.zipIdx.map fun entry =>
          (store.globalIds.idxOf entry.1, entry.2))).length ≤ _ := Nat.le_of_eq hperm.length_eq
      obtain ⟨next, hread, hfilled⟩ := h.readRuns_spec hfuel hrows
        (fun p hp => h.width _ (hall _ (hplaces p hp))) (FilledAt.nil hout)
      rw [hread, hfilled.eq, flatMap_range_getD]
      intro p hp
      have hsnd := (hperm.map Prod.snd).mem_iff (a := p)
      rw [List.map_map] at hsnd
      rw [List.nil_append]
      apply hsnd.mpr
      refine List.mem_map.mpr ⟨(ids[p], p), ?_, rfl⟩
      exact List.mem_zipIdx_iff_getElem?.mpr (List.getElem?_eq_getElem hp)
    · obtain ⟨pid, hpid, habsent⟩ := hmissing
      obtain ⟨p, hp⟩ := List.mem_iff_getElem?.mp hpid
      obtain ⟨err, hlookup⟩ := h.lookup_absent habsent
      have hentry : (pid, p) ∈ ids.zipIdx := List.mem_zipIdx_iff_getElem?.mpr hp
      obtain ⟨e, hrows⟩ : ∃ e, (ids.zipIdx.mapM fun entry => do
          let localRow ← store.localRowForGlobalId entry.1
          .ok (localRow, entry.2)) = (Except.error e : AnnResult (List (Nat × Nat))) := by
        apply mapM_error_of_mem hentry
        rw [hlookup, error_bind]
      obtain ⟨entry, -, hfailed⟩ := exists_of_mapM_error hrows
      rw [hrows, error_bind]
      by_cases hmem : entry.1 ∈ store.globalIds
      · obtain ⟨row, hrow, -⟩ := h.lookup hmem
        rw [hrow] at hfailed
        cases hfailed
      · obtain ⟨err, herr⟩ := h.lookup_absent hmem
        rw [herr, error_bind] at hfailed
        exact ⟨err, congrArg Except.error (Except.error.inj hfailed).symm⟩

theorem Laid.readPointInto_answers (h : store.Laid vector) {out : List F32}
    (hout : out.length = store.dim) :
    Answers store.globalIds vector [pid] (store.readPointInto pid out) := by
  rw [readPointInto, if_neg (not_not.mpr hout)]
  refine ⟨fun hall => ?_, fun hmissing => ?_⟩
  · obtain ⟨row, hlookup, hrow⟩ := h.lookup (hall pid List.mem_cons_self)
    have hlt := (List.getElem?_eq_some_iff.mp hrow).1
    obtain ⟨extent, k, hextent, hk, -, -⟩ := h.extent_spec hlt
    have hread := h.readLocalRowsInto_eq hextent hlt Nat.one_pos hk (hout.trans (Nat.one_mul _).symm)
    rw [hlookup, ok_bind, hread, Nat.one_mul, List.flatMap_singleton, ← slot_flatMap h.width hrow]
    rfl
  · obtain ⟨q, hq, habsent⟩ := hmissing
    rw [List.mem_singleton.mp hq] at habsent
    obtain ⟨err, hlookup⟩ := h.lookup_absent habsent
    exact ⟨err, by rw [hlookup, error_bind]⟩

/-- The ids of a range stand in the run one behind the other. -/
def RangeAt (globalIds : List UInt32) (startPid : UInt32) (count row : Nat) : Prop :=
  ∀ k < count, ∃ pid, globalIds[row + k]? = some pid ∧ pid.toNat = startPid.toNat + k

/-- What the range read compares is where the range stands. -/
theorem Laid.rangeAt_iff (h : store.Laid vector) {startPid : UInt32} {count row : Nat} :
    (∀ k < count, store.globalIds[row + k]? = some (saturatingAdd startPid (UInt32.ofNat k))) ↔
      RangeAt store.globalIds startPid count row := by
  constructor
  · intro hids k hk
    refine ⟨_, hids k hk, ?_⟩
    -- the id before the last one would be compared where the sum saturates
    have hbound : startPid.toNat + k < 2 ^ 32 - 1 := by
      by_contra hge
      have hlt := startPid.toNat_lt
      have hsat : saturatingAdd startPid (UInt32.ofNat (2 ^ 32 - 1 - startPid.toNat)) = 4294967295 := by
        apply UInt32.toNat_inj.mp
        rw [saturatingAdd_toNat, UInt32.toNat_ofNat', Nat.mod_eq_of_lt (by omega)]
        change _ = 4294967295
        omega
      have hlast := hids (2 ^ 32 - 1 - startPid.toNat) (by omega)
      rw [hsat] at hlast
      exact lt_irrefl _ (h.max _ (List.mem_of_getElem? hlast))
    rw [saturatingAdd_toNat, UInt32.toNat_ofNat', Nat.mod_eq_of_lt (by omega)]
    omega
  · intro hids k hk
    obtain ⟨pid, hpid, hat⟩ := hids k hk
    have hlt := pid.toNat_lt
    rw [hpid]
    congr 1
    apply UInt32.toNat_inj.mp
    rw [saturatingAdd_toNat, UInt32.toNat_ofNat', Nat.mod_eq_of_lt (by omega)]
    omega

/-- A range that stands in the run is in one extent. -/
theorem Laid.range_extent (h : store.Laid vector) {startPid : UInt32} {count row k : Nat}
    {extent : VectorRunExtent} (hrange : RangeAt store.globalIds startPid count row)
    (hextent : store.extentForLocalRow row = .ok (extent, k)) {i : Nat} (hi : i < count) :
    store.extentForLocalRow (row + i) = .ok (extent, k + i) := by
  induction i with
  | zero => exact hextent
  | succ i ih =>
      obtain ⟨pid, hpid, hat⟩ := hrange i (Nat.lt_of_succ_lt hi)
      obtain ⟨next, hnext, hnextAt⟩ := hrange (i + 1) hi
      have hfollows : follows pid next = true := by
        have hlt := next.toNat_lt
        have hone : (1 : UInt32).toNat = 1 := rfl
        apply decide_eq_true
        apply UInt32.toNat_inj.mp
        rw [saturatingAdd_toNat]
        omega
      exact h.extent_next (ih (Nat.lt_of_succ_lt hi)) hpid hnext hfollows

theorem Laid.readRangeInto_of_range (h : store.Laid vector) {startPid : UInt32} {count row : Nat}
    {out : List F32} (hrange : RangeAt store.globalIds startPid count row)
    (hout : out.length = count * store.dim) :
    store.readRangeInto startPid count out =
      .ok ((List.range count).flatMap fun k => vector (UInt32.ofNat (startPid.toNat + k))) := by
  rw [readRangeInto, checkMatrixBuffer, if_neg (not_not.mpr hout), ok_bind]
  split_ifs with hzero
  · subst hzero
    rw [List.length_eq_zero_iff.mp (hout.trans (Nat.zero_mul _))]
    rfl
  · have hpos := Nat.pos_of_ne_zero hzero
    obtain ⟨first, hfirst, hat⟩ := hrange 0 hpos
    have hstart : first = startPid := UInt32.toNat_inj.mp hat
    subst hstart
    obtain ⟨found, hlookup, hfound⟩ := h.lookup (List.mem_of_getElem? hfirst)
    have hrow : row < store.globalIds.length := (List.getElem?_eq_some_iff.mp hfirst).1
    have hsame : found = row := by
      have hlt := (List.getElem?_eq_some_iff.mp hfound).1
      exact (List.getElem?_inj hlt h.nodup).mp (hfound.trans hfirst.symm)
    subst hsame
    obtain ⟨extent, k, hextent, hk, -, -⟩ := h.extent_spec hrow
    have hfit : k + count ≤ extent.len := by
      have hlast := h.range_extent hrange hextent (show count - 1 < count by omega)
      obtain ⟨pid, hpid, -⟩ := hrange (count - 1) (by omega)
      obtain ⟨_, _, heq, hin, -, -⟩ := h.extent_spec (List.getElem?_eq_some_iff.mp hpid).1
      rw [hlast] at heq
      obtain ⟨rfl, rfl⟩ := Prod.mk.inj (Except.ok.inj heq)
      omega
    have hend : found + count ≤ store.globalIds.length := by
      obtain ⟨pid, hpid, -⟩ := hrange (count - 1) (by omega)
      have hlt := (List.getElem?_eq_some_iff.mp hpid).1
      omega
    rw [hlookup, ok_bind, if_pos (h.rangeAt_iff.mpr hrange),
      h.readLocalRowsInto_eq hextent hrow hpos hfit hout,
      ← flatMap_slot (slice_length (length_flatMap_of_width h.width) hend)]
    congr 1
    apply List.flatMap_congr
    intro i hi
    have hi := List.mem_range.mp hi
    obtain ⟨pid, hpid, hat⟩ := hrange i hi
    rw [slot_slice hi, slot_flatMap h.width hpid, ← hat, UInt32.ofNat_toNat]

theorem Laid.readRangeInto_error (h : store.Laid vector) {startPid : UInt32} {count : Nat}
    {out : List F32} (hrange : ∀ row, ¬ RangeAt store.globalIds startPid count row)
    (hout : out.length = count * store.dim) :
    ∃ err, store.readRangeInto startPid count out = .error (.index err) := by
  rw [readRangeInto, checkMatrixBuffer, if_neg (not_not.mpr hout), ok_bind]
  split_ifs with hzero
  · exact absurd (fun k hk => absurd hk (hzero ▸ Nat.not_lt_zero k)) (hrange 0)
  · by_cases hmem : startPid ∈ store.globalIds
    · obtain ⟨row, hlookup, -⟩ := h.lookup hmem
      rw [hlookup, ok_bind, if_neg fun hids => hrange row (h.rangeAt_iff.mp hids)]
      exact ⟨_, rfl⟩
    · obtain ⟨err, hlookup⟩ := h.lookup_absent hmem
      exact ⟨err, by rw [hlookup, error_bind]⟩

end VectorRunPointStore

/-! ## The run as a copy -/

/-- A resident subset as the source of a run. -/
def ResidentSubsetPointStore.source (store : ResidentSubsetPointStore) {f : UInt32 → List F32}
    (h : store.Of f) : PointSource where
  dim := store.width
  vector := f
  readPointsInto := store.readPointsInto
  reads ids out result hread := by
    have hout : out.length = ids.length * store.width := by
      by_contra hne
      rw [readPointsInto, ResidentRows.readRowsInto, if_pos hne] at hread
      cases hread
    obtain ⟨hok, herr⟩ := (faithfulBatch h).points ids out hout
    have hall : ∀ pid ∈ ids, pid ∈ store.globalIds := by
      by_contra hmissing
      simp only [not_forall] at hmissing
      obtain ⟨pid, hpid, habsent⟩ := hmissing
      obtain ⟨err, hfailed⟩ := herr ⟨pid, hpid, habsent⟩
      rw [hread] at hfailed
      cases hfailed
    rw [hok hall] at hread
    exact ⟨(Except.ok.inj hread).symm, fun pid hpid => h.row_length_of_mem (hall pid hpid)⟩

/-- What the reads of a run owe to the store it was copied from. -/
structure FaithfulCopy (source : PointSource) (globalIds : List UInt32) (store : VectorRunPointStore) :
    Prop where
  points : ∀ sort ids out, out.length = ids.length * source.dim →
    Answers globalIds source.vector ids (store.readPointsInto sort ids out)
  point : ∀ pid out, out.length = source.dim →
    Answers globalIds source.vector [pid] (store.readPointInto pid out)
  range : ∀ startPid count out, out.length = count * source.dim →
    ((∃ row, VectorRunPointStore.RangeAt globalIds startPid count row) →
      store.readRangeInto startPid count out = .ok ((List.range count).flatMap fun k =>
        source.vector (UInt32.ofNat (startPid.toNat + k)))) ∧
    ((¬ ∃ row, VectorRunPointStore.RangeAt globalIds startPid count row) →
      ∃ err, store.readRangeInto startPid count out = .error (.index err))

/-- A vector run is a faithful copy of the vectors of its ids. -/
theorem vectorRun_faithful {sort : TableSort} {source : PointSource} {globalIds : List UInt32}
    {store : VectorRunPointStore}
    (h : VectorRunPointStore.materialize sort source globalIds = .ok store)
    (hnodup : globalIds.Nodup) (hmax : ∀ pid ∈ globalIds, pid < 4294967295) :
    FaithfulCopy source globalIds store := by
  obtain ⟨hlaid, rfl, hdim⟩ := VectorRunPointStore.materialize_laid h hnodup hmax
  refine ⟨?_, ?_, ?_⟩
  · intro sort ids out hout
    exact hlaid.readPointsInto_answers sort (hdim ▸ hout)
  · intro pid out hout
    exact hlaid.readPointInto_answers (hdim ▸ hout)
  · intro startPid count out hout
    rw [← hdim] at hout
    refine ⟨fun hrange => ?_, fun hnone => ?_⟩
    · obtain ⟨row, hrange⟩ := hrange
      exact hlaid.readRangeInto_of_range hrange hout
    · exact hlaid.readRangeInto_error (fun row hrange => hnone ⟨row, hrange⟩) hout

/-- Two points copied in the order opposite to that of their ids. -/
theorem vectorRun_faithful_two_extents :
    let source := ResidentSubsetPointStore.twoPoints.source
      (ResidentRows.new_of _ rfl ResidentSubsetPointStore.twoPoints_rows)
    ∃ store, VectorRunPointStore.materialize (.byKey Prod.fst) source [5, 2] = .ok store ∧
      FaithfulCopy source [5, 2] store := by
  have hmax : ∀ pid ∈ ([5, 2] : List UInt32), pid < 4294967295 := by
    intro pid hpid
    apply UInt32.lt_iff_toNat_lt.mpr
    rcases List.mem_pair.mp hpid with rfl | rfl
    · exact Nat.lt_of_sub_eq_succ rfl
    · exact Nat.lt_of_sub_eq_succ rfl
  exact ⟨_, rfl, vectorRun_faithful rfl (by decide) hmax⟩

end ForgeANN
