-- SUMMARY: Rows of some of the points kept in memory: every way to read them gives the row of the id.
import ForgeANN.Gather.Plan
import ForgeANN.Lib.Except
import ForgeANN.Lib.Slots
import ForgeANN.Points.RowTable
import Mathlib.Data.List.TakeWhile

/-!
# Resident subsets

The rows of some points, or of their sketches, in one matrix. Which row has an
id is found out by comparing the whole query, by going through both lists, by
searching the ids or by searching a table of them.
-/
namespace ForgeANN

open Lib

/-! ## The rows and their lookup -/

/-- What the point store and the sketch accessor have in common. -/
structure ResidentRows where
  globalIds : List UInt32
  idToRow : List (UInt32 × Nat)
  data : List F32
  width : Nat
  sortedUniqueIds : Bool
deriving DecidableEq, Repr

/-- `out.copy_from_slice(src)`. -/
def copyFromSlice (src out : List F32) : AnnResult (List F32) :=
  if src.length = out.length then .ok src
  else .error (.panic "copy_from_slice: source slice length does not match destination slice length")

def saturatingAdd (a b : UInt32) : UInt32 := if a.toNat + b.toNat < 2 ^ 32 then a + b else 4294967295

namespace ResidentRows

def new (sort : TableSort) (globalIds : List UInt32) (width : Nat) (data : List F32) : ResidentRows where
  globalIds
  idToRow := if isStrictlyIncreasing globalIds then [] else ForgeANN.idToRow sort globalIds
  data
  width
  sortedUniqueIds := isStrictlyIncreasing globalIds

variable (rows : ResidentRows) (absent : UInt32 → AnnError)

def localRowForGlobalId (pid : UInt32) : AnnResult Nat :=
  if rows.sortedUniqueIds then
    match binarySearchByKey id rows.globalIds pid with
    | .ok row => .ok row
    | .error _ => .error (absent pid)
  else tableRow rows.idToRow pid (absent pid)

def copyRowInto (localRow : Nat) (out : List F32) (row : Nat) : AnnResult (List F32) :=
  copySlice rows.data (localRow * rows.width) out (row * rows.width) rows.width

/-- The merge scan from `localRow` on. -/
def readSortedFrom : List UInt32 → Nat → Nat → List F32 → AnnResult (List F32)
  | [], _, _, out => .ok out
  | pid :: ids, row, localRow, out => do
      let localRow := localRow + ((rows.globalIds.drop localRow).takeWhile (· < pid)).length
      if rows.globalIds[localRow]? ≠ some pid then .error (absent pid)
      else
        let out ← rows.copyRowInto localRow out row
        readSortedFrom ids (row + 1) localRow out

def readSortedInto (ids : List UInt32) (out : List F32) : AnnResult (List F32) :=
  rows.readSortedFrom absent ids 0 0 out

/-- One lookup for each id. -/
def readEachInto (ids : List UInt32) (out : List F32) : AnnResult (List F32) :=
  ids.zipIdx.foldlM (fun out entry => do
    let localRow ← rows.localRowForGlobalId absent entry.1
    rows.copyRowInto localRow out entry.2) out

/-- The batch read; `mismatch` is the error for a buffer of another size. -/
def readRowsInto (mismatch : Nat → Nat → AnnError) (ids : List UInt32) (out : List F32) :
    AnnResult (List F32) :=
  if out.length ≠ ids.length * rows.width then
    .error (mismatch out.length (ids.length * rows.width))
  else if ids = [] then .ok out
  else if ids.length = rows.globalIds.length ∧ ids = rows.globalIds then copyFromSlice rows.data out
  else if rows.sortedUniqueIds ∧ isNondecreasing ids then rows.readSortedInto absent ids out
  else rows.readEachInto absent ids out

end ResidentRows

/-! ## The point store -/

structure ResidentSubsetPointStore extends ResidentRows where
  pointIdCapacity : Nat
deriving DecidableEq, Repr

namespace ResidentSubsetPointStore

def new (sort : TableSort) (globalIds : List UInt32) (dim : Nat) (data : List F32) :
    AnnResult ResidentSubsetPointStore :=
  if dim = 0 then
    .error (.index "Resident subset point store requires nonzero dimension")
  else if data.length ≠ globalIds.length * dim then
    .error (.index (s!"Resident subset point matrix size mismatch: got {data.length} " ++
      s!"expected {globalIds.length * dim}"))
  else
    .ok { ResidentRows.new sort globalIds dim data with
      pointIdCapacity := (globalIds.max?.map fun pid => pid.toNat + 1).getD 0 }

variable (store : ResidentSubsetPointStore)

def absent (pid : UInt32) : AnnError :=
  .index (s!"Point id {pid} not present in resident subset point store with " ++
    s!"{store.globalIds.length} points")

def mismatch (got expected : Nat) : AnnError :=
  .index s!"Point matrix size mismatch: got {got} expected {expected}"

def readPointInto (pid : UInt32) (out : List F32) : AnnResult (List F32) :=
  if out.length ≠ store.width then
    .error (.index s!"Point buffer width mismatch: got {out.length} expected {store.width}")
  else do
    let localRow ← store.localRowForGlobalId store.absent pid
    copySlice store.data (localRow * store.width) out 0 store.width

def readPointsInto (ids : List UInt32) (out : List F32) : AnnResult (List F32) :=
  store.readRowsInto store.absent mismatch ids out

/-- The first row of a range that stands in the matrix in one piece. -/
def contiguousStart (startPid : UInt32) (count : Nat) : Option Nat :=
  if store.sortedUniqueIds then
    match binarySearchByKey id store.globalIds startPid with
    | .ok localStart =>
        if localStart + count ≤ store.globalIds.length ∧ store.globalIds[localStart + count - 1]? =
            some (saturatingAdd startPid (UInt32.ofNat (count - 1))) then some localStart
        else none
    | .error _ => none
  else none

def readRangeInto (startPid : UInt32) (count : Nat) (out : List F32) : AnnResult (List F32) :=
  if count = 0 then .ok out
  else if out.length ≠ count * store.width then .error (mismatch out.length (count * store.width))
  else
    match store.contiguousStart startPid count with
    | some localStart =>
        copyFromSlice ((store.data.drop (localStart * store.width)).take (count * store.width)) out
    | none =>
        (List.range count).foldlM (fun out row => do
          let pid := saturatingAdd startPid (UInt32.ofNat row)
          let point ← store.readPointInto pid (slot store.width out row)
          .ok (setSlot store.width out row point)) out

end ResidentSubsetPointStore

/-! ## The sketch accessor -/

structure ResidentSubsetSketchAccessor extends ResidentRows where
  rows : Nat
deriving DecidableEq, Repr

namespace ResidentSubsetSketchAccessor

def new (sort : TableSort) (globalIds : List UInt32) (rows width : Nat) (data : List F32) :
    AnnResult ResidentSubsetSketchAccessor :=
  if width = 0 then
    .error (.index "Resident subset sketch accessor requires nonzero width")
  else if data.length ≠ globalIds.length * width then
    .error (.index (s!"Resident subset sketch matrix size mismatch: got {data.length} " ++
      s!"expected {globalIds.length * width}"))
  else .ok { ResidentRows.new sort globalIds width data with rows }

variable (store : ResidentSubsetSketchAccessor)

def absent (id : UInt32) : AnnError :=
  .index s!"Sketch row {id} not present in resident subset with {store.globalIds.length} rows"

def mismatch (got expected : Nat) : AnnError :=
  .index s!"Resident subset sketch matrix size mismatch: got {got} expected {expected}"

/-- A single row; its index is cut to 32 bits. -/
def rowCopyInto (idx : Nat) (dst : List F32) : AnnResult (List F32) :=
  if dst.length ≠ store.width then
    .error (.index s!"Sketch row copy width mismatch: dst={dst.length} expected={store.width}")
  else do
    let localRow ← store.localRowForGlobalId store.absent (UInt32.ofNat idx)
    copySlice store.data (localRow * store.width) dst 0 store.width

def readRowsInto (ids : List UInt32) (out : List F32) : AnnResult (List F32) :=
  store.toResidentRows.readRowsInto store.absent mismatch ids out

end ResidentSubsetSketchAccessor

/-! ## Finding the row of an id -/

namespace ResidentRows

/-- Rows of a matrix, each the value of its id, found as `new` has set it up. -/
structure Of (rows : ResidentRows) (f : UInt32 → List F32) : Prop where
  size : rows.data.length = rows.globalIds.length * rows.width
  row : ∀ i pid, rows.globalIds[i]? = some pid → slot rows.width rows.data i = f pid
  sorted : rows.sortedUniqueIds = true → rows.globalIds.Pairwise (· < ·)
  table : rows.sortedUniqueIds = false →
    ∃ sort, rows.idToRow = ForgeANN.idToRow sort rows.globalIds

theorem new_of (sort : TableSort) {globalIds : List UInt32} {width : Nat} {data : List F32}
    {f : UInt32 → List F32} (hsize : data.length = globalIds.length * width)
    (hrow : ∀ i pid, globalIds[i]? = some pid → slot width data i = f pid) :
    (new sort globalIds width data).Of f where
  size := hsize
  row := hrow
  sorted := isStrictlyIncreasing_iff.mp
  table hunsorted := ⟨sort, if_neg (Bool.eq_false_iff.mp hunsorted)⟩

variable {rows : ResidentRows} {f : UInt32 → List F32} {absent : UInt32 → AnnError}
  {ids : List UInt32} {out : List F32} {pid : UInt32} {n i row localRow : Nat}

theorem Of.sortedBy (h : rows.Of f) (hsorted : rows.sortedUniqueIds = true) :
    SortedBy id rows.globalIds :=
  h.sorted hsorted

theorem Of.lookup (h : rows.Of f) (absent : UInt32 → AnnError) (hmem : pid ∈ rows.globalIds) :
    ∃ i, rows.localRowForGlobalId absent pid = .ok i ∧ rows.globalIds[i]? = some pid := by
  rw [localRowForGlobalId]
  by_cases hsorted : rows.sortedUniqueIds = true
  · rw [if_pos hsorted]
    obtain ⟨i, hsearch⟩ := (binarySearch_ok_iff (h.sortedBy hsorted)).mpr
      (by rwa [List.map_id] : pid ∈ rows.globalIds.map id)
    obtain ⟨_, hi, rfl⟩ := key_of_binarySearch_ok hsearch
    exact ⟨i, by rw [hsearch], hi⟩
  · rw [if_neg hsorted]
    obtain ⟨sort, htable⟩ := h.table (Bool.eq_false_iff.mpr hsorted)
    rw [htable]
    exact tableRow_of_mem hmem

theorem Of.lookup_absent (h : rows.Of f) (hmem : pid ∉ rows.globalIds) :
    rows.localRowForGlobalId absent pid = .error (absent pid) := by
  rw [localRowForGlobalId]
  by_cases hsorted : rows.sortedUniqueIds = true
  · rw [if_pos hsorted]
    cases hsearch : binarySearchByKey id rows.globalIds pid with
    | error _ => rfl
    | ok i =>
        obtain ⟨_, hi, rfl⟩ := key_of_binarySearch_ok hsearch
        exact absurd (List.mem_of_getElem? hi) hmem
  · rw [if_neg hsorted]
    obtain ⟨sort, htable⟩ := h.table (Bool.eq_false_iff.mpr hsorted)
    rw [htable]
    exact tableRow_of_not_mem hmem

theorem Of.row_length (h : rows.Of f) (hi : rows.globalIds[i]? = some pid) :
    (f pid).length = rows.width := by
  have hlt := (List.getElem?_eq_some_iff.mp hi).1
  have hle := slot_bound rows.width hlt
  rw [← h.row i pid hi, slot, List.length_take, List.length_drop, h.size]
  omega

theorem Of.row_length_of_mem (h : rows.Of f) (hmem : pid ∈ rows.globalIds) :
    (f pid).length = rows.width := by
  obtain ⟨i, hi⟩ := List.mem_iff_getElem?.mp hmem
  exact h.row_length hi

/-- A row of the matrix copied to a place of the buffer. -/
theorem Of.copyRowInto_eq (h : rows.Of f) (hi : rows.globalIds[i]? = some pid)
    (hout : out.length = n * rows.width) (hrow : row < n) :
    rows.copyRowInto i out row = .ok (setSlot rows.width out row (f pid)) := by
  have hlt := (List.getElem?_eq_some_iff.mp hi).1
  have hsrc := slot_bound rows.width hlt
  have hdst := slot_bound rows.width hrow
  rw [copyRowInto, copySlice, if_pos ⟨by rw [h.size]; exact hsrc, by rw [hout]; exact hdst⟩,
    setSlot, ← h.row i pid hi]
  rfl

/-- A row of the matrix copied to a buffer of its own. -/
theorem Of.copyRow_eq (h : rows.Of f) (hi : rows.globalIds[i]? = some pid)
    (hout : out.length = rows.width) :
    copySlice rows.data (i * rows.width) out 0 rows.width = .ok (f pid) := by
  have hlt := (List.getElem?_eq_some_iff.mp hi).1
  have hsrc := slot_bound rows.width hlt
  rw [copySlice, if_pos ⟨by rw [h.size]; exact hsrc, by rw [hout, Nat.zero_add]⟩, ← h.row i pid hi,
    List.take_zero, List.nil_append, Nat.zero_add, List.drop_of_length_le (Nat.le_of_eq hout),
    List.append_nil]
  rfl

end ResidentRows

/-! ## The batch read -/

/-- The rows of the ids, one behind the other, or an error if one of them is not there. -/
def Answers (globalIds : List UInt32) (f : UInt32 → List F32) (ids : List UInt32)
    (result : AnnResult (List F32)) : Prop :=
  ((∀ pid ∈ ids, pid ∈ globalIds) → result = .ok (ids.flatMap f)) ∧
    ((∃ pid ∈ ids, pid ∉ globalIds) → ∃ err, result = .error (.index err))

/-- A loop that puts the row of each id to its place, and stops at one that is not there. -/
theorem fill_spec {globalIds : List UInt32} {f : UInt32 → List F32} {width : Nat}
    {step : List F32 → UInt32 × Nat → AnnResult (List F32)} {absent : UInt32 → AnnError}
    (before rest : List UInt32) {out : List F32}
    (hpresent : ∀ out pid row, out.length = (before ++ rest).length * width →
      row < (before ++ rest).length → pid ∈ globalIds →
        step out (pid, row) = .ok (setSlot width out row (f pid)))
    (hwidth : ∀ pid ∈ globalIds, (f pid).length = width)
    (hmissing : ∀ out pid row, out.length = (before ++ rest).length * width →
      row < (before ++ rest).length → pid ∉ globalIds → step out (pid, row) = .error (absent pid))
    (hfilled : FilledAt width (before ++ rest).length (fun p => f ((before ++ rest).getD p 0))
      (List.range before.length) out) :
    ((∀ pid ∈ rest, pid ∈ globalIds) →
        (rest.zipIdx before.length).foldlM step out = .ok ((before ++ rest).flatMap f)) ∧
      ((∃ pid ∈ rest, pid ∉ globalIds) →
        ∃ pid, (rest.zipIdx before.length).foldlM step out = .error (absent pid)) := by
  induction rest generalizing before out with
  | nil =>
      refine ⟨fun _ => ?_, fun habsent => ?_⟩
      · rw [List.append_nil] at hfilled
        rw [hfilled.eq fun p hp => List.mem_range.mpr hp, List.append_nil, flatMap_range_getD]
        rfl
      · obtain ⟨pid, hpid, -⟩ := habsent
        cases hpid
  | cons pid rest ih =>
      have hplace : before.length < (before ++ pid :: rest).length := by
        simp
      rw [List.zipIdx_cons, List.foldlM_cons]
      by_cases hmem : pid ∈ globalIds
      · have hget : (before ++ pid :: rest).getD before.length 0 = pid := by
          simp
        have hnext := hfilled.setSlot hplace (by rw [hget, hwidth pid hmem])
        have hsplit : before ++ pid :: rest = (before ++ [pid]) ++ rest := by
          rw [List.append_assoc, List.singleton_append]
        have hlen : before.length + 1 = (before ++ [pid]).length := by
          rw [List.length_append, List.length_singleton]
        rw [hpresent out pid before.length hfilled.length hplace hmem, ok_bind]
        rw [hget, ← List.range_succ, Nat.succ_eq_add_one, hlen, hsplit] at hnext
        rw [hsplit] at hpresent hmissing
        obtain ⟨hok, herr⟩ := ih (before ++ [pid]) hpresent hmissing hnext
        rw [hlen, hsplit]
        refine ⟨fun hall => hok fun q hq => hall q (List.mem_cons_of_mem pid hq), ?_⟩
        rintro ⟨q, hq, habsent⟩
        rcases List.mem_cons.mp hq with rfl | hq
        · exact absurd hmem habsent
        · exact herr ⟨q, hq, habsent⟩
      · rw [hmissing out pid before.length hfilled.length hplace hmem, error_bind]
        exact ⟨fun hall => absurd (hall pid List.mem_cons_self) hmem, fun _ => ⟨pid, rfl⟩⟩

theorem answers_of_fill {globalIds ids : List UInt32} {f : UInt32 → List F32} {width : Nat}
    {step : List F32 → UInt32 × Nat → AnnResult (List F32)} {absent : UInt32 → AnnError}
    {out : List F32} (habsent : ∀ pid, ∃ err, absent pid = .index err)
    (hout : out.length = ids.length * width)
    (hpresent : ∀ out pid row, out.length = ids.length * width → row < ids.length →
      pid ∈ globalIds → step out (pid, row) = .ok (setSlot width out row (f pid)))
    (hwidth : ∀ pid ∈ globalIds, (f pid).length = width)
    (hmissing : ∀ out pid row, out.length = ids.length * width → row < ids.length →
      pid ∉ globalIds → step out (pid, row) = .error (absent pid)) :
    Answers globalIds f ids (ids.zipIdx.foldlM step out) := by
  obtain ⟨hok, herr⟩ := fill_spec [] ids hpresent hwidth hmissing (FilledAt.nil hout)
  refine ⟨hok, fun hneeded => ?_⟩
  obtain ⟨pid, hread⟩ := herr hneeded
  obtain ⟨err, herr⟩ := habsent pid
  exact ⟨err, herr ▸ hread⟩

namespace ResidentRows

variable {rows : ResidentRows} {f : UInt32 → List F32} {absent : UInt32 → AnnError}
  {mismatch : Nat → Nat → AnnError} {ids before rest : List UInt32} {out : List F32} {localRow : Nat}

theorem Of.readEachInto_answers (h : rows.Of f) (habsent : ∀ pid, ∃ err, absent pid = .index err)
    (hout : out.length = ids.length * rows.width) :
    Answers rows.globalIds f ids (rows.readEachInto absent ids out) := by
  apply answers_of_fill habsent hout
  · intro out pid row hout hrow hmem
    obtain ⟨i, hlookup, hi⟩ := h.lookup absent hmem
    rw [hlookup, ok_bind, h.copyRowInto_eq hi hout hrow]
  · intro pid hmem
    exact h.row_length_of_mem hmem
  · intro out pid row _ _ hmem
    rw [h.lookup_absent hmem, error_bind]

/-- Where the scan for an id stops. -/
theorem scan_stops (l : List UInt32) (pid : UInt32) (localRow : Nat) :
    (∀ j a, localRow ≤ j → j < localRow + ((l.drop localRow).takeWhile (· < pid)).length →
        l[j]? = some a → a < pid) ∧
      ∀ a, l[localRow + ((l.drop localRow).takeWhile (· < pid)).length]? = some a → pid ≤ a := by
  have hsplit := List.takeWhile_append_dropWhile (p := (· < pid)) (l := l.drop localRow)
  refine ⟨fun j a hfrom hto ha => ?_, fun a ha => ?_⟩
  · have hget : (l.drop localRow)[j - localRow]? = some a := by
      rw [List.getElem?_drop, Nat.add_sub_cancel' hfrom, ha]
    rw [← hsplit, List.getElem?_append_left (by omega)] at hget
    have hall := List.mem_takeWhile_imp (List.mem_of_getElem? hget)
    exact of_decide_eq_true hall
  · rw [← List.getElem?_drop, ← hsplit, List.getElem?_append_right (Nat.le_of_eq (by rw [hsplit])),
      hsplit, Nat.sub_self, ← List.head?_eq_getElem?] at ha
    have hstop := List.head?_dropWhile_not (p := (· < pid)) (l := l.drop localRow)
    rw [ha] at hstop
    exact not_lt.mp (of_decide_eq_false (by simpa using hstop))

/-- The merge scan reads what the lookups read. -/
theorem Of.readSortedFrom_eq (h : rows.Of f) (hsorted : rows.sortedUniqueIds = true)
    (hrest : rest.Pairwise (· ≤ ·)) (row : Nat)
    (hbehind : ∀ pid ∈ rest, ∀ j a, j < localRow → rows.globalIds[j]? = some a → a < pid) :
    rows.readSortedFrom absent rest row localRow out =
      (rest.zipIdx row).foldlM (fun out entry => do
        let localRow ← rows.localRowForGlobalId absent entry.1
        rows.copyRowInto localRow out entry.2) out := by
  induction rest generalizing row localRow out with
  | nil => rfl
  | cons pid rest ih =>
      obtain ⟨hpid, hrest⟩ := List.pairwise_cons.mp hrest
      obtain ⟨hscanned, hstop⟩ := scan_stops rows.globalIds pid localRow
      rw [readSortedFrom, List.zipIdx_cons, List.foldlM_cons]
      generalize localRow + ((rows.globalIds.drop localRow).takeWhile (· < pid)).length = found
        at hscanned hstop
      have hbefore : ∀ j a, j < found → rows.globalIds[j]? = some a → a < pid := by
        intro j a hj ha
        rcases Nat.lt_or_ge j localRow with hlt | hge
        · exact hbehind pid List.mem_cons_self j a hlt ha
        · exact hscanned j a hge hj ha
      have hunique : ∀ j, rows.globalIds[j]? = some pid → j = found := by
        intro j hj
        rcases Nat.lt_trichotomy j found with hlt | heq | hgt
        · exact absurd (hbefore j pid hlt hj) (lt_irrefl pid)
        · exact heq
        · have hlen := (List.getElem?_eq_some_iff.mp hj).1
          have hget := List.getElem?_eq_getElem (Nat.lt_trans hgt hlen)
          have hlt := (h.sortedBy hsorted).getElem_lt hget hj hgt
          exact absurd (lt_of_lt_of_le hlt (hstop _ hget)) (lt_irrefl _)
      dsimp only
      split_ifs with hfound
      · have hmem : pid ∉ rows.globalIds := by
          intro hmem
          obtain ⟨j, hj⟩ := List.mem_iff_getElem?.mp hmem
          exact hfound (hunique j hj ▸ hj)
        rw [h.lookup_absent hmem]
        rfl
      · have hfound := not_not.mp hfound
        obtain ⟨j, hlookup, hj⟩ := h.lookup absent (List.mem_of_getElem? hfound)
        rw [hlookup, ok_bind, hunique j hj]
        cases rows.copyRowInto found out row with
        | error err => rfl
        | ok out =>
            apply ih hrest
            intro q hq j a hj ha
            exact lt_of_lt_of_le (hbefore j a hj ha) (hpid q hq)

theorem Of.readSortedInto_eq (h : rows.Of f) (hsorted : rows.sortedUniqueIds = true)
    (hids : ids.Pairwise (· ≤ ·)) :
    rows.readSortedInto absent ids out = rows.readEachInto absent ids out :=
  h.readSortedFrom_eq hsorted hids 0 fun _ _ _ _ hj => absurd hj (Nat.not_lt_zero _)

/-- The whole matrix is the rows of all its ids. -/
theorem Of.data_eq (h : rows.Of f) : rows.data = rows.globalIds.flatMap f := by
  rw [← flatMap_slot h.size, ← flatMap_range_getD f rows.globalIds 0]
  apply List.flatMap_congr
  intro i hi
  have hget := List.getElem?_eq_getElem (List.mem_range.mp hi)
  rw [h.row i _ hget, List.getD_eq_getElem?_getD, hget, Option.getD_some]

/-- Whichever way is taken, the batch read answers the query. -/
theorem Of.readRowsInto_answers (h : rows.Of f) (habsent : ∀ pid, ∃ err, absent pid = .index err)
    (hout : out.length = ids.length * rows.width) :
    Answers rows.globalIds f ids (rows.readRowsInto absent mismatch ids out) := by
  have heach := h.readEachInto_answers habsent hout
  rw [readRowsInto, if_neg (not_not.mpr hout)]
  split_ifs with hnil hall hmerge
  · subst hnil
    have hempty : out = [] := List.length_eq_zero_iff.mp (by rw [hout, List.length_nil, Nat.zero_mul])
    refine ⟨fun _ => by rw [hempty]; rfl, fun hmissing => ?_⟩
    obtain ⟨pid, hpid, -⟩ := hmissing
    cases hpid
  · obtain ⟨-, rfl⟩ := hall
    refine ⟨fun _ => ?_, fun hmissing => ?_⟩
    · rw [copyFromSlice, if_pos (by rw [h.size, hout]), h.data_eq]
    · obtain ⟨pid, hpid, habsent⟩ := hmissing
      exact absurd hpid habsent
  · rw [h.readSortedInto_eq hmerge.1 (isNondecreasing_iff.mp hmerge.2)]
    exact heach
  · exact heach

end ResidentRows

/-! ## The range read -/

theorem saturatingAdd_toNat (a b : UInt32) :
    (saturatingAdd a b).toNat = min (a.toNat + b.toNat) (2 ^ 32 - 1) := by
  rw [saturatingAdd]
  split_ifs with h
  · rw [UInt32.toNat_add, Nat.mod_eq_of_lt h]
    omega
  · have hmax : (4294967295 : UInt32).toNat = 4294967295 := rfl
    omega

namespace ResidentSubsetPointStore

variable {store : ResidentSubsetPointStore} {f : UInt32 → List F32} {startPid pid : UInt32}
  {count localStart : Nat} {out : List F32}

theorem absent_index (store : ResidentSubsetPointStore) (pid : UInt32) :
    ∃ err, store.absent pid = .index err :=
  ⟨_, rfl⟩

theorem readPointInto_of_mem (h : store.Of f) (hmem : pid ∈ store.globalIds)
    (hout : out.length = store.width) : store.readPointInto pid out = .ok (f pid) := by
  obtain ⟨i, hlookup, hi⟩ := h.lookup store.absent hmem
  rw [readPointInto, if_neg (not_not.mpr hout), hlookup, ok_bind, h.copyRow_eq hi hout]

theorem readPointInto_absent (h : store.Of f) (hmem : pid ∉ store.globalIds)
    (hout : out.length = store.width) : store.readPointInto pid out = .error (store.absent pid) := by
  rw [readPointInto, if_neg (not_not.mpr hout), h.lookup_absent hmem]
  rfl

/-- The id that the range read asks for in a row. -/
def rangeId (startPid : UInt32) (row : Nat) : UInt32 := saturatingAdd startPid (UInt32.ofNat row)

theorem rangeId_toNat (h : startPid.toNat + row < 2 ^ 32) :
    (rangeId startPid row).toNat = startPid.toNat + row := by
  rw [rangeId, saturatingAdd_toNat, UInt32.toNat_ofNat', Nat.mod_eq_of_lt (by omega)]
  omega

/-- Beyond the last id the range read asks for ids of the range again. -/
theorem le_rangeId (startPid : UInt32) (row : Nat) : startPid.toNat ≤ (rangeId startPid row).toNat := by
  have hlt := startPid.toNat_lt
  rw [rangeId, saturatingAdd_toNat]
  omega

/-- Of strictly increasing ids, one is greater than an earlier one by at least their distance. -/
theorem add_le_of_increasing {ids : List UInt32} (h : ids.Pairwise (· < ·)) {i d : Nat}
    {a b : UInt32} (hi : ids[i]? = some a) (hb : ids[i + d]? = some b) : a.toNat + d ≤ b.toNat := by
  induction d generalizing b with
  | zero => exact Nat.le_of_eq (congrArg UInt32.toNat (Option.some.inj (hi.symm.trans hb)))
  | succ d ih =>
      have hlen := (List.getElem?_eq_some_iff.mp hb).1
      have hprev := List.getElem?_eq_getElem (show i + d < ids.length by omega)
      have hsorted : SortedBy id ids := h
      have hlt := hsorted.getElem_lt hprev hb (by omega)
      have hle := ih hprev
      have hlt := UInt32.lt_iff_toNat_lt.mp hlt
      simp only [id_eq] at hlt
      omega

/-- What the short cut of the range read has checked. -/
theorem contiguousStart_spec (h : store.Of f) (hpos : 0 < count)
    (hstart : store.contiguousStart startPid count = some localStart) :
    startPid.toNat + count ≤ 2 ^ 32 ∧ localStart + count ≤ store.globalIds.length ∧
      ∀ k < count, store.globalIds[localStart + k]? = some (rangeId startPid k) := by
  rw [contiguousStart] at hstart
  split at hstart
  · rename_i hsorted
    split at hstart
    · rename_i found hsearch
      split_ifs at hstart with hends
      cases hstart
      obtain ⟨hlen, hlast⟩ := hends
      obtain ⟨first, hfirst, hkey⟩ := key_of_binarySearch_ok hsearch
      have hkey : first = startPid := hkey
      subst hkey
      have hincreasing := h.sorted hsorted
      have hshift : localStart + count - 1 = localStart + (count - 1) := by
        omega
      rw [hshift] at hlast
      have hle := add_le_of_increasing hincreasing hfirst hlast
      rw [saturatingAdd_toNat, UInt32.toNat_ofNat'] at hle
      have hlt := first.toNat_lt
      have hbound : first.toNat + count ≤ 2 ^ 32 := by
        omega
      refine ⟨hbound, hlen, fun k hk => ?_⟩
      have hget := List.getElem?_eq_getElem (show localStart + k < store.globalIds.length by omega)
      have hlow := add_le_of_increasing hincreasing hfirst hget
      have hback : localStart + (count - 1) = localStart + k + (count - 1 - k) := by
        omega
      rw [hback] at hlast
      have hhigh := add_le_of_increasing hincreasing hget hlast
      rw [saturatingAdd_toNat, UInt32.toNat_ofNat'] at hhigh
      rw [hget]
      congr 1
      apply UInt32.toNat_inj.mp
      rw [rangeId_toNat (by omega)]
      omega
    · cases hstart
  · cases hstart

/-- The range read answers for the ids it asks for. -/
theorem readRangeInto_answers (startPid : UInt32) (h : store.Of f) (hout : out.length = count * store.width) :
    Answers store.globalIds f ((List.range count).map (rangeId startPid))
      (store.readRangeInto startPid count out) := by
  have hlen : ((List.range count).map (rangeId startPid)).length = count := by
    rw [List.length_map, List.length_range]
  rw [readRangeInto]
  by_cases hzero : count = 0
  · rw [if_pos hzero]
    subst hzero
    have hempty : out = [] := List.length_eq_zero_iff.mp (by rw [hout, Nat.zero_mul])
    refine ⟨fun _ => by rw [hempty]; rfl, fun hmissing => ?_⟩
    obtain ⟨pid, hpid, -⟩ := hmissing
    cases hpid
  · have hpos := Nat.pos_of_ne_zero hzero
    rw [if_neg hzero, if_neg (not_not.mpr hout)]
    cases hstart : store.contiguousStart startPid count with
    | some localStart =>
        obtain ⟨-, hfit, hids⟩ := contiguousStart_spec h hpos hstart
        have hmem : ∀ pid ∈ (List.range count).map (rangeId startPid), pid ∈ store.globalIds := by
          intro pid hpid
          obtain ⟨k, hk, rfl⟩ := List.mem_map.mp hpid
          exact List.mem_of_getElem? (hids k (List.mem_range.mp hk))
        refine ⟨fun _ => ?_, fun hmissing => ?_⟩
        · have hslice := slice_length h.size hfit
          dsimp only
          rw [copyFromSlice, if_pos (hslice.trans hout.symm), ← flatMap_slot hslice,
            List.flatMap_map]
          congr 1
          apply List.flatMap_congr
          intro k hk
          have hk := List.mem_range.mp hk
          rw [slot_slice hk, h.row _ _ (hids k hk)]
        · obtain ⟨pid, hpid, habsent⟩ := hmissing
          exact absurd (hmem pid hpid) habsent
    | none =>
        have hzip : ((List.range count).map (rangeId startPid)).zipIdx =
            (List.range count).map fun row => (rangeId startPid row, row) := by
          apply List.ext_getElem
          · simp
          · intro i hi hi'
            simp
        have hfill : Answers store.globalIds f ((List.range count).map (rangeId startPid))
            (((List.range count).map (rangeId startPid)).zipIdx.foldlM (fun out entry => do
              let point ← store.readPointInto entry.1 (slot store.width out entry.2)
              .ok (setSlot store.width out entry.2 point)) out) := by
          apply answers_of_fill store.absent_index (hlen.symm ▸ hout)
          · intro out pid row hout hrow hmem
            rw [hlen] at hout hrow
            rw [readPointInto_of_mem h hmem (slot_length hout hrow), ok_bind]
          · intro pid hmem
            exact h.row_length_of_mem hmem
          · intro out pid row hout hrow hmem
            rw [hlen] at hout hrow
            rw [readPointInto_absent h hmem (slot_length hout hrow), error_bind]
        rw [hzip, List.foldlM_map] at hfill
        exact hfill

/-! ## Faithful reads -/

/-- What the reads of single rows and of batches owe to their query, whatever way they take. -/
structure FaithfulBatch (store : ResidentSubsetPointStore) (f : UInt32 → List F32) : Prop where
  point : ∀ pid out, out.length = store.width →
    Answers store.globalIds f [pid] (store.readPointInto pid out)
  points : ∀ ids out, out.length = ids.length * store.width →
    Answers store.globalIds f ids (store.readPointsInto ids out)
  searches : ∀ ids out, out.length = ids.length * store.width →
    Answers store.globalIds f ids (store.readEachInto store.absent ids out)
  scan : ∀ ids out, out.length = ids.length * store.width → store.sortedUniqueIds = true →
    isNondecreasing ids = true → Answers store.globalIds f ids (store.readSortedInto store.absent ids out)

/-- What a range read owes to its query: the rows of `count` ids from `start_pid` on, if all of them
are ids of the store. -/
def FaithfulRange (store : ResidentSubsetPointStore) (f : UInt32 → List F32) (startPid : UInt32)
    (count : Nat) : Prop :=
  ∀ out, out.length = count * store.width →
    ((∀ k < count, ∃ pid ∈ store.globalIds, pid.toNat = startPid.toNat + k) →
      store.readRangeInto startPid count out =
        .ok ((List.range count).flatMap fun k => f (UInt32.ofNat (startPid.toNat + k)))) ∧
    ((∃ k < count, ∀ pid ∈ store.globalIds, pid.toNat ≠ startPid.toNat + k) →
      ∃ err, store.readRangeInto startPid count out = .error (.index err))

theorem faithfulBatch (h : store.Of f) : store.FaithfulBatch f where
  point pid out hout := by
    refine ⟨fun hall => ?_, fun hmissing => ?_⟩
    · rw [readPointInto_of_mem h (hall pid List.mem_cons_self) hout, List.flatMap_singleton]
    · obtain ⟨q, hq, habsent⟩ := hmissing
      rw [List.mem_singleton.mp hq] at habsent
      exact ⟨_, readPointInto_absent h habsent hout⟩
  points _ _ hout := h.readRowsInto_answers store.absent_index hout
  searches _ _ hout := h.readEachInto_answers store.absent_index hout
  scan ids out hout hsorted hids := by
    rw [h.readSortedInto_eq hsorted (isNondecreasing_iff.mp hids)]
    exact h.readEachInto_answers store.absent_index hout

/-- A range that ends within the ids of 32 bits is read well, and so is one that an id is missing
from before it gets to the end of these. -/
theorem faithfulRange_of (h : store.Of f)
    (hids : startPid.toNat + count ≤ 2 ^ 32 ∨ ∃ pid, startPid ≤ pid ∧ pid ∉ store.globalIds) :
    store.FaithfulRange f startPid count := by
  intro out hout
  obtain ⟨hok, herr⟩ := readRangeInto_answers startPid h hout
  refine ⟨fun hall => ?_, fun hmissing => ?_⟩
  · have hbound : ∀ k < count, startPid.toNat + k < 2 ^ 32 := by
      intro k hk
      obtain ⟨pid, -, hpid⟩ := hall k hk
      rw [← hpid]
      exact pid.toNat_lt
    have hmem : ∀ k < count, rangeId startPid k ∈ store.globalIds := by
      intro k hk
      obtain ⟨pid, hmem, hpid⟩ := hall k hk
      rw [← rangeId_toNat (hbound k hk)] at hpid
      exact UInt32.toNat_inj.mp hpid ▸ hmem
    rw [hok, List.flatMap_map]
    · congr 1
      apply List.flatMap_congr
      intro k hk
      have hk := List.mem_range.mp hk
      rw [← rangeId_toNat (hbound k hk), UInt32.ofNat_toNat]
    · intro pid hpid
      obtain ⟨k, hk, rfl⟩ := List.mem_map.mp hpid
      exact hmem k (List.mem_range.mp hk)
  · apply herr
    obtain ⟨k, hk, habsent⟩ := hmissing
    rcases hids with hend | ⟨pid, hle, hpid⟩
    · refine ⟨rangeId startPid k, List.mem_map_of_mem (List.mem_range.mpr hk), fun hmem => ?_⟩
      exact habsent _ hmem (rangeId_toNat (by omega))
    · by_cases hend : startPid.toNat + k < 2 ^ 32
      · refine ⟨rangeId startPid k, List.mem_map_of_mem (List.mem_range.mpr hk), fun hmem => ?_⟩
        exact habsent _ hmem (rangeId_toNat hend)
      · have hle := UInt32.le_iff_toNat_le.mp hle
        have hlt := pid.toNat_lt
        have hat : rangeId startPid (pid.toNat - startPid.toNat) = pid := by
          apply UInt32.toNat_inj.mp
          rw [rangeId_toNat (by omega)]
          omega
        exact ⟨pid, List.mem_map.mpr ⟨pid.toNat - startPid.toNat, List.mem_range.mpr (by omega), hat⟩,
          hpid⟩

/-- A range over the end of the ids is answered with rows of the ids before it, where these are
all there. -/
theorem not_faithfulRange (h : store.Of f) (hend : 2 ^ 32 < startPid.toNat + count)
    (hall : ∀ pid, startPid ≤ pid → pid ∈ store.globalIds) :
    ¬ store.FaithfulRange f startPid count := by
  intro hfaithful
  have hlt := startPid.toNat_lt
  have hout : (List.replicate (count * store.width) F32.zero).length = count * store.width :=
    List.length_replicate
  have hbeyond : ∀ pid ∈ store.globalIds,
      pid.toNat ≠ startPid.toNat + (2 ^ 32 - startPid.toNat) := by
    intro pid _ heq
    have hpid := pid.toNat_lt
    omega
  obtain ⟨err, hread⟩ := (hfaithful _ hout).2 ⟨2 ^ 32 - startPid.toNat, by omega, hbeyond⟩
  rw [(readRangeInto_answers startPid h hout).1] at hread
  · cases hread
  · intro pid hpid
    obtain ⟨k, -, rfl⟩ := List.mem_map.mp hpid
    exact hall _ (UInt32.le_iff_toNat_le.mpr (le_rangeId startPid k))

/-- The reads of a resident subset are faithful, but for ranges over the end of the ids. -/
theorem residentSubset_faithful_iff {sort : TableSort} {globalIds : List UInt32} {dim : Nat}
    {data : List F32} (hnew : new sort globalIds dim data = .ok store)
    (hrows : ∀ i pid, globalIds[i]? = some pid → slot dim data i = f pid)
    (startPid : UInt32) (count : Nat) :
    (store.FaithfulBatch f ∧ store.FaithfulRange f startPid count) ↔
      (startPid.toNat + count ≤ 2 ^ 32 ∨ ∃ pid, startPid ≤ pid ∧ pid ∉ globalIds) := by
  rw [new] at hnew
  split_ifs at hnew with hdim hsize
  cases hnew
  have h := ResidentRows.new_of sort (not_not.mp hsize) hrows
  constructor
  · rintro ⟨-, hrange⟩
    by_contra hcond
    obtain ⟨hend, hall⟩ := not_or.mp hcond
    refine not_faithfulRange h (Nat.lt_of_not_le hend) (fun pid hle => ?_) hrange
    by_contra hpid
    exact hall ⟨pid, hle, hpid⟩
  · exact fun hids => ⟨faithfulBatch h, faithfulRange_of h hids⟩

/-- The rows of two points, each its id. -/
def twoPoints : ResidentSubsetPointStore := ⟨.new (.byKey Prod.fst) [2, 5] 1 [⟨2⟩, ⟨5⟩], 6⟩

theorem twoPoints_rows : ∀ i pid, ([2, 5] : List UInt32)[i]? = some pid →
    slot 1 [⟨2⟩, ⟨5⟩] i = [F32.mk pid] := by
  intro i pid hi
  match i with
  | 0 => cases hi; rfl
  | 1 => cases hi; rfl
  | i + 2 => cases hi

theorem residentSubset_faithful_iff_two_points :
    (twoPoints.FaithfulBatch (fun pid => [⟨pid⟩]) ∧
        twoPoints.FaithfulRange (fun pid => [⟨pid⟩]) 2 3) ↔
      ((2 : UInt32).toNat + 3 ≤ 2 ^ 32 ∨ ∃ pid : UInt32, 2 ≤ pid ∧ pid ∉ [2, 5]) := by
  have hnew : new (.byKey Prod.fst) [2, 5] 1 [⟨2⟩, ⟨5⟩] = .ok twoPoints := rfl
  exact residentSubset_faithful_iff hnew twoPoints_rows 2 3

/-- The last id has no next one, and its row is read twice. -/
theorem range_over_the_end_not_faithful : ∃ store,
    new (.byKey Prod.fst) [4294967295] 1 [F32.zero] = .ok store ∧
      ¬ store.FaithfulRange (fun _ => [F32.zero]) 4294967295 2 := by
  refine ⟨_, rfl, not_faithfulRange (ResidentRows.new_of _ rfl fun i pid hi => ?_) (by decide) ?_⟩
  · match i with
    | 0 => rfl
    | i + 1 => cases hi
  · intro pid hle
    have hlt := pid.toNat_lt
    have hle := UInt32.le_iff_toNat_le.mp hle
    have hmax : (4294967295 : UInt32).toNat = 4294967295 := rfl
    have hpid : pid = 4294967295 := UInt32.toNat_inj.mp (by omega)
    rw [hpid]
    exact List.mem_singleton.mpr rfl

end ResidentSubsetPointStore

namespace ResidentSubsetSketchAccessor

variable {store : ResidentSubsetSketchAccessor} {f : UInt32 → List F32} {sort : TableSort}
  {globalIds ids : List UInt32} {rows width idx : Nat} {data out : List F32}

theorem of_new (hnew : new sort globalIds rows width data = .ok store)
    (hrows : ∀ i id, globalIds[i]? = some id → slot width data i = f id) :
    store.Of f ∧ store.globalIds = globalIds ∧ store.width = width := by
  rw [new] at hnew
  split_ifs at hnew with hwidth hsize
  cases hnew
  exact ⟨ResidentRows.new_of sort (not_not.mp hsize) hrows, rfl, rfl⟩

/-- Sketches are read as faithfully as points. -/
theorem readRowsInto_answers (h : store.Of f) (hout : out.length = ids.length * store.width) :
    Answers store.globalIds f ids (store.readRowsInto ids out) :=
  h.readRowsInto_answers (fun _ => ⟨_, rfl⟩) hout

/-- A single row is the row of the low 32 bits of its index. -/
theorem rowCopyInto_eq (h : store.Of f) (hmem : UInt32.ofNat idx ∈ store.globalIds)
    (hout : out.length = store.width) : store.rowCopyInto idx out = .ok (f (UInt32.ofNat idx)) := by
  obtain ⟨i, hlookup, hi⟩ := h.lookup store.absent hmem
  rw [rowCopyInto, if_neg (not_not.mpr hout), hlookup, ok_bind, h.copyRow_eq hi hout]

end ResidentSubsetSketchAccessor

end ForgeANN
