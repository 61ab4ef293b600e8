-- SUMMARY: The point store over a mapped file, which reads consecutive ids at once, and its reads as rows of the file.
import ForgeANN.Points.PlannedRead

/-!
# Mapped point stores

Points are read in runs of consecutive ids, straight into the part of the buffer
that is theirs. Behind the last id a run goes on with that id again, but then it
is too long for the file.
-/
namespace ForgeANN

open Lib

namespace RowFile

variable (store : RowFile)

/-! ## Reads -/

def readRangeInto (startPid : UInt32) (count : Nat) (out : List F32) : AnnResult (List F32) :=
  if count = 0 then .ok out
  else if out.length ≠ count * store.width then
    .error (.index s!"Range buffer size mismatch: got {out.length} expected {count * store.width}")
  else do
    let range ← store.rowByteRange startPid.toNat count
    .ok (store.mappedRowsAsF32 range)

/-- `saturating_add(1)`. -/
def nextPid (pid : UInt32) : UInt32 := if pid = 4294967295 then pid else pid + 1

def pidRuns (ids : List UInt32) : List (GreedyRun UInt32 UInt32) :=
  greedyRuns id (fun prev next => if next = nextPid prev then some next else none) ids

/-- The loop over the runs. -/
def readPidRuns : List (GreedyRun UInt32 UInt32) → Nat → List F32 → AnnResult (List F32)
  | [], _, out => .ok out
  | run :: runs, runStart, out => do
      let outStart := runStart * store.width
      let outEnd := (runStart + run.items.length) * store.width
      let rows ← store.readRangeInto run.first run.items.length
        ((out.take outEnd).drop outStart)
      readPidRuns runs (runStart + run.items.length) (out.take outStart ++ rows ++ out.drop outEnd)

def readPointsInto (ids : List UInt32) (out : List F32) : AnnResult (List F32) :=
  if ids = [] then .ok out
  else if out.length ≠ ids.length * store.width then
    .error (.index
      s!"Point matrix size mismatch: got {out.length} expected {ids.length * store.width}")
  else store.readPidRuns (pidRuns ids) 0 out

/-! ## What is read -/

variable {store} {ids : List UInt32} {run : GreedyRun UInt32 UInt32} {startPid : UInt32}
  {count : Nat} {out data : List F32}

theorem rowByteRange_ok {startRow : Nat} {range : Nat × Nat}
    (h : store.rowByteRange startRow count = .ok range) : startRow + count ≤ store.numRows := by
  rw [rowByteRange] at h
  split_ifs at h with hpast
  exact Nat.le_of_not_lt hpast

/-- A range that is read lies in the file, and gives its rows. -/
theorem readRangeInto_ok (hout : out.length = count * store.width)
    (h : store.readRangeInto startPid count out = .ok data) :
    (0 < count → startPid.toNat + count ≤ store.numRows) ∧
      data = (List.range count).flatMap fun k => store.row (startPid.toNat + k) := by
  rw [readRangeInto] at h
  split_ifs at h with hzero
  · cases h
    subst hzero
    rw [Nat.zero_mul] at hout
    exact ⟨fun hpos => absurd hpos (Nat.lt_irrefl 0), List.eq_nil_of_length_eq_zero hout⟩
  · obtain ⟨range, hrange, hdata⟩ := bind_eq_ok.mp h
    have hle := rowByteRange_ok hrange
    rw [rowByteRange_eq _ _ hle] at hrange
    cases hrange
    cases hdata
    refine ⟨fun _ => hle, ?_⟩
    rw [← flatMap_slot (mappedRows_length (store.headerBytes + startPid.toNat * store.rowBytes) count)]
    apply List.flatMap_congr
    intro k hk
    exact slot_mappedRows _ (List.mem_range.mp hk)

theorem nextPid_toNat {pid : UInt32} (h : pid.toNat + 1 < 2 ^ 32) :
    (nextPid pid).toNat = pid.toNat + 1 := by
  have hone : (1 : UInt32).toNat = 1 := rfl
  have hne : pid ≠ 4294967295 := by
    rintro rfl
    exact absurd h (by decide)
  rw [nextPid, if_neg hne, UInt32.toNat_add, hone, Nat.mod_eq_of_lt h]

/-- As far as there are ids, those of a run count up from its first one. -/
theorem pidRuns_items (h : run ∈ pidRuns ids) {k : Nat} (hk : k < run.items.length)
    (hid : run.first.toNat + k < 2 ^ 32) :
    ∃ pid, run.items[k]? = some pid ∧ pid.toNat = run.first.toNat + k := by
  have hcount : (∀ k < run.items.length, (run.items.headD 0).toNat + k < 2 ^ 32 →
        ∃ pid, run.items[k]? = some pid ∧ pid.toNat = (run.items.headD 0).toNat + k) ∧
      run.items.getLast? = some run.state := by
    refine greedyRuns_rule (P := fun items state => (∀ k < items.length,
      (items.headD 0).toNat + k < 2 ^ 32 →
        ∃ pid, items[k]? = some pid ∧ pid.toNat = (items.headD 0).toNat + k) ∧
      items.getLast? = some state) ?_ ?_ h
    · intro id
      refine ⟨fun k hk _ => ?_, rfl⟩
      obtain rfl : k = 0 := Nat.lt_one_iff.mp hk
      exact ⟨id, rfl, rfl⟩
    · intro taken state id next ⟨hitems, hlast⟩ hjoin
      split_ifs at hjoin with hnext
      obtain rfl := Option.some.inj hjoin
      have hne : taken ≠ [] := by
        rintro rfl
        cases hlast
      have hhead : (taken ++ [id]).headD 0 = taken.headD 0 := by
        cases taken with
        | nil => exact absurd rfl hne
        | cons first more => rfl
      refine ⟨fun k hk hid => ?_, List.getLast?_concat ..⟩
      rw [hhead] at hid ⊢
      rw [List.length_append, List.length_singleton] at hk
      by_cases hold : k < taken.length
      · rw [List.getElem?_append_left hold]
        exact hitems k hold hid
      · obtain rfl : k = taken.length := by omega
        have hpos := List.length_pos_of_ne_nil hne
        obtain ⟨pid, hprev, hpid⟩ := hitems (taken.length - 1) (by omega) (by omega)
        rw [← List.getLast?_eq_getElem?, hlast] at hprev
        cases hprev
        refine ⟨id, List.getElem?_concat_length, ?_⟩
        rw [hnext, nextPid_toNat (by omega), hpid]
        omega
  exact hcount.1 k hk hid

/-- The rows of a run that lies in the file. -/
theorem flatMap_pidRun (hrun : run ∈ pidRuns ids)
    (hin : run.first.toNat + run.items.length ≤ 2 ^ 32) :
    ((List.range run.items.length).flatMap fun k => store.row (run.first.toNat + k)) =
      run.items.flatMap fun pid => store.row pid.toNat := by
  rw [← flatMap_range_getD (fun pid : UInt32 => store.row pid.toNat) run.items 0]
  apply List.flatMap_congr
  intro k hk
  have hk := List.mem_range.mp hk
  obtain ⟨pid, hget, hpid⟩ := pidRuns_items hrun hk (by omega)
  rw [List.getD_eq_getElem?_getD, hget, Option.getD_some, hpid]

/-- The loop puts behind each other what the runs give. -/
theorem readPidRuns_ok (hnum : store.numRows < 2 ^ 32) {runs : List (GreedyRun UInt32 UInt32)}
    (hruns : ∀ run ∈ runs, run ∈ pidRuns ids) {runStart : Nat}
    (hout : out.length = (runStart + (runs.flatMap GreedyRun.items).length) * store.width)
    (h : store.readPidRuns runs runStart out = .ok data) :
    data = out.take (runStart * store.width) ++
      (runs.flatMap GreedyRun.items).flatMap fun pid => store.row pid.toNat := by
  induction runs generalizing runStart out with
  | nil =>
      cases h
      rw [List.flatMap_nil, List.length_nil, Nat.add_zero] at hout
      rw [List.take_of_length_le (Nat.le_of_eq hout)]
      exact (List.append_nil _).symm
  | cons run runs ih =>
      obtain ⟨rows, hread, hrest⟩ := bind_eq_ok.mp h
      rw [List.flatMap_cons, List.length_append, ← Nat.add_assoc] at hout
      have hfits : (runStart + run.items.length) * store.width ≤ out.length := by
        rw [hout]
        exact Nat.mul_le_mul_right _ (Nat.le_add_right ..)
      have hstart : runStart * store.width ≤ out.length :=
        (Nat.mul_le_mul_right _ (Nat.le_add_right ..)).trans hfits
      have hpart : ((out.take ((runStart + run.items.length) * store.width)).drop
          (runStart * store.width)).length = run.items.length * store.width := by
        rw [List.length_drop, List.length_take_of_le hfits, Nat.add_mul, Nat.add_sub_cancel_left]
      obtain ⟨hin, rfl⟩ := readRangeInto_ok hpart hread
      have hle := hin (Nat.succ_pos _)
      have hrows : (List.range run.items.length).flatMap
            (fun k => store.row (run.first.toNat + k)) =
          run.items.flatMap fun pid => store.row pid.toNat :=
        flatMap_pidRun (hruns run List.mem_cons_self) (by omega)
      rw [hrows] at hrest
      have hlen : (run.items.flatMap fun pid => store.row pid.toNat).length =
          run.items.length * store.width := length_flatMap_of_width fun pid _ => row_length _
      have htaken : (out.take (runStart * store.width) ++
          run.items.flatMap fun pid => store.row pid.toNat).length =
            (runStart + run.items.length) * store.width := by
        rw [List.length_append, List.length_take_of_le hstart, hlen, Nat.add_mul]
      have hnext := ih (fun r hr => hruns r (List.mem_cons_of_mem _ hr)) (by
        rw [List.length_append, htaken, List.length_drop, hout, ← Nat.sub_mul, ← Nat.add_mul]
        congr 1
        omega) hrest
      rw [hnext, List.take_left' htaken, List.flatMap_cons, List.flatMap_append,
        List.append_assoc]

/-- Points that are read are the rows of their ids. -/
theorem readPointsInto_ok (hnum : store.numRows < 2 ^ 32)
    (hout : out.length = ids.length * store.width)
    (h : store.readPointsInto ids out = .ok data) :
    data = ids.flatMap fun pid => store.row pid.toNat := by
  rw [readPointsInto] at h
  split_ifs at h with hnil
  · cases h
    subst hnil
    rw [List.length_nil, Nat.zero_mul] at hout
    exact List.eq_nil_of_length_eq_zero hout
  · have hflat : (pidRuns ids).flatMap GreedyRun.items = ids := flatMap_greedyRuns ids
    have hdata := readPidRuns_ok hnum (fun run hrun => hrun) (by rw [hflat, hout, Nat.zero_add]) h
    rwa [hflat, Nat.zero_mul, List.take_zero, List.nil_append] at hdata

theorem range_eq_rows (hnum : store.numRows < 2 ^ 32) (hout : out.length = count * store.width)
    (h : store.readRangeInto startPid count out = .ok data) :
    data = (List.range count).flatMap fun k =>
      store.row (startPid + UInt32.ofNat k).toNat := by
  obtain ⟨hin, rfl⟩ := readRangeInto_ok hout h
  apply List.flatMap_congr
  intro k hk
  have hk := List.mem_range.mp hk
  have hle := hin (Nat.zero_lt_of_lt hk)
  rw [UInt32.toNat_add, UInt32.toNat_ofNat', Nat.add_mod_mod, Nat.mod_eq_of_lt (by omega)]

/-- A bounded plan is left to the caller. -/
theorem plan_left {done : Bool} (h : (.ok (false, out) : AnnResult (Bool × List F32)) =
    .ok (done, data)) : done = false ∧ data = out := by
  cases h
  exact ⟨rfl, rfl⟩

/-- The header has room for `u32` many rows only. -/
def pointStore (store : RowFile) (hnum : store.numRows < 2 ^ 32) : PointStore where
  dim := store.width
  row pid := store.row pid.toNat
  isResidentSubset := false
  readPointsInto := store.readPointsInto
  readRangeInto := store.readRangeInto
  readBoundedPlanInto _ out := .ok (false, out)
  row_length _ := row_length _
  points_eq hout h := readPointsInto_ok hnum hout h
  range_eq hout _ h := range_eq_rows hnum hout h
  bounded_eq _ _ h := absurd (plan_left h).1 Bool.noConfusion
  bounded_length h := congrArg List.length (plan_left h).2

end RowFile

end ForgeANN
