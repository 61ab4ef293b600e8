-- SUMMARY: The table from point ids to rows that the subset stores search.
import ForgeANN.Common.Basic
import ForgeANN.Lib.BinarySearch
import ForgeANN.Lib.SortDedup

/-!
# Tables from ids to rows

A store of some of the points keeps the row of each id in a table sorted by id.
Where two rows have one id, the table keeps one of them.
-/
namespace ForgeANN

open Lib

/-- The order in which `sort_unstable_by_key` leaves the table. -/
abbrev TableSort := UnstableSort fun a b : UInt32 × Nat => a.1 ≤ b.1

def idToRow (sort : TableSort) (globalIds : List UInt32) : List (UInt32 × Nat) :=
  dedupByKey Prod.fst (sort.sort globalIds.zipIdx)

/-- The row of an id, or the store's error for an id it does not have. -/
def tableRow (table : List (UInt32 × Nat)) (pid : UInt32) (absent : AnnError) : AnnResult Nat :=
  match binarySearchByKey Prod.fst table pid with
  | .ok idx =>
      match table[idx]? with
      | some entry => .ok entry.2
      | none => .error (.panic "index out of bounds")
  | .error _ => .error absent

/-- `windows(2).all(|window| window[0] < window[1])`. -/
def isStrictlyIncreasing (ids : List UInt32) : Bool :=
  (ids.zip ids.tail).all fun window => decide (window.1 < window.2)

/-- `windows(2).all(|window| window[0] <= window[1])`. -/
def isNondecreasing (ids : List UInt32) : Bool :=
  (ids.zip ids.tail).all fun window => decide (window.1 ≤ window.2)

section

variable {globalIds ids : List UInt32} {sort : TableSort} {pid : UInt32} {absent : AnnError}

theorem sortedBy_idToRow (sort : TableSort) (globalIds : List UInt32) :
    SortedBy Prod.fst (idToRow sort globalIds) :=
  pairwise_dedupByKey (sort.sorted _)

/-- An entry of the table gives a row of its id. -/
theorem getElem?_of_mem_idToRow {entry : UInt32 × Nat} (h : entry ∈ idToRow sort globalIds) :
    globalIds[entry.2]? = some entry.1 := by
  have hmem := (dedupByKey_sublist Prod.fst _).mem h
  exact List.mem_zipIdx_iff_getElem?.mp ((sort.perm _).mem_iff.mp hmem)

theorem mem_map_idToRow (h : pid ∈ globalIds) : pid ∈ (idToRow sort globalIds).map Prod.fst := by
  obtain ⟨row, hrow⟩ := List.mem_iff_getElem?.mp h
  have hmem : (pid, row) ∈ sort.sort globalIds.zipIdx :=
    (sort.perm _).mem_iff.mpr (List.mem_zipIdx_iff_getElem?.mpr hrow)
  obtain ⟨entry, hentry, hkey⟩ : ∃ entry ∈ idToRow sort globalIds, entry.1 = pid :=
    exists_key_dedupByKey hmem
  exact List.mem_map.mpr ⟨entry, hentry, hkey⟩

/-- The table finds a row of every id the store has. -/
theorem tableRow_of_mem (h : pid ∈ globalIds) :
    ∃ row, tableRow (idToRow sort globalIds) pid absent = .ok row ∧ globalIds[row]? = some pid := by
  cases hsearch : binarySearchByKey Prod.fst (idToRow sort globalIds) pid with
  | error end' =>
      have hnot := not_mem_of_binarySearch_error (sortedBy_idToRow sort globalIds) hsearch
      exact absurd (mem_map_idToRow h) hnot
  | ok idx =>
      obtain ⟨entry, hentry, hkey⟩ := key_of_binarySearch_ok hsearch
      refine ⟨entry.2, by simp only [tableRow, hsearch, hentry], ?_⟩
      rw [← hkey]
      exact getElem?_of_mem_idToRow (List.mem_of_getElem? hentry)

/-- No row is found for another id. -/
theorem tableRow_of_not_mem (h : pid ∉ globalIds) :
    tableRow (idToRow sort globalIds) pid absent = .error absent := by
  cases hsearch : binarySearchByKey Prod.fst (idToRow sort globalIds) pid with
  | error end' => rw [tableRow, hsearch]
  | ok idx =>
      obtain ⟨entry, hentry, hkey⟩ := key_of_binarySearch_ok hsearch
      have hrow := getElem?_of_mem_idToRow (List.mem_of_getElem? hentry)
      exact absurd (hkey ▸ List.mem_of_getElem? hrow) h

theorem all_windows_iff {R : UInt32 → UInt32 → Prop} [DecidableRel R] [IsTrans UInt32 R] :
    (ids.zip ids.tail).all (fun window => decide (R window.1 window.2)) = true ↔ ids.Pairwise R := by
  rw [← List.isChain_iff_pairwise]
  induction ids with
  | nil => simp
  | cons a ids ih =>
      cases ids with
      | nil => simp
      | cons b ids => simpa using fun _ => ih

theorem isStrictlyIncreasing_iff : isStrictlyIncreasing ids = true ↔ ids.Pairwise (· < ·) :=
  all_windows_iff

theorem isNondecreasing_iff : isNondecreasing ids = true ↔ ids.Pairwise (· ≤ ·) :=
  all_windows_iff

end

end ForgeANN
