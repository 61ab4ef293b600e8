-- SUMMARY: The witnesses of one victim: a few inline, more of them in a region of the row's overflow arena.
import ForgeANN.Common.Basic
import ForgeANN.Lib.Arena
import ForgeANN.Lib.Best
import ForgeANN.Lib.BinarySearch
import Mathlib.Data.List.Sort

/-!
# Witnesses of a victim

The best witnesses of a victim are kept sorted, one for each pivot. Two fit
into the victim's own record; when there are more, they move to a region of the
row's overflow arena that has room for as many as are wanted.
-/
namespace ForgeANN

open Lib

def INLINE_WITNESS_CAP : Nat := 2
def INVALID_WITNESS_OVERFLOW_OFFSET : Nat := 4294967295

structure RuntimeLuneWitness where
  pivot : UInt32
  rankKey : UInt32
deriving DecidableEq, Repr

def RuntimeLuneWitness.default : RuntimeLuneWitness := ⟨0, 0⟩

/-- What `witness_retention_cmp` compares. -/
def RuntimeLuneWitness.retentionKey (witness : RuntimeLuneWitness) : UInt32 ×ₗ UInt32 :=
  toLex (witness.rankKey, witness.pivot)

/-- The witness comes before the existing one. -/
def RuntimeLuneWitness.improves (witness : RuntimeLuneWitness) :
    Option RuntimeLuneWitness → Bool
  | none => false
  | some existing => decide (witness.retentionKey < existing.retentionKey)

def sortWitnesses (witnesses : List RuntimeLuneWitness) : List RuntimeLuneWitness :=
  witnesses.insertionSort fun a b => a.retentionKey ≤ b.retentionKey

/-- `items[..len].sort_by(witness_retention_cmp)`. -/
def sortFirst (len : Nat) (items : List RuntimeLuneWitness) : List RuntimeLuneWitness :=
  sortWitnesses (items.take len) ++ items.drop len

/-- The slots of a region, and how many are in use. -/
def insertWitnessSlice (witnesses : List RuntimeLuneWitness) (len : Nat)
    (witness : RuntimeLuneWitness) (maxWitnesses : Nat) : List RuntimeLuneWitness × Nat :=
  let maxWitnesses := max (min maxWitnesses witnesses.length) 1
  let len := min len maxWitnesses
  match (witnesses.take len).findIdx? fun existing => existing.pivot = witness.pivot with
  | some i =>
      if witness.improves witnesses[i]? then (sortFirst len (witnesses.set i witness), len)
      else (witnesses, len)
  | none =>
      if len < maxWitnesses then (sortFirst (len + 1) (witnesses.set len witness), len + 1)
      else
        let worstIdx := maxWitnesses - 1
        if witness.improves witnesses[worstIdx]? then
          (sortFirst maxWitnesses (witnesses.set worstIdx witness), len)
        else (witnesses, len)

structure ViewLuneVictimWitnesses where
  victim : UInt32
  len : Nat
  overflowCapacity : Nat
  overflowOffset : Nat
  inline : List RuntimeLuneWitness
deriving DecidableEq, Repr

namespace ViewLuneVictimWitnesses

/-- A victim without witnesses. -/
def new (victim : UInt32) : ViewLuneVictimWitnesses :=
  ⟨victim, 0, 0, INVALID_WITNESS_OVERFLOW_OFFSET, List.replicate INLINE_WITNESS_CAP .default⟩

def hasOverflow (row : ViewLuneVictimWitnesses) : Bool :=
  row.overflowOffset ≠ INVALID_WITNESS_OVERFLOW_OFFSET

def asSlice (row : ViewLuneVictimWitnesses) (overflow : List RuntimeLuneWitness) :
    List RuntimeLuneWitness :=
  if row.hasOverflow then slice overflow row.overflowOffset row.len else row.inline.take row.len

/-- Into the victim's region. -/
def insertOverflow (row : ViewLuneVictimWitnesses) (witness : RuntimeLuneWitness)
    (maxWitnesses : Nat) (overflow : List RuntimeLuneWitness) :
    ViewLuneVictimWitnesses × List RuntimeLuneWitness :=
  let region := insertWitnessSlice (slice overflow row.overflowOffset row.overflowCapacity) row.len
    witness (min maxWitnesses row.overflowCapacity)
  ({ row with len := min region.2 65535 }, splice overflow row.overflowOffset region.1)

/-- Move to a new region at the end of the arena, with the witness. -/
def moveToOverflow (row : ViewLuneVictimWitnesses) (witness : RuntimeLuneWitness)
    (maxWitnesses : Nat) (overflow : List RuntimeLuneWitness) :
    ViewLuneVictimWitnesses × List RuntimeLuneWitness :=
  let capacity := min maxWitnesses 65535
  let offset := overflow.length
  let overflow := overflow ++ List.replicate capacity .default
  let overflow := splice overflow offset (row.inline.take row.len)
  let region := insertWitnessSlice (slice overflow offset capacity) row.len witness capacity
  ({ row with
      overflowOffset := if offset < 2 ^ 32 then offset else INVALID_WITNESS_OVERFLOW_OFFSET
      overflowCapacity := min capacity 65535
      len := min region.2 65535 },
    splice overflow offset region.1)

def insert (row : ViewLuneVictimWitnesses) (witness : RuntimeLuneWitness) (maxWitnesses : Nat)
    (overflow : List RuntimeLuneWitness) : ViewLuneVictimWitnesses × List RuntimeLuneWitness :=
  let maxWitnesses := max maxWitnesses 1
  if row.hasOverflow then row.insertOverflow witness maxWitnesses overflow
  else
    match (row.inline.take row.len).findIdx? fun existing => existing.pivot = witness.pivot with
    | some i =>
        if witness.improves row.inline[i]? then
          ({ row with inline := sortFirst row.len (row.inline.set i witness) }, overflow)
        else (row, overflow)
    | none =>
        let inlineLimit := min maxWitnesses INLINE_WITNESS_CAP
        if row.len < inlineLimit then
          ({ row with
              inline := sortFirst (row.len + 1) (row.inline.set row.len witness)
              len := row.len + 1 }, overflow)
        else if maxWitnesses ≤ INLINE_WITNESS_CAP then
          let worstIdx := inlineLimit - 1
          if 0 < inlineLimit ∧ witness.improves row.inline[worstIdx]? then
            ({ row with inline := sortFirst inlineLimit (row.inline.set worstIdx witness) },
              overflow)
          else (row, overflow)
        else row.moveToOverflow witness maxWitnesses overflow

end ViewLuneVictimWitnesses

/-! ## Keeping the best -/

/-- The pivot, and what is offered for it. -/
def RuntimeLuneWitness.entry (witness : RuntimeLuneWitness) : UInt32 × UInt32 :=
  (witness.pivot, witness.rankKey)

/-- What inserting a witness does to the witnesses of a victim. -/
def keepWitness (maxWitnesses : Nat) (witnesses : List RuntimeLuneWitness)
    (witness : RuntimeLuneWitness) : List RuntimeLuneWitness :=
  match witnesses.findIdx? fun existing => existing.pivot = witness.pivot with
  | some i =>
      if witness.improves witnesses[i]? then sortWitnesses (witnesses.set i witness)
      else witnesses
  | none =>
      if witnesses.length < maxWitnesses then sortWitnesses (witnesses ++ [witness])
      else if witness.improves witnesses[maxWitnesses - 1]? then
        sortWitnesses (witnesses.set (maxWitnesses - 1) witness)
      else witnesses

section

variable {witnesses : List RuntimeLuneWitness} {witness existing : RuntimeLuneWitness}
  {maxWitnesses len i : Nat} {offered : UInt32 → WithTop UInt32}

theorem entryKey_entry (witness : RuntimeLuneWitness) : entryKey witness.entry = witness.retentionKey :=
  rfl

theorem sortWitnesses_perm (witnesses : List RuntimeLuneWitness) :
    (sortWitnesses witnesses).Perm witnesses :=
  List.perm_insertionSort _ witnesses

theorem sortWitnesses_length (witnesses : List RuntimeLuneWitness) :
    (sortWitnesses witnesses).length = witnesses.length :=
  (sortWitnesses_perm witnesses).length_eq

theorem sortWitnesses_sorted (h : (witnesses.map RuntimeLuneWitness.entry).Nodup) :
    SortedBy RuntimeLuneWitness.retentionKey (sortWitnesses witnesses) := by
  have hle : (sortWitnesses witnesses).Pairwise fun a b => a.retentionKey ≤ b.retentionKey := by
    have : Std.Total fun a b : RuntimeLuneWitness => a.retentionKey ≤ b.retentionKey :=
      ⟨fun a b => le_total a.retentionKey b.retentionKey⟩
    have : IsTrans RuntimeLuneWitness fun a b => a.retentionKey ≤ b.retentionKey :=
      ⟨fun _ _ _ => le_trans⟩
    exact List.pairwise_insertionSort _ witnesses
  have hne := List.pairwise_map.mp
    (((sortWitnesses_perm witnesses).map RuntimeLuneWitness.entry).nodup_iff.mpr h)
  exact (hle.and hne).imp fun hab => lt_of_le_of_ne hab.1 fun heq => hab.2 (entryKey_inj heq)

theorem improves_some : witness.improves (some existing) = true ↔
    entryKey witness.entry < entryKey existing.entry :=
  decide_eq_true_iff

/-- The victim's witnesses are the best that were offered, in order. -/
structure BestWitnesses (maxWitnesses : Nat) (offered : UInt32 → WithTop UInt32)
    (witnesses : List RuntimeLuneWitness) : Prop where
  sorted : SortedBy RuntimeLuneWitness.retentionKey witnesses
  best : BestEntries maxWitnesses offered (witnesses.map RuntimeLuneWitness.entry)

theorem BestWitnesses.nil (maxWitnesses : Nat) : BestWitnesses maxWitnesses ⊤ [] :=
  ⟨.nil, .nil _⟩

/-- The sorted witnesses are those that are kept. -/
theorem BestWitnesses.of_perm (hperm : ∃ kept, BestEntries maxWitnesses offered kept ∧
    kept.Perm (witnesses.map RuntimeLuneWitness.entry)) :
    BestWitnesses maxWitnesses offered (sortWitnesses witnesses) := by
  obtain ⟨kept, hbest, hkept⟩ := hperm
  have hwitnesses := hbest.perm hkept
  exact ⟨sortWitnesses_sorted hwitnesses.nodup_kept,
    hwitnesses.perm ((sortWitnesses_perm witnesses).map _).symm⟩

theorem keepWitness_length_pos (hpos : 0 < maxWitnesses) (witnesses : List RuntimeLuneWitness)
    (witness : RuntimeLuneWitness) : 0 < (keepWitness maxWitnesses witnesses witness).length := by
  rw [keepWitness]
  cases hfind : witnesses.findIdx? fun existing => existing.pivot = witness.pivot with
  | some i =>
      obtain ⟨hi, -⟩ := List.findIdx?_eq_some_iff_getElem.mp hfind
      have hlen : 0 < witnesses.length := by omega
      dsimp only
      split_ifs
      · rwa [sortWitnesses_length, List.length_set]
      · exact hlen
  | none =>
      dsimp only
      split_ifs with hroom
      · rw [sortWitnesses_length, List.length_append]
        exact Nat.succ_pos _
      · rw [sortWitnesses_length, List.length_set]
        omega
      · omega

/-- For a pivot that is there, how many can be kept does not matter. -/
theorem keepWitness_of_mem (h : ∃ existing ∈ witnesses, existing.pivot = witness.pivot)
    (width width' : Nat) :
    keepWitness width witnesses witness = keepWitness width' witnesses witness := by
  rw [keepWitness, keepWitness]
  cases hfind : witnesses.findIdx? fun existing => existing.pivot = witness.pivot with
  | some i => rfl
  | none =>
      obtain ⟨existing, hin, heq⟩ := h
      exact absurd heq (of_decide_eq_false (List.findIdx?_eq_none_iff.mp hfind existing hin))

theorem not_mem_of_findIdx?_none
    (h : (witnesses.findIdx? fun existing => existing.pivot = witness.pivot) = none) :
    witness.pivot ∉ (witnesses.map RuntimeLuneWitness.entry).map Prod.fst := by
  intro hmem
  obtain ⟨entry, hentry, heq⟩ := List.mem_map.mp hmem
  obtain ⟨existing, hin, rfl⟩ := List.mem_map.mp hentry
  have hall := List.findIdx?_eq_none_iff.mp h existing hin
  exact absurd heq (of_decide_eq_false hall)

theorem getElem?_of_findIdx?_some
    (h : (witnesses.findIdx? fun existing => existing.pivot = witness.pivot) = some i) :
    ∃ existing, witnesses[i]? = some existing ∧ existing.pivot = witness.pivot := by
  obtain ⟨hlt, heq, -⟩ := List.findIdx?_eq_some_iff_getElem.mp h
  exact ⟨_, List.getElem?_eq_getElem hlt, of_decide_eq_true heq⟩

/-- With one more witness, the best are kept again. -/
theorem BestWitnesses.keep (h : BestWitnesses maxWitnesses offered witnesses)
    (hpos : 0 < maxWitnesses) (witness : RuntimeLuneWitness) :
    BestWitnesses maxWitnesses (offered ⊓ lowest [witness.entry])
      (keepWitness maxWitnesses witnesses witness) := by
  rw [keepWitness]
  cases hfind : witnesses.findIdx? fun existing => existing.pivot = witness.pivot with
  | some i =>
      obtain ⟨existing, hi, hpivot⟩ := getElem?_of_findIdx?_some hfind
      obtain ⟨rest, hperm, -, hset⟩ := set_perm hi
      have hkept : (witnesses.map RuntimeLuneWitness.entry).Perm
          ((witness.pivot, existing.rankKey) :: rest.map RuntimeLuneWitness.entry) := by
        rw [← hpivot]
        exact hperm.map _
      have hbest := h.best.improve (v := witness.rankKey) hkept
      have hrank : entryKey witness.entry < entryKey existing.entry ↔
          witness.rankKey < existing.rankKey := by
        rw [entryKey, entryKey, Prod.Lex.toLex_lt_toLex]
        simp only [RuntimeLuneWitness.entry, hpivot, lt_self_iff_false, and_false, or_false]
      dsimp only
      rw [hi]
      split_ifs with himproves
      · have hlt := hrank.mp (improves_some.mp himproves)
        rw [inf_eq_right.mpr hlt.le] at hbest
        exact .of_perm ⟨_, hbest, ((hset witness).map RuntimeLuneWitness.entry).symm⟩
      · have hge := not_lt.mp fun hlt => himproves (improves_some.mpr (hrank.mpr hlt))
        rw [inf_eq_left.mpr hge] at hbest
        exact ⟨h.sorted, hbest.perm hkept.symm⟩
  | none =>
      have hkey := not_mem_of_findIdx?_none hfind
      dsimp only
      split_ifs with hroom himproves
      · refine .of_perm ⟨_, h.best.insert (v := witness.rankKey) hkey ?_, ?_⟩
        · rwa [List.length_map]
        · rw [List.map_append]
          exact (List.perm_append_singleton _ _).symm
      all_goals
        have hle := h.best.length_le
        rw [List.length_map] at hle
        have hfull : witnesses.length = maxWitnesses := by omega
        have hlast : maxWitnesses - 1 < witnesses.length := by omega
        have hi := List.getElem?_eq_getElem hlast
        have hworst : ∀ e ∈ witnesses.map RuntimeLuneWitness.entry,
            entryKey e ≤ entryKey (witnesses[maxWitnesses - 1]).entry := by
          intro e he
          obtain ⟨other, hother, rfl⟩ := List.mem_map.mp he
          obtain ⟨j, hj, rfl⟩ := List.mem_iff_getElem.mp hother
          rcases Nat.lt_or_ge j (maxWitnesses - 1) with hlt | hge
          · exact (h.sorted.getElem_lt (List.getElem?_eq_getElem hj) hi hlt).le
          · have heq : j = maxWitnesses - 1 := by omega
            subst heq
            exact le_refl _
      · rw [hi] at himproves
        obtain ⟨rest, hperm, -, hset⟩ := set_perm hi
        exact .of_perm ⟨_, h.best.replace hkey (hperm.map _) hworst (by rwa [List.length_map])
          (improves_some.mp himproves), ((hset witness).map RuntimeLuneWitness.entry).symm⟩
      · rw [hi] at himproves
        have hbehind := not_lt.mp fun hlt => himproves (improves_some.mpr hlt)
        exact ⟨h.sorted, h.best.reject hkey (fun e he => (hworst e he).trans hbehind)
          (by rwa [List.length_map])⟩

end

/-! ## Slots -/

section

variable {region items : List RuntimeLuneWitness} {witness : RuntimeLuneWitness}
  {maxWitnesses len i : Nat}

theorem sortFirst_length (len : Nat) (items : List RuntimeLuneWitness) :
    (sortFirst len items).length = items.length := by
  rw [sortFirst, List.length_append, sortWitnesses_length, ← List.length_append,
    List.take_append_drop]

theorem take_sortFirst (h : len ≤ items.length) :
    (sortFirst len items).take len = sortWitnesses (items.take len) := by
  have hlen : (sortWitnesses (items.take len)).length = len := by
    rw [sortWitnesses_length, List.length_take, Nat.min_eq_left h]
  exact List.take_left' hlen

theorem take_set_self (h : len < items.length) :
    (items.set len witness).take (len + 1) = items.take len ++ [witness] := by
  rw [List.set_eq_take_append_cons_drop, if_pos h, List.take_append, List.length_take,
    Nat.min_eq_left h.le, List.take_of_length_le (by rw [List.length_take]; omega),
    Nat.add_sub_cancel_left]
  rfl

theorem getElem?_take_of_findIdx? {p : RuntimeLuneWitness → Bool}
    (h : (items.take len).findIdx? p = some i) : (items.take len)[i]? = items[i]? ∧ i < len := by
  obtain ⟨hlt, -⟩ := List.findIdx?_eq_some_iff_getElem.mp h
  have hi : i < len := by
    rw [List.length_take] at hlt
    omega
  exact ⟨by rw [List.getElem?_take, if_pos hi], hi⟩

/-- In the slots in use, the best are kept. -/
theorem insertWitnessSlice_spec (hpos : 0 < maxWitnesses) (hmax : maxWitnesses ≤ region.length)
    (hlen : len ≤ maxWitnesses) (witness : RuntimeLuneWitness) :
    let outcome := insertWitnessSlice region len witness maxWitnesses
    outcome.1.length = region.length ∧ outcome.2 ≤ maxWitnesses ∧
      outcome.1.take outcome.2 = keepWitness maxWitnesses (region.take len) witness := by
  have hbound : max (min maxWitnesses region.length) 1 = maxWitnesses := by omega
  have htake : (region.take len).length = len := by
    rw [List.length_take]
    omega
  rw [insertWitnessSlice, keepWitness, hbound]
  dsimp only
  rw [Nat.min_eq_left hlen]
  cases hfind : (region.take len).findIdx? fun existing => existing.pivot = witness.pivot with
  | some i =>
      obtain ⟨hi, -⟩ := getElem?_take_of_findIdx? hfind
      dsimp only
      rw [hi]
      split_ifs with himproves
      · refine ⟨by rw [sortFirst_length, List.length_set], hlen, ?_⟩
        rw [take_sortFirst (by rw [List.length_set]; omega), List.take_set]
      · exact ⟨rfl, hlen, rfl⟩
  | none =>
      dsimp only
      rw [htake]
      split_ifs with hroom himproves himproves' himproves'
      · refine ⟨by rw [sortFirst_length, List.length_set], hroom, ?_⟩
        rw [take_sortFirst (by rw [List.length_set]; omega), take_set_self (by omega)]
      all_goals
        have hfull : len = maxWitnesses := by omega
        have hworst : (region.take len)[maxWitnesses - 1]? = region[maxWitnesses - 1]? := by
          rw [List.getElem?_take, if_pos (by omega)]
        rw [hworst] at himproves'
      · refine ⟨by rw [sortFirst_length, List.length_set], hlen, ?_⟩
        rw [hfull, take_sortFirst (by rw [List.length_set]; omega), List.take_set]
      · exact absurd himproves himproves'
      · exact absurd himproves' himproves
      · exact ⟨rfl, hlen, rfl⟩

end

/-! ## A victim's record -/

namespace ViewLuneVictimWitnesses

/-- The record's witnesses are where it says. -/
structure Placed (row : ViewLuneVictimWitnesses) (overflow : List RuntimeLuneWitness)
    (maxWitnesses : Nat) : Prop where
  inline_length : row.inline.length = INLINE_WITNESS_CAP
  inline_len : row.hasOverflow = false → row.len ≤ min maxWitnesses INLINE_WITNESS_CAP
  fits : row.hasOverflow = true → row.overflowOffset + row.overflowCapacity ≤ overflow.length
  len_le : row.hasOverflow = true → row.len ≤ row.overflowCapacity
  len_pos : row.hasOverflow = true → 0 < row.len
  capacity_le : row.hasOverflow = true → row.overflowCapacity ≤ maxWitnesses

/-- With the witness there are too many for the record itself. -/
def NeedsRegion (row : ViewLuneVictimWitnesses) (witness : RuntimeLuneWitness)
    (maxWitnesses : Nat) : Prop :=
  row.hasOverflow = false ∧
    (∀ existing ∈ row.inline.take row.len, existing.pivot ≠ witness.pivot) ∧
    min maxWitnesses INLINE_WITNESS_CAP ≤ row.len ∧ INLINE_WITNESS_CAP < maxWitnesses

/-- How many witnesses the victim can have: a region does not grow. -/
def bound (row : ViewLuneVictimWitnesses) (maxWitnesses : Nat) : Nat :=
  if row.hasOverflow then row.overflowCapacity else maxWitnesses

/-- The region lies elsewhere. -/
def Avoids (row : ViewLuneVictimWitnesses) (off n : Nat) : Prop :=
  row.hasOverflow = true →
    off + n ≤ row.overflowOffset ∨ row.overflowOffset + row.overflowCapacity ≤ off

/-- What an insertion does to the record and to the arena. -/
structure Inserted (row : ViewLuneVictimWitnesses) (overflow : List RuntimeLuneWitness)
    (outcome : ViewLuneVictimWitnesses × List RuntimeLuneWitness) (witness : RuntimeLuneWitness)
    (maxWitnesses : Nat) : Prop where
  victim : outcome.1.victim = row.victim
  asSlice : outcome.1.asSlice outcome.2 =
    keepWitness (row.bound maxWitnesses) (row.asSlice overflow) witness
  placed : outcome.1.Placed outcome.2 maxWitnesses
  stays : row.hasOverflow = true → outcome.1.overflowOffset = row.overflowOffset ∧
    outcome.1.overflowCapacity = row.overflowCapacity
  moves : row.hasOverflow = false → outcome.1.hasOverflow = true →
    outcome.1.overflowOffset = overflow.length ∧ outcome.1.overflowCapacity = maxWitnesses
  length_le : overflow.length ≤ outcome.2.length
  length_le_add : outcome.2.length ≤ overflow.length + maxWitnesses
  frame : ∀ off n, off + n ≤ overflow.length → row.Avoids off n →
    slice outcome.2 off n = slice overflow off n

variable {row next : ViewLuneVictimWitnesses} {overflow : List RuntimeLuneWitness}
  {witness : RuntimeLuneWitness} {maxWitnesses : Nat}

theorem hasOverflow_congr (h : next.overflowOffset = row.overflowOffset) :
    next.hasOverflow = row.hasOverflow := by
  rw [hasOverflow, hasOverflow, h]

theorem asSlice_of_overflow (h : row.hasOverflow = true) :
    row.asSlice overflow = slice overflow row.overflowOffset row.len := if_pos h

theorem asSlice_of_inline (h : row.hasOverflow = false) :
    row.asSlice overflow = row.inline.take row.len := if_neg (by rw [h]; exact Bool.false_ne_true)

theorem Placed.insertOverflow (h : row.Placed overflow maxWitnesses)
    (hover : row.hasOverflow = true) (hmax : maxWitnesses ≤ 65535) (witness : RuntimeLuneWitness) :
    row.Inserted overflow (row.insertOverflow witness maxWitnesses overflow) witness
      maxWitnesses := by
  have hfits := h.fits hover
  have hcapacity := h.capacity_le hover
  have hlen := h.len_le hover
  have hregion : (slice overflow row.overflowOffset row.overflowCapacity).length =
      row.overflowCapacity := length_slice hfits
  have hpos : 0 < row.overflowCapacity := Nat.lt_of_lt_of_le (h.len_pos hover) hlen
  obtain ⟨hlength, hused, hkept⟩ := insertWitnessSlice_spec hpos (Nat.le_of_eq hregion.symm) hlen
    witness
  have hsome := keepWitness_length_pos hpos
    ((slice overflow row.overflowOffset row.overflowCapacity).take row.len) witness
  rw [ViewLuneVictimWitnesses.insertOverflow, Nat.min_eq_right hcapacity]
  generalize insertWitnessSlice (slice overflow row.overflowOffset row.overflowCapacity) row.len
    witness row.overflowCapacity = outcome at hlength hused hkept
  rw [hregion] at hlength
  rw [← hkept, List.length_take] at hsome
  have hwrite : row.overflowOffset + outcome.1.length ≤ overflow.length := by
    rw [hlength]
    exact hfits
  have hsmall : min outcome.2 65535 = outcome.2 := by omega
  rw [hsmall]
  have hover' : ({ row with len := outcome.2 } : ViewLuneVictimWitnesses).hasOverflow = true :=
    hover
  have hsize : (splice overflow row.overflowOffset outcome.1).length = overflow.length :=
    length_splice hwrite
  constructor
  · rfl
  · rw [asSlice_of_overflow hover', asSlice_of_overflow hover, bound, if_pos hover]
    change slice (splice overflow row.overflowOffset outcome.1) row.overflowOffset outcome.2 = _
    rw [slice_splice_self hwrite outcome.2 (by omega), hkept, slice_take hlen]
  · constructor
    · exact h.inline_length
    · exact fun hnone => absurd hover' (by rw [hnone]; exact Bool.false_ne_true)
    · exact fun _ => hsize ▸ hfits
    · exact fun _ => hused
    · exact fun _ => Nat.lt_of_lt_of_le hsome (Nat.min_le_left ..)
    · exact fun _ => hcapacity
  · exact fun _ => ⟨rfl, rfl⟩
  · exact fun hnone => absurd hover (by rw [hnone]; exact Bool.false_ne_true)
  · exact Nat.le_of_eq hsize.symm
  · rw [hsize]
    exact Nat.le_add_right ..
  · intro off n hin havoids
    apply slice_splice_of_disjoint hwrite
    rw [hlength]
    exact havoids hover

/-- The inline witnesses change, and the arena does not. -/
theorem insertInline (hinline : row.hasOverflow = false) {items : List RuntimeLuneWitness} {len : Nat}
    (hitems : items.length = INLINE_WITNESS_CAP)
    (hlen : len ≤ min maxWitnesses INLINE_WITNESS_CAP)
    (hkept : items.take len = keepWitness maxWitnesses (row.inline.take row.len) witness) :
    row.Inserted overflow ({ row with inline := items, len := len }, overflow) witness
      maxWitnesses := by
  have hinline' : ({ row with inline := items, len := len } : ViewLuneVictimWitnesses).hasOverflow =
      false := hinline
  have hno : ¬ ({ row with inline := items, len := len } : ViewLuneVictimWitnesses).hasOverflow =
      true := by
    rw [hinline']
    exact Bool.false_ne_true
  constructor
  · rfl
  · rw [asSlice_of_inline hinline', asSlice_of_inline hinline, bound,
      if_neg (by rw [hinline]; exact Bool.false_ne_true)]
    exact hkept
  · exact ⟨hitems, fun _ => hlen, fun h => absurd h hno, fun h => absurd h hno,
      fun h => absurd h hno, fun h => absurd h hno⟩
  · exact fun _ => ⟨rfl, rfl⟩
  · exact fun _ h => absurd h hno
  · exact Nat.le_refl _
  · exact Nat.le_add_right ..
  · exact fun _ _ _ _ => rfl

theorem Placed.moveToOverflow (h : row.Placed overflow maxWitnesses)
    (hinline : row.hasOverflow = false) (hmax : maxWitnesses ≤ 65535)
    (hmore : INLINE_WITNESS_CAP < maxWitnesses)
    (harena : overflow.length < INVALID_WITNESS_OVERFLOW_OFFSET) (witness : RuntimeLuneWitness) :
    row.Inserted overflow (row.moveToOverflow witness maxWitnesses overflow) witness
      maxWitnesses := by
  have hlen := h.inline_len hinline
  have hactive : (row.inline.take row.len).length = row.len := by
    rw [List.length_take, h.inline_length]
    omega
  have hcapacity : min maxWitnesses 65535 = maxWitnesses := Nat.min_eq_left hmax
  have hoffset : overflow.length < 2 ^ 32 := by
    rw [INVALID_WITNESS_OVERFLOW_OFFSET] at harena
    omega
  rw [ViewLuneVictimWitnesses.moveToOverflow]
  simp only [hcapacity, if_pos hoffset]
  -- The grown arena, and the inline witnesses copied to its end.
  generalize hgrown : overflow ++ List.replicate maxWitnesses RuntimeLuneWitness.default = grown
  have hgrownLength : grown.length = overflow.length + maxWitnesses := by
    rw [← hgrown, List.length_append, List.length_replicate]
  have hcopy : overflow.length + (row.inline.take row.len).length ≤ grown.length := by
    omega
  have hregion : (slice (splice grown overflow.length (row.inline.take row.len)) overflow.length
      maxWitnesses).length = maxWitnesses :=
    length_slice (by rw [length_splice hcopy, hgrownLength])
  have hstart : (slice (splice grown overflow.length (row.inline.take row.len)) overflow.length
      maxWitnesses).take row.len = row.inline.take row.len := by
    rw [slice_take (by omega), slice_splice_self hcopy row.len (by omega), List.take_take,
      Nat.min_self]
  obtain ⟨hlength, hused, hkept⟩ := insertWitnessSlice_spec (by omega)
    (Nat.le_of_eq hregion.symm) (show row.len ≤ maxWitnesses by omega) witness
  rw [hstart] at hkept
  have hsome := keepWitness_length_pos (show 0 < maxWitnesses by omega)
    (row.inline.take row.len) witness
  rw [← hkept, List.length_take] at hsome
  generalize insertWitnessSlice (slice (splice grown overflow.length (row.inline.take row.len))
    overflow.length maxWitnesses) row.len witness maxWitnesses = outcome at hlength hused hkept hsome
  rw [hregion] at hlength
  have hwrite : overflow.length + outcome.1.length ≤
      (splice grown overflow.length (row.inline.take row.len)).length := by
    rw [length_splice hcopy]
    omega
  have hsize : (splice (splice grown overflow.length (row.inline.take row.len)) overflow.length
      outcome.1).length = overflow.length + maxWitnesses := by
    rw [length_splice hwrite, length_splice hcopy, hgrownLength]
  have hsmall : min outcome.2 65535 = outcome.2 := by omega
  rw [hsmall]
  have hover : ({ row with
      overflowOffset := overflow.length
      overflowCapacity := maxWitnesses
      len := outcome.2 } : ViewLuneVictimWitnesses).hasOverflow = true :=
    decide_eq_true (Nat.ne_of_lt harena)
  have hnone : ¬ row.hasOverflow = true := by
    rw [hinline]
    exact Bool.false_ne_true
  constructor
  · rfl
  · rw [asSlice_of_overflow hover, asSlice_of_inline hinline, bound, if_neg hnone]
    change slice (splice (splice grown overflow.length (row.inline.take row.len)) overflow.length
      outcome.1) overflow.length outcome.2 = _
    rw [slice_splice_self hwrite outcome.2 (by omega), hkept]
  · constructor
    · exact h.inline_length
    · exact fun hfalse => absurd hover (by rw [hfalse]; exact Bool.false_ne_true)
    · exact fun _ => Nat.le_of_eq hsize.symm
    · exact fun _ => hused
    · exact fun _ => Nat.lt_of_lt_of_le hsome (Nat.min_le_left ..)
    · exact fun _ => Nat.le_refl _
  · exact fun h => absurd h hnone
  · exact fun _ _ => ⟨rfl, rfl⟩
  · rw [hsize]
    exact Nat.le_add_right ..
  · exact Nat.le_of_eq hsize
  · intro off n hin _
    rw [slice_splice_of_disjoint hwrite (.inl hin), slice_splice_of_disjoint hcopy (.inl hin),
      ← hgrown, slice_append_left hin]

/-- Inserting a witness keeps the best that the victim has room for. -/
theorem Placed.insert (h : row.Placed overflow maxWitnesses) (hpos : 0 < maxWitnesses)
    (hmax : maxWitnesses ≤ 65535) (harena : row.NeedsRegion witness maxWitnesses →
      overflow.length < INVALID_WITNESS_OVERFLOW_OFFSET) :
    row.Inserted overflow (row.insert witness maxWitnesses overflow) witness maxWitnesses := by
  rw [ViewLuneVictimWitnesses.insert, Nat.max_eq_left hpos]
  dsimp only
  cases hover : row.hasOverflow with
  | true => exact h.insertOverflow hover hmax witness
  | false =>
      have hlen := h.inline_len hover
      have hinline := h.inline_length
      have hactive : (row.inline.take row.len).length = row.len := by
        rw [List.length_take, hinline]
        omega
      have hkeep : ∀ items len, items.length = INLINE_WITNESS_CAP →
          len ≤ min maxWitnesses INLINE_WITNESS_CAP →
          items.take len = keepWitness maxWitnesses (row.inline.take row.len) witness →
          row.Inserted overflow ({ row with inline := items, len := len }, overflow) witness
            maxWitnesses := fun items len => insertInline hover
      rw [if_neg Bool.false_ne_true]
      cases hfind : (row.inline.take row.len).findIdx?
          fun existing => existing.pivot = witness.pivot with
      | some i =>
          obtain ⟨hi, -⟩ := getElem?_take_of_findIdx? hfind
          dsimp only
          split_ifs with himproves
          · apply hkeep _ _ (by rw [sortFirst_length, List.length_set, hinline]) hlen
            rw [take_sortFirst (by rw [List.length_set, hinline]; omega), keepWitness, hfind]
            dsimp only
            rw [hi, if_pos himproves, List.take_set]
          · apply hkeep _ _ hinline hlen
            rw [keepWitness, hfind]
            dsimp only
            rw [hi, if_neg himproves]
      | none =>
          dsimp only
          by_cases hroom : row.len < min maxWitnesses INLINE_WITNESS_CAP
          · rw [if_pos hroom]
            apply hkeep _ _ (by rw [sortFirst_length, List.length_set, hinline]) hroom
            rw [take_sortFirst (by rw [List.length_set, hinline]; omega),
              take_set_self (by rw [hinline]; omega), keepWitness, hfind]
            dsimp only
            rw [if_pos (by rw [hactive]; omega)]
          · rw [if_neg hroom]
            by_cases hsmall : maxWitnesses ≤ INLINE_WITNESS_CAP
            · have hfull : row.len = maxWitnesses := by omega
              have hworst : (row.inline.take row.len)[maxWitnesses - 1]? =
                  row.inline[maxWitnesses - 1]? := by
                rw [List.getElem?_take, if_pos (by omega)]
              have hno : ¬ (row.inline.take row.len).length < maxWitnesses := by
                rw [hactive, hfull]
                exact Nat.lt_irrefl _
              rw [if_pos hsmall, Nat.min_eq_left hsmall]
              split_ifs with himproves
              · apply hkeep _ _ (by rw [sortFirst_length, List.length_set, hinline]) hlen
                rw [keepWitness, hfind]
                dsimp only
                rw [if_neg hno, hworst, if_pos himproves.2, hfull,
                  take_sortFirst (by rw [List.length_set, hinline]; exact hsmall), List.take_set]
              · apply hkeep _ _ hinline hlen
                rw [keepWitness, hfind]
                dsimp only
                rw [if_neg hno, hworst, if_neg fun hbetter => himproves ⟨hpos, hbetter⟩]
            · rw [if_neg hsmall]
              have hmore := Nat.lt_of_not_le hsmall
              refine h.moveToOverflow hover hmax hmore (harena ⟨hover, ?_, ?_, hmore⟩) witness
              · intro existing hin
                exact of_decide_eq_false (List.findIdx?_eq_none_iff.mp hfind existing hin)
              · exact Nat.le_of_not_lt hroom

end ViewLuneVictimWitnesses
end ForgeANN
