-- SUMMARY: What the operations on a row do to the witnesses of each victim.
import ForgeANN.ViewLune.Row

/-!
# The witnesses of a row

The victims' records are sorted and their regions of the arena do not meet. So
an operation on one victim leaves the witnesses of the others alone, and
compaction, which moves the regions together, changes nobody's witnesses.
-/
namespace ForgeANN

open Lib RuntimeViewLuneRow

/-- The witnesses of a victim. -/
def witnessesIn (rows : List ViewLuneVictimWitnesses) (overflow : List RuntimeLuneWitness)
    (victim : UInt32) : List RuntimeLuneWitness :=
  ((findByKey ViewLuneVictimWitnesses.victim rows victim).map fun row =>
    row.asSlice overflow).getD []

/-- How many witnesses a victim can have. -/
def boundIn (rows : List ViewLuneVictimWitnesses) (maxWitnesses : Nat) (victim : UInt32) : Nat :=
  ((findByKey ViewLuneVictimWitnesses.victim rows victim).map fun row =>
    row.bound maxWitnesses).getD maxWitnesses

/-- The two regions do not meet. -/
def ViewLuneVictimWitnesses.Apart (a b : ViewLuneVictimWitnesses) : Prop :=
  b.hasOverflow = true → a.Avoids b.overflowOffset b.overflowCapacity

/-- The victims' records, in order, and each with its own region. -/
structure WitnessesPlaced (rows : List ViewLuneVictimWitnesses)
    (overflow : List RuntimeLuneWitness) (maxWitnesses : Nat) : Prop where
  sorted : SortedBy ViewLuneVictimWitnesses.victim rows
  placed : ∀ row ∈ rows, row.Placed overflow maxWitnesses
  apart : rows.Pairwise ViewLuneVictimWitnesses.Apart

section

variable {rows others rest : List ViewLuneVictimWitnesses} {overflow : List RuntimeLuneWitness}
  {a b row next : ViewLuneVictimWitnesses} {maxWitnesses idx : Nat} {witness : RuntimeLuneWitness}
  {outcome : ViewLuneVictimWitnesses × List RuntimeLuneWitness}
  {victim : UInt32}

theorem ViewLuneVictimWitnesses.Apart.symm (h : a.Apart b) : b.Apart a := by
  intro ha hb
  rcases h hb ha with hbefore | hbehind
  · exact .inr hbefore
  · exact .inl hbehind

theorem witnessesIn_of_find (h : findByKey ViewLuneVictimWitnesses.victim rows victim = some row) :
    witnessesIn rows overflow victim = row.asSlice overflow := by
  rw [witnessesIn, h]
  rfl

theorem boundIn_of_find (h : findByKey ViewLuneVictimWitnesses.victim rows victim = some row) :
    boundIn rows maxWitnesses victim = row.bound maxWitnesses := by
  rw [boundIn, h]
  rfl

theorem witnessesIn_of_not_mem (h : victim ∉ rows.map ViewLuneVictimWitnesses.victim) :
    witnessesIn rows overflow victim = [] := by
  rw [witnessesIn, findByKey_eq_none.mpr h]
  rfl

theorem boundIn_of_not_mem (h : victim ∉ rows.map ViewLuneVictimWitnesses.victim) :
    boundIn rows maxWitnesses victim = maxWitnesses := by
  rw [boundIn, findByKey_eq_none.mpr h]
  rfl

theorem witnessesIn_cons (row : ViewLuneVictimWitnesses) (rows : List ViewLuneVictimWitnesses)
    (overflow : List RuntimeLuneWitness) (victim : UInt32) :
    witnessesIn (row :: rows) overflow victim =
      if row.victim = victim then row.asSlice overflow else witnessesIn rows overflow victim := by
  rw [witnessesIn, findByKey_cons]
  split_ifs <;> rfl

theorem boundIn_cons (row : ViewLuneVictimWitnesses) (rows : List ViewLuneVictimWitnesses)
    (maxWitnesses : Nat) (victim : UInt32) :
    boundIn (row :: rows) maxWitnesses victim =
      if row.victim = victim then row.bound maxWitnesses else boundIn rows maxWitnesses victim := by
  rw [boundIn, findByKey_cons]
  split_ifs <;> rfl

theorem witnessesIn_perm (h : SortedBy ViewLuneVictimWitnesses.victim rows)
    (hperm : rows.Perm others) (overflow : List RuntimeLuneWitness) (victim : UInt32) :
    witnessesIn rows overflow victim = witnessesIn others overflow victim := by
  rw [witnessesIn, witnessesIn, findByKey_perm h.nodup hperm]

theorem boundIn_perm (h : SortedBy ViewLuneVictimWitnesses.victim rows)
    (hperm : rows.Perm others) (maxWitnesses : Nat) (victim : UInt32) :
    boundIn rows maxWitnesses victim = boundIn others maxWitnesses victim := by
  rw [boundIn, boundIn, findByKey_perm h.nodup hperm]

/-- Where the records are does not matter, as long as they are in order. -/
theorem WitnessesPlaced.perm (h : WitnessesPlaced rows overflow maxWitnesses)
    (hperm : rows.Perm others) (hsorted : SortedBy ViewLuneVictimWitnesses.victim others) :
    WitnessesPlaced others overflow maxWitnesses where
  sorted := hsorted
  placed other hother := h.placed other (hperm.mem_iff.mpr hother)
  apart := hperm.pairwise h.apart fun hab => hab.symm

/-! ## A new victim -/

namespace ViewLuneVictimWitnesses

theorem hasOverflow_new (victim : UInt32) : (new victim).hasOverflow = false :=
  decide_eq_false fun h => h rfl

theorem not_hasOverflow_new (victim : UInt32) : ¬ (new victim).hasOverflow = true := by
  rw [hasOverflow_new]
  exact Bool.false_ne_true

theorem asSlice_new (victim : UInt32) (overflow : List RuntimeLuneWitness) :
    (new victim).asSlice overflow = [] := asSlice_of_inline (hasOverflow_new victim)

theorem bound_new (victim : UInt32) (maxWitnesses : Nat) :
    (new victim).bound maxWitnesses = maxWitnesses :=
  if_neg (not_hasOverflow_new victim)

theorem placed_new (victim : UInt32) (overflow : List RuntimeLuneWitness) (maxWitnesses : Nat) :
    (new victim).Placed overflow maxWitnesses where
  inline_length := rfl
  inline_len _ := Nat.zero_le _
  fits h := absurd h (not_hasOverflow_new victim)
  len_le h := absurd h (not_hasOverflow_new victim)
  len_pos h := absurd h (not_hasOverflow_new victim)
  capacity_le h := absurd h (not_hasOverflow_new victim)

/-- An insertion leaves the bound alone. -/
theorem Inserted.bound (h : row.Inserted overflow outcome witness maxWitnesses) :
    outcome.1.bound maxWitnesses = row.bound maxWitnesses := by
  rw [ViewLuneVictimWitnesses.bound, ViewLuneVictimWitnesses.bound]
  cases hrow : row.hasOverflow with
  | true =>
      obtain ⟨hoffset, hcapacity⟩ := h.stays hrow
      rw [hasOverflow_congr hoffset, hrow, if_pos rfl, hcapacity]
      rfl
  | false =>
      rw [if_neg Bool.false_ne_true]
      cases hnext : outcome.1.hasOverflow with
      | true => exact (h.moves hrow hnext).2
      | false => rfl

/-- Another record's witnesses are where they were. -/
theorem Inserted.other (h : row.Inserted overflow outcome witness maxWitnesses)
    (hother : b.Placed overflow maxWitnesses) (hapart : row.Apart b) :
    b.asSlice outcome.2 = b.asSlice overflow ∧ b.Placed outcome.2 maxWitnesses ∧
      outcome.1.Apart b := by
  refine ⟨?_, ?_, ?_⟩
  · cases hb : b.hasOverflow with
    | true =>
        rw [asSlice_of_overflow hb, asSlice_of_overflow hb, ← slice_take (hother.len_le hb),
          ← slice_take (hother.len_le hb), h.frame _ _ (hother.fits hb) (hapart hb)]
    | false => rw [asSlice_of_inline hb, asSlice_of_inline hb]
  · exact { hother with fits := fun hb => (hother.fits hb).trans h.length_le }
  · intro hb houtcome
    cases hrow : row.hasOverflow with
    | true =>
        obtain ⟨hoffset, hcapacity⟩ := h.stays hrow
        rw [hoffset, hcapacity]
        exact hapart hb hrow
    | false =>
        left
        rw [(h.moves hrow houtcome).1]
        exact hother.fits hb

end ViewLuneVictimWitnesses

theorem WitnessesPlaced.cons (h : WitnessesPlaced rows overflow maxWitnesses)
    (hrow : row.Placed overflow maxWitnesses) (hapart : ∀ other ∈ rows, row.Apart other)
    (hperm : (row :: rows).Perm others)
    (hsorted : SortedBy ViewLuneVictimWitnesses.victim others) :
    WitnessesPlaced others overflow maxWitnesses where
  sorted := hsorted
  placed other hother := by
    rcases List.mem_cons.mp (hperm.mem_iff.mpr hother) with rfl | hin
    · exact hrow
    · exact h.placed other hin
  apart := hperm.pairwise (List.pairwise_cons.mpr ⟨hapart, h.apart⟩) fun hab => hab.symm

/-- A victim without witnesses changes nothing. -/
theorem WitnessesPlaced.insertNew (h : WitnessesPlaced rows overflow maxWitnesses)
    (hsearch : binarySearchByKey ViewLuneVictimWitnesses.victim rows victim = .error idx) :
    WitnessesPlaced (insertAt rows idx (.new victim)) overflow maxWitnesses ∧
      (∀ v, witnessesIn (insertAt rows idx (.new victim)) overflow v =
        witnessesIn rows overflow v) ∧
      ∀ v, boundIn (insertAt rows idx (.new victim)) maxWitnesses v =
        boundIn rows maxWitnesses v := by
  obtain ⟨-, hbefore, hbehind⟩ := split_of_binarySearch_error h.sorted hsearch
  have hperm := insertAt_perm rows idx (.new victim)
  have hsorted := h.sorted.insertAt (a := .new victim) hbefore hbehind
  have hnot := not_mem_of_binarySearch_error h.sorted hsearch
  refine ⟨?_, fun v => ?_, fun v => ?_⟩
  · apply h.cons (ViewLuneVictimWitnesses.placed_new ..) _ hperm.symm hsorted
    intro other _ _ hnew
    exact absurd hnew (ViewLuneVictimWitnesses.not_hasOverflow_new victim)
  · rw [witnessesIn_perm hsorted hperm, witnessesIn_cons]
    split_ifs with hv
    · rw [← hv]
      exact (witnessesIn_of_not_mem hnot).symm
    · rfl
  · rw [boundIn_perm hsorted hperm, boundIn_cons]
    split_ifs with hv
    · rw [← hv]
      exact (boundIn_of_not_mem hnot).symm
    · rfl

/-- A record that is inserted into changes the witnesses of its own victim only. -/
theorem WitnessesPlaced.update (h : WitnessesPlaced rows overflow maxWitnesses)
    (hrow : rows[idx]? = some row)
    (hinserted : row.Inserted overflow outcome witness maxWitnesses) :
    WitnessesPlaced (rows.set idx outcome.1) outcome.2 maxWitnesses ∧
      (∀ v, witnessesIn (rows.set idx outcome.1) outcome.2 v =
        if v = row.victim then
          keepWitness (boundIn rows maxWitnesses v) (witnessesIn rows overflow v) witness
        else witnessesIn rows overflow v) ∧
      ∀ v, boundIn (rows.set idx outcome.1) maxWitnesses v = boundIn rows maxWitnesses v := by
  obtain ⟨rest, hperm, -, hset⟩ := set_perm hrow
  have hsorted := h.sorted.set hrow hinserted.victim
  have hnodup := (hperm.map ViewLuneVictimWitnesses.victim).nodup_iff.mp h.sorted.nodup
  have hplaced : ∀ other ∈ rest, other.Placed overflow maxWitnesses := fun other hother =>
    h.placed other (hperm.mem_iff.mpr (List.mem_cons_of_mem _ hother))
  obtain ⟨hapart, hrest⟩ := List.pairwise_cons.mp
    (hperm.pairwise h.apart fun hab => hab.symm)
  have hother : ∀ other ∈ rest, other.asSlice outcome.2 = other.asSlice overflow ∧
      other.Placed outcome.2 maxWitnesses ∧ outcome.1.Apart other := fun other hin =>
    hinserted.other (hplaced other hin) (hapart other hin)
  refine ⟨⟨hsorted, ?_, ?_⟩, fun v => ?_, fun v => ?_⟩
  · intro other hin
    rcases List.mem_cons.mp ((hset _).mem_iff.mp hin) with rfl | hin
    · exact hinserted.placed
    · exact (hother other hin).2.1
  · exact (hset _).symm.pairwise
      (List.pairwise_cons.mpr ⟨fun other hin => (hother other hin).2.2, hrest⟩)
      fun hab => hab.symm
  · rw [witnessesIn_perm hsorted (hset _), witnessesIn_perm h.sorted hperm,
      boundIn_perm h.sorted hperm, witnessesIn_cons, witnessesIn_cons, boundIn_cons,
      hinserted.victim]
    by_cases hv : v = row.victim
    · rw [if_pos hv.symm, if_pos hv, if_pos hv.symm, if_pos hv.symm]
      exact hinserted.asSlice
    · rw [if_neg (Ne.symm hv), if_neg hv, if_neg (Ne.symm hv), witnessesIn, witnessesIn]
      cases hfind : findByKey ViewLuneVictimWitnesses.victim rest v with
      | none => rfl
      | some other => exact (hother other (key_of_findByKey hfind).1).1
  · rw [boundIn_perm hsorted (hset _), boundIn_perm h.sorted hperm, boundIn_cons, boundIn_cons,
      hinserted.victim, hinserted.bound]

/-- Without the victim's record, the victim has no witnesses. -/
theorem WitnessesPlaced.erase (h : WitnessesPlaced rows overflow maxWitnesses)
    (hrow : rows[idx]? = some row) :
    WitnessesPlaced (rows.eraseIdx idx) overflow maxWitnesses ∧
      (∀ v, witnessesIn (rows.eraseIdx idx) overflow v =
        if v = row.victim then [] else witnessesIn rows overflow v) ∧
      ∀ v, boundIn (rows.eraseIdx idx) maxWitnesses v =
        if v = row.victim then maxWitnesses else boundIn rows maxWitnesses v := by
  obtain ⟨rest, hperm, herase, -⟩ := set_perm hrow
  have hsorted := h.sorted.eraseIdx idx
  have hnodup := (hperm.map ViewLuneVictimWitnesses.victim).nodup_iff.mp h.sorted.nodup
  have hnot := (List.nodup_cons.mp hnodup).1
  refine ⟨⟨hsorted, ?_, h.apart.sublist (List.eraseIdx_sublist rows idx)⟩, fun v => ?_,
    fun v => ?_⟩
  · exact fun other hin => h.placed other (List.mem_of_mem_eraseIdx hin)
  · rw [herase, witnessesIn_perm h.sorted hperm, witnessesIn_cons]
    split_ifs with hv heq
    · rw [hv]
      exact witnessesIn_of_not_mem hnot
    · exact absurd heq.symm hv
    · rfl
  · rw [herase, boundIn_perm h.sorted hperm, boundIn_cons]
    split_ifs with hv heq
    · rw [hv]
      exact boundIn_of_not_mem hnot
    · exact absurd heq.symm hv
    · rfl

/-! ## Compaction -/

/-- `active_overflow_len`: how many witnesses the regions have. -/
def activeOverflowLen (rows : List ViewLuneVictimWitnesses) : Nat :=
  ((rows.filter fun row => row.hasOverflow).map fun row => row.len).sum

/-- Moved together behind `start`, the regions have offsets that a `u32` can hold. -/
def CompactsWithin (start : Nat) (rows : List ViewLuneVictimWitnesses) : Prop :=
  ∀ before row after, rows = before ++ row :: after → row.hasOverflow = true →
    start + activeOverflowLen before < INVALID_WITNESS_OVERFLOW_OFFSET

/-- The record has the same witnesses, in a region that starts behind `start`. -/
structure Moved (old overflow : List RuntimeLuneWitness) (maxWitnesses start : Nat)
    (row next : ViewLuneVictimWitnesses) : Prop where
  victim : next.victim = row.victim
  asSlice : next.asSlice overflow = row.asSlice old
  placed : next.Placed overflow maxWitnesses
  start_le : next.hasOverflow = true → start ≤ next.overflowOffset

theorem CompactsWithin.tail {start : Nat} (h : CompactsWithin start (row :: rows)) :
    CompactsWithin (start + if row.hasOverflow then row.len else 0) rows := by
  intro before other after heq hover
  have hwithin := h (row :: before) other after (by rw [heq]; rfl) hover
  rw [activeOverflowLen, List.filter_cons] at hwithin
  cases hrow : row.hasOverflow with
  | true =>
      rw [hrow, if_pos rfl, List.map_cons, List.sum_cons, ← Nat.add_assoc] at hwithin
      exact hwithin
  | false =>
      rw [hrow, if_neg Bool.false_ne_true] at hwithin
      exact hwithin

theorem Moved.later {old : List RuntimeLuneWitness} {start start' : Nat}
    (h : Moved old overflow maxWitnesses start row next) (hle : start' ≤ start) :
    Moved old overflow maxWitnesses start' row next :=
  { h with start_le := fun hover => hle.trans (h.start_le hover) }

theorem compactRows_inline {old compacted : List RuntimeLuneWitness}
    (h : row.hasOverflow = false) :
    compactRows old compacted (row :: rows) =
      (row :: (compactRows old compacted rows).1, (compactRows old compacted rows).2) := by
  rw [compactRows, h, if_neg Bool.false_ne_true]

theorem compactRows_overflow {old compacted : List RuntimeLuneWitness}
    (h : row.hasOverflow = true) (hstart : compacted.length < INVALID_WITNESS_OVERFLOW_OFFSET) :
    compactRows old compacted (row :: rows) =
      let rest := compactRows old (compacted ++ slice old row.overflowOffset row.len) rows
      ({ row with overflowOffset := compacted.length, overflowCapacity := row.len } :: rest.1,
        rest.2) := by
  have hoffset : compacted.length < 2 ^ 32 := by
    rw [INVALID_WITNESS_OVERFLOW_OFFSET] at hstart
    omega
  rw [compactRows, h, if_pos rfl]
  dsimp only
  rw [if_pos hoffset]

theorem moved_of_mem {old : List RuntimeLuneWitness} {start : Nat}
    (h : List.Forall₂ (Moved old overflow maxWitnesses start) rows others) (hin : next ∈ others) :
    ∃ row, Moved old overflow maxWitnesses start row next := by
  induction h with
  | nil => cases hin
  | cons hrow _ ih =>
      rcases List.mem_cons.mp hin with rfl | hin
      · exact ⟨_, hrow⟩
      · exact ih hin

/-- Where the regions come to lie. -/
theorem compactRows_spec {old compacted : List RuntimeLuneWitness}
    (hplaced : ∀ row ∈ rows, row.Placed old maxWitnesses)
    (hwithin : CompactsWithin compacted.length rows) :
    (∃ more, (compactRows old compacted rows).2 = compacted ++ more) ∧
      List.Forall₂ (Moved old (compactRows old compacted rows).2 maxWitnesses compacted.length)
        rows (compactRows old compacted rows).1 ∧
      (compactRows old compacted rows).1.Pairwise ViewLuneVictimWitnesses.Apart := by
  induction rows generalizing compacted with
  | nil => exact ⟨⟨[], (List.append_nil _).symm⟩, .nil, .nil⟩
  | cons row rows ih =>
      have hrow := hplaced row List.mem_cons_self
      have hrest : ∀ row ∈ rows, row.Placed old maxWitnesses := fun r hr => hplaced r (.tail _ hr)
      have htail := hwithin.tail
      cases hover : row.hasOverflow with
      | false =>
          have hnone : ¬ row.hasOverflow = true := by
            rw [hover]
            exact Bool.false_ne_true
          rw [if_neg hnone, Nat.add_zero] at htail
          obtain ⟨hmore, hmoved, hapart⟩ := ih hrest htail
          rw [compactRows_inline hover]
          refine ⟨hmore, .cons ⟨rfl, ?_, ?_, fun h => absurd h hnone⟩ hmoved,
            List.pairwise_cons.mpr ⟨fun _ _ _ h => absurd h hnone, hapart⟩⟩
          · exact (ViewLuneVictimWitnesses.asSlice_of_inline hover).trans
              (ViewLuneVictimWitnesses.asSlice_of_inline hover).symm
          · exact { hrow with fits := fun h => absurd h hnone }
      | true =>
          have hregion : (slice old row.overflowOffset row.len).length = row.len :=
            length_slice ((Nat.add_le_add_left (hrow.len_le hover) _).trans (hrow.fits hover))
          have hstart : compacted.length < INVALID_WITNESS_OVERFLOW_OFFSET :=
            hwithin [] row rows rfl hover
          have hsize : (compacted ++ slice old row.overflowOffset row.len).length =
              compacted.length + row.len := by
            rw [List.length_append, hregion]
          rw [if_pos hover, ← hsize] at htail
          obtain ⟨⟨more, hmore⟩, hmoved, hapart⟩ := ih hrest htail
          rw [compactRows_overflow hover hstart]
          dsimp only
          generalize compactRows old (compacted ++ slice old row.overflowOffset row.len) rows = rest
            at hmore hmoved hapart
          rw [hsize] at hmoved
          have hnext : ({ row with
              overflowOffset := compacted.length
              overflowCapacity := row.len } : ViewLuneVictimWitnesses).hasOverflow = true :=
            decide_eq_true (Nat.ne_of_lt hstart)
          have hlen : compacted.length + row.len ≤ rest.2.length := by
            rw [hmore, List.length_append, hsize]
            exact Nat.le_add_right ..
          refine ⟨⟨slice old row.overflowOffset row.len ++ more, ?_⟩, .cons ⟨rfl, ?_, ?_, ?_⟩ ?_,
            List.pairwise_cons.mpr ⟨?_, hapart⟩⟩
          · rw [hmore, List.append_assoc]
          · rw [ViewLuneVictimWitnesses.asSlice_of_overflow hnext,
              ViewLuneVictimWitnesses.asSlice_of_overflow hover]
            change slice rest.2 compacted.length row.len = _
            rw [hmore, slice_append_left (Nat.le_of_eq hsize.symm), slice_append_right,
              List.take_of_length_le (Nat.le_of_eq hregion)]
          · exact ⟨hrow.inline_length, fun h => absurd hnext (by rw [h]; exact Bool.false_ne_true),
              fun _ => hlen, fun _ => Nat.le_refl _, fun _ => hrow.len_pos hover,
              fun _ => (hrow.len_le hover).trans (hrow.capacity_le hover)⟩
          · exact fun _ => Nat.le_refl _
          · exact hmoved.imp fun _ _ h => h.later (Nat.le_add_right ..)
          · intro next hin hover' _
            obtain ⟨_, hmove⟩ := moved_of_mem hmoved hin
            right
            exact hmove.start_le hover'

theorem map_victim_of_moved {old : List RuntimeLuneWitness} {start : Nat}
    (h : List.Forall₂ (Moved old overflow maxWitnesses start) rows others) :
    others.map ViewLuneVictimWitnesses.victim = rows.map ViewLuneVictimWitnesses.victim := by
  induction h with
  | nil => rfl
  | cons hrow _ ih => rw [List.map_cons, List.map_cons, hrow.victim, ih]

theorem witnessesIn_of_moved {old : List RuntimeLuneWitness} {start : Nat}
    (h : List.Forall₂ (Moved old overflow maxWitnesses start) rows others) (victim : UInt32) :
    witnessesIn others overflow victim = witnessesIn rows old victim := by
  induction h with
  | nil => rfl
  | cons hrow _ ih => rw [witnessesIn_cons, witnessesIn_cons, hrow.victim, hrow.asSlice, ih]

/-- Compaction leaves the witnesses alone. -/
theorem WitnessesPlaced.compact {row : RuntimeViewLuneRow}
    (h : WitnessesPlaced row.witnessRows row.witnessOverflow maxWitnesses)
    (hwithin : CompactsWithin 0 row.witnessRows) :
    WitnessesPlaced row.compactStorage.witnessRows row.compactStorage.witnessOverflow
        maxWitnesses ∧
      (∀ v, witnessesIn row.compactStorage.witnessRows row.compactStorage.witnessOverflow v =
        witnessesIn row.witnessRows row.witnessOverflow v) ∧
      row.compactStorage.candidates = row.candidates ∧
      row.compactStorage.candidateWorstIdx = row.candidateWorstIdx := by
  rw [compactStorage, compactWitnessOverflow]
  split_ifs
  · exact ⟨h, fun _ => rfl, rfl, rfl⟩
  · obtain ⟨-, hmoved, hapart⟩ := compactRows_spec h.placed
      (show CompactsWithin ([] : List RuntimeLuneWitness).length row.witnessRows from hwithin)
    refine ⟨⟨?_, fun next hin => ?_, hapart⟩, witnessesIn_of_moved hmoved, rfl, rfl⟩
    · apply List.pairwise_map.mp
      rw [map_victim_of_moved hmoved]
      exact List.pairwise_map.mpr h.sorted
    · obtain ⟨_, hmove⟩ := moved_of_mem hmoved hin
      exact hmove.placed

end
end ForgeANN
