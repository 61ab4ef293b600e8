-- SUMMARY: Reads that are split between a resident prefix and the file, and put together again.
import ForgeANN.Sketch.CoalescedReads

/-!
# Reads behind a resident prefix

The ids below the prefix's length are read from memory and the others from the
file, each half into a buffer of its own; its rows are then copied to where they
are asked for.
-/
namespace ForgeANN

open Lib ResidentPrefixSketchAccessor

/-- Some of the ids, with the places where they are asked for. -/
abbrev IdSubset := List (UInt32 × Nat)

/-- What the rows of a subset are copied to, and what is copied there. -/
def IdSubset.placed (subset : IdSubset) (width : Nat) (values : List F32) : List (Nat × List F32) :=
  subset.zipIdx.map fun e => (e.1.2, slot width values e.2)

/-- A subset's part of a planned read, without its counters. -/
def fillSubset (read : ReadMany) (width : Nat) (subset : IdSubset) (out : List F32) :
    AnnResult (List F32) :=
  if subset = [] then .ok out
  else do
    let values ← (read (subset.map Prod.fst)
      (List.replicate (subset.length * width) F32.zero) .default).map Prod.fst
    scatterSubsetRows (subset.map Prod.snd) values width out

/-- What a read of many rows keeps to. -/
structure Reader (width : Nat) (read : ReadMany) : Prop where
  keepsLength : ∀ ids out stats filled, out.length = ids.length * width →
    (read ids out stats).map Prod.fst = .ok filled → filled.length = out.length
  nothing : ∀ out stats, (read [] out stats).map Prod.fst = .ok out

section

variable {width n : Nat} {read : ReadMany} {subset : IdSubset} {values out filled : List F32}
  {placed : List (Nat × List F32)}

theorem scatterSubsetRows_eq :
    scatterSubsetRows (subset.map Prod.snd) values width out =
      copySlots width values (subset.zipIdx.map fun e => (e.2, e.1.2)) out := by
  rw [scatterSubsetRows, copySlots, List.zipIdx_map, List.foldlM_map, List.foldlM_map]
  rfl

theorem placed_positions (subset : IdSubset) (width : Nat) (values : List F32) :
    (subset.placed width values).map Prod.fst = subset.map Prod.snd := by
  rw [IdSubset.placed, List.map_map]
  conv_rhs => rw [← List.zipIdx_map_fst 0 subset, List.map_map]
  rfl

theorem scatterSubsetRows_stocked (hvalues : values.length = subset.length * width)
    (h : Stocked width n placed out) (hin : ∀ e ∈ subset, e.2 < n)
    (hnodup : (placed.map Prod.fst ++ subset.map Prod.snd).Nodup) :
    ∃ filled, scatterSubsetRows (subset.map Prod.snd) values width out = .ok filled ∧
      Stocked width n (placed ++ subset.placed width values) filled := by
  have hmoves : (subset.zipIdx.map fun e => (e.2, e.1.2)).map Prod.snd = subset.map Prod.snd := by
    rw [← placed_positions subset width values, IdSubset.placed, List.map_map, List.map_map]
    rfl
  have hbound : ∀ move ∈ subset.zipIdx.map (fun e => (e.2, e.1.2)),
      move.1 < subset.length ∧ move.2 < n := by
    intro move hmove
    obtain ⟨⟨e, i⟩, he, rfl⟩ := List.mem_map.mp hmove
    have hget := List.mem_zipIdx_iff_getElem?.mp he
    exact ⟨(List.getElem?_eq_some_iff.mp hget).1, hin _ (List.mem_of_getElem? hget)⟩
  have hcopy := copySlots_stocked hvalues h hbound (by rwa [hmoves])
  rw [List.map_map] at hcopy
  rw [scatterSubsetRows_eq]
  exact hcopy

theorem fillSubset_stocked (hread : (read (subset.map Prod.fst)
      (List.replicate (subset.length * width) F32.zero) .default).map Prod.fst = .ok values)
    (hreader : Reader width read) (h : Stocked width n placed out) (hin : ∀ e ∈ subset, e.2 < n)
    (hnodup : (placed.map Prod.fst ++ subset.map Prod.snd).Nodup) :
    ∃ filled, fillSubset read width subset out = .ok filled ∧
      Stocked width n (placed ++ subset.placed width values) filled := by
  have hvalues := hreader.keepsLength _ _ _ _ (by simp) hread
  rw [List.length_replicate] at hvalues
  rw [fillSubset]
  by_cases hnil : subset = []
  · subst hnil
    exact ⟨out, if_pos rfl, by simpa [IdSubset.placed] using h⟩
  · rw [if_neg hnil, hread, ok_bind]
    exact scatterSubsetRows_stocked hvalues h hin hnodup

/-- What has been filled was read. -/
theorem fillSubset_ok (hreader : Reader width read) (h : fillSubset read width subset out = .ok filled) :
    ∃ values, (read (subset.map Prod.fst)
      (List.replicate (subset.length * width) F32.zero) .default).map Prod.fst = .ok values := by
  rw [fillSubset] at h
  by_cases hnil : subset = []
  · subst hnil
    exact ⟨_, hreader.nothing _ _⟩
  · rw [if_neg hnil] at h
    cases hread : (read (subset.map Prod.fst)
        (List.replicate (subset.length * width) F32.zero) .default).map Prod.fst with
    | error err =>
        rw [hread] at h
        cases h
    | ok values => exact ⟨values, rfl⟩

theorem readSubset_fst (keep : WindowedGatherStats → WindowedGatherStats)
    (stats : WindowedGatherStats) :
    (readSubset read keep width subset out stats).map Prod.fst =
      fillSubset read width subset out := by
  rw [readSubset, fillSubset]
  split_ifs with hnil
  · rfl
  · cases read (subset.map Prod.fst) (List.replicate (subset.length * width) F32.zero) .default with
    | error err => rfl
    | ok part =>
        simp only [Except.map, ok_bind]
        cases scatterSubsetRows (subset.map Prod.snd) part.1 width out with
        | error err => rfl
        | ok filled => rfl

end

/-! ## Putting the halves together -/

section

variable {shape : SketchShape} (m : SketchMatrix shape) {ids : List UInt32} {subset : IdSubset}
  {values out filled : List F32} {placed : List (Nat × List F32)}

/-- A read of some ids into a buffer of its own. -/
def ReadsRows (m : SketchMatrix shape) (read : ReadMany) (ids : List UInt32) : Prop :=
  (read ids (List.replicate (ids.length * shape.width) F32.zero) .default).map Prod.fst =
    .ok (m.rowsOf ids)

/-- The ids with their places, below a bound and from it on. -/
def idsBelow (bound : UInt32) (ids : List UInt32) : IdSubset :=
  ids.zipIdx.filter fun id => id.1 < bound

def idsFrom (bound : UInt32) (ids : List UInt32) : IdSubset :=
  ids.zipIdx.filter fun id => ¬ id.1 < bound

theorem idsBelow_ids (bound : UInt32) (ids : List UInt32) :
    (idsBelow bound ids).map Prod.fst = ids.filter fun id => id < bound := by
  have h := List.filter_map (f := Prod.fst) (p := fun id : UInt32 => decide (id < bound))
    (l := ids.zipIdx)
  rw [List.zipIdx_map_fst] at h
  exact h.symm

theorem idsFrom_ids (bound : UInt32) (ids : List UInt32) :
    (idsFrom bound ids).map Prod.fst = ids.filter fun id => ¬ id < bound := by
  have h := List.filter_map (f := Prod.fst) (p := fun id : UInt32 => decide (¬ id < bound))
    (l := ids.zipIdx)
  rw [List.zipIdx_map_fst] at h
  exact h.symm

theorem halves_positions (bound : UInt32) (ids : List UInt32) :
    ((idsBelow bound ids).map Prod.snd ++ (idsFrom bound ids).map Prod.snd).Perm
      (List.range ids.length) := by
  have hsnd : ids.zipIdx.map Prod.snd = List.range ids.length := by
    rw [List.zipIdx_map_snd, List.range_eq_range']
  have hperm := List.filter_append_perm (fun id : UInt32 × Nat => decide (id.1 < bound)) ids.zipIdx
  rw [← List.map_append, ← hsnd]
  refine List.Perm.map _ ?_
  simp only [idsBelow, idsFrom, decide_not]
  exact hperm

theorem ownId_of_mem {e : UInt32 × Nat} (h : e ∈ ids.zipIdx) : ids[e.2]? = some e.1 :=
  List.mem_zipIdx_iff_getElem?.mp h

/-- The rows of a matrix are the rows of its slots. -/
theorem eq_rowsOf_iff (hvalues : values.length = ids.length * shape.width) :
    values = m.rowsOf ids ↔ ∀ i id, ids[i]? = some id → slot shape.width values i = m.row id.toNat := by
  constructor
  · rintro rfl i id hid
    exact slot_flatMap (fun id _ => m.row_length id.toNat) hid
  · intro h
    rw [← flatMap_slot hvalues, ← flatMap_slot (rowsOf_length m ids)]
    apply List.flatMap_congr
    intro i hi
    have hget := List.getElem?_eq_getElem (List.mem_range.mp hi)
    rw [h i _ hget]
    exact (slot_flatMap (fun id _ => m.row_length id.toNat) hget).symm

/-- What is copied for a subset are the rows of its places exactly if the rows of the subset were
read. -/
theorem placed_rows_iff (hvalues : values.length = subset.length * shape.width)
    (hown : ∀ e ∈ subset, ids[e.2]? = some e.1) :
    (∀ e ∈ subset.placed shape.width values, ∀ id, ids[e.1]? = some id → e.2 = m.row id.toNat) ↔
      values = m.rowsOf (subset.map Prod.fst) := by
  rw [eq_rowsOf_iff m (by rwa [List.length_map])]
  constructor
  · intro h i id hid
    rw [List.getElem?_map, Option.map_eq_some_iff] at hid
    obtain ⟨e, he, rfl⟩ := hid
    exact h (e.2, _) (List.mem_map.mpr ⟨(e, i), List.mem_zipIdx_iff_getElem?.mpr he, rfl⟩) e.1
      (hown e (List.mem_of_getElem? he))
  · intro h placedRow hrow id hid
    obtain ⟨⟨e, i⟩, he, rfl⟩ := List.mem_map.mp hrow
    have hget := List.mem_zipIdx_iff_getElem?.mp he
    rw [hown e (List.mem_of_getElem? hget)] at hid
    obtain rfl := Option.some.inj hid
    apply h
    rw [List.getElem?_map, hget]
    rfl

/-- A full buffer is the matrix exactly if every place holds the row of its id. -/
theorem stocked_eq_rowsOf_iff (h : Stocked shape.width ids.length placed filled)
    (hall : (placed.map Prod.fst).Perm (List.range ids.length)) :
    filled = m.rowsOf ids ↔ ∀ e ∈ placed, ∀ id, ids[e.1]? = some id → e.2 = m.row id.toNat := by
  rw [eq_rowsOf_iff m h.length]
  constructor
  · intro hrows e he id hid
    rw [← hrows e.1 id hid, h.rows e he]
  · intro hrows i id hid
    have hi := (List.getElem?_eq_some_iff.mp hid).1
    obtain ⟨e, he, rfl⟩ := List.mem_map.mp (hall.mem_iff.mpr (List.mem_range.mpr hi))
    rw [h.rows e he, hrows e he id hid]

variable {readPrefix readBacking : ReadMany} (bound : UInt32)

theorem fillHalves_iff (hfront : Reader shape.width readPrefix)
    (hbacking : Reader shape.width readBacking)
    (hout : out.length = ids.length * shape.width) :
    (fillSubset readPrefix shape.width (idsBelow bound ids) out >>= fun out =>
        fillSubset readBacking shape.width (idsFrom bound ids) out) = .ok (m.rowsOf ids) ↔
      ReadsRows m readPrefix ((idsBelow bound ids).map Prod.fst) ∧
        ReadsRows m readBacking ((idsFrom bound ids).map Prod.fst) := by
  have hpositions := halves_positions bound ids
  have hnodup := hpositions.nodup_iff.mpr List.nodup_range
  have hownBelow : ∀ e ∈ idsBelow bound ids, ids[e.2]? = some e.1 := fun e he =>
    ownId_of_mem (List.mem_filter.mp he).1
  have hownFrom : ∀ e ∈ idsFrom bound ids, ids[e.2]? = some e.1 := fun e he =>
    ownId_of_mem (List.mem_filter.mp he).1
  -- with both halves read, the buffer is filled with what was read
  have hfilled : ∀ {low high : List F32},
      (readPrefix ((idsBelow bound ids).map Prod.fst)
        (List.replicate ((idsBelow bound ids).length * shape.width) F32.zero) .default).map
          Prod.fst = .ok low →
      (readBacking ((idsFrom bound ids).map Prod.fst)
        (List.replicate ((idsFrom bound ids).length * shape.width) F32.zero) .default).map
          Prod.fst = .ok high →
      ∃ filled, (fillSubset readPrefix shape.width (idsBelow bound ids) out >>= fun out =>
          fillSubset readBacking shape.width (idsFrom bound ids) out) = .ok filled ∧
        (filled = m.rowsOf ids ↔ low = m.rowsOf ((idsBelow bound ids).map Prod.fst) ∧
          high = m.rowsOf ((idsFrom bound ids).map Prod.fst)) := by
    intro low high hlow hhigh
    have hlowLen := hfront.keepsLength _ _ _ _ (by simp) hlow
    have hhighLen := hbacking.keepsLength _ _ _ _ (by simp) hhigh
    rw [List.length_replicate] at hlowLen hhighLen
    obtain ⟨next, hnext, hstocked⟩ := fillSubset_stocked hlow hfront (.nil hout)
      (fun e he => (List.getElem?_eq_some_iff.mp (hownBelow e he)).1)
      (List.nodup_append.mp hnodup).1
    obtain ⟨filled, hfill, hfull⟩ := fillSubset_stocked hhigh hbacking hstocked
      (fun e he => (List.getElem?_eq_some_iff.mp (hownFrom e he)).1)
      (by rwa [List.nil_append, placed_positions])
    refine ⟨filled, by rw [hnext, ok_bind, hfill], ?_⟩
    rw [List.nil_append] at hfull
    rw [stocked_eq_rowsOf_iff m hfull
        (by rwa [List.map_append, placed_positions, placed_positions]),
      List.forall_mem_append, placed_rows_iff m hlowLen hownBelow,
      placed_rows_iff m hhighLen hownFrom]
  unfold ReadsRows
  rw [List.length_map, List.length_map]
  constructor
  · intro h
    cases hnext : fillSubset readPrefix shape.width (idsBelow bound ids) out with
    | error err =>
        rw [hnext] at h
        cases h
    | ok next =>
        obtain ⟨low, hlow⟩ := fillSubset_ok hfront hnext
        rw [hnext, ok_bind] at h
        obtain ⟨high, hhigh⟩ := fillSubset_ok hbacking h
        obtain ⟨filled, hfill, hiff⟩ := hfilled hlow hhigh
        rw [hnext, ok_bind, h] at hfill
        obtain ⟨rfl, rfl⟩ := hiff.mp (Except.ok.inj hfill).symm
        exact ⟨hlow, hhigh⟩
  · rintro ⟨hlow, hhigh⟩
    obtain ⟨filled, hfill, hiff⟩ := hfilled hlow hhigh
    rw [hfill, hiff.mpr ⟨rfl, rfl⟩]

end

end ForgeANN
