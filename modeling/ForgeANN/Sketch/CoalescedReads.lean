-- SUMMARY: Runs of consecutive ids read at once, and the run that goes on behind the last id.
import ForgeANN.Sketch.DiskReads

/-!
# Coalesced reads

A run goes on with the id that is one more than the one before, in `u32`
arithmetic: after the last id there comes the first one.
-/
namespace ForgeANN

open Lib

/-- No run goes on behind the last id. -/
def RunsEnd (ids : List UInt32) : Prop :=
  ∀ run ∈ DiskSketchStore.coalescedRuns ids, run.first.toNat + run.items.length ≤ 2 ^ 32

/-! ## The runs -/

section

variable {ids : List UInt32} {run : GreedyRun UInt32 UInt32}

theorem flatMap_coalescedRuns (ids : List UInt32) :
    (DiskSketchStore.coalescedRuns ids).flatMap GreedyRun.items = ids :=
  flatMap_greedyRuns ids

/-- The ids of a run count up from its first one. -/
theorem coalescedRuns_items (h : run ∈ DiskSketchStore.coalescedRuns ids) {k : Nat}
    (hk : k < run.items.length) : run.items[k]? = some (run.first + UInt32.ofNat k) := by
  have hcount : (∀ k < run.items.length, run.items[k]? =
      some (run.items.headD 0 + UInt32.ofNat k)) ∧ run.items.getLast? = some run.state := by
    refine greedyRuns_rule (P := fun items state => (∀ k < items.length, items[k]? =
      some (items.headD 0 + UInt32.ofNat k)) ∧ items.getLast? = some state) ?_ ?_ h
    · intro id
      refine ⟨fun k hk => ?_, rfl⟩
      obtain rfl : k = 0 := Nat.lt_one_iff.mp hk
      exact congrArg some (UInt32.add_zero id).symm
    · intro taken state id next ⟨hitems, hlast⟩ hjoin
      split_ifs at hjoin with hnext
      obtain rfl := Option.some.inj hjoin
      have hne : taken ≠ [] := by
        rintro rfl
        cases hlast
      have hhead : (taken ++ [id]).headD 0 = taken.headD 0 := by
        cases taken with
        | nil => exact absurd rfl hne
        | cons first more => rfl
      refine ⟨fun k hk => ?_, List.getLast?_concat ..⟩
      rw [hhead]
      rw [List.length_append, List.length_singleton] at hk
      by_cases hold : k < taken.length
      · rw [List.getElem?_append_left hold]
        exact hitems k hold
      · obtain rfl : k = taken.length := by omega
        have hpos := List.length_pos_of_ne_nil hne
        have hprev := hitems (taken.length - 1) (by omega)
        rw [← List.getLast?_eq_getElem?, hlast] at hprev
        rw [List.getElem?_concat_length, hnext, Option.some.inj hprev, UInt32.add_assoc]
        have hone : UInt32.ofNat (taken.length - 1) + 1 = UInt32.ofNat taken.length := by
          rw [← UInt32.ofNat_one, ← UInt32.ofNat_add, Nat.sub_add_cancel hpos]
        rw [hone]
  exact hcount.1 k hk

end

/-! ## The loop over the runs -/

section

variable {shape : SketchShape} (m : SketchMatrix shape) {cfg : DirectIoConfig} (path : String)
  (reads : ReadAt m.file) (ring : RingReads m.file) {runs : List (GreedyRun UInt32 UInt32)}
  {runStart : Nat} {out filled : List F32}

/-- The rows that a run reads. -/
def SketchMatrix.runRows (m : SketchMatrix shape) (run : GreedyRun UInt32 UInt32) : List F32 :=
  m.rowsFrom run.first.toNat run.items.length

theorem copySlice_front {rows : List F32} {start len : Nat} (hrows : rows.length = len)
    (h : start + len ≤ out.length) :
    copySlice rows 0 out start len = .ok (out.take start ++ rows ++ out.drop (start + len)) := by
  rw [copySlice, if_pos ⟨by omega, h⟩, List.drop_zero, List.take_of_length_le (Nat.le_of_eq hrows)]

/-- If every run is read, `out` is filled from `runStart` on. -/
theorem readRuns_eq
    (hout : out.length = (runStart + (runs.flatMap GreedyRun.items).length) * shape.width)
    (hread : ∀ run ∈ runs, (m.disk path cfg reads ring).readSketchRangeInto run.first.toNat
      run.items.length = .ok (m.runRows run)) :
    (m.disk path cfg reads ring).readRuns runs runStart out =
      .ok (out.take (runStart * shape.width) ++ runs.flatMap m.runRows) := by
  induction runs generalizing runStart out with
  | nil =>
      rw [List.flatMap_nil, List.length_nil, Nat.add_zero] at hout
      rw [DiskSketchStore.readRuns, List.take_of_length_le (Nat.le_of_eq hout), List.flatMap_nil,
        List.append_nil]
  | cons run runs ih =>
      have hlen : (m.runRows run).length = run.items.length * shape.width := m.rowsFrom_length ..
      rw [List.flatMap_cons, List.length_append, ← Nat.add_assoc] at hout
      have hfits : runStart * shape.width + run.items.length * shape.width ≤ out.length := by
        rw [hout, ← Nat.add_mul]
        exact Nat.mul_le_mul_right _ (Nat.le_add_right ..)
      have htaken : (out.take (runStart * shape.width) ++ m.runRows run).length =
          (runStart + run.items.length) * shape.width := by
        rw [List.length_append, List.length_take_of_le (by omega), hlen, Nat.add_mul]
      unfold DiskSketchStore.readRuns
      simp only [SketchMatrix.disk_width]
      rw [hread run List.mem_cons_self, ok_bind, copySlice_front hlen hfits, ok_bind,
        ih _ fun r hr => hread r (List.mem_cons_of_mem _ hr), List.take_left' htaken,
        List.append_assoc, List.flatMap_cons]
      rw [List.length_append, htaken, List.length_drop, hout]
      simp only [Nat.add_mul]
      omega

/-- What has been filled was read. -/
theorem readRuns_ok (h : (m.disk path cfg reads ring).readRuns runs runStart out = .ok filled) :
    ∀ run ∈ runs, (m.disk path cfg reads ring).readSketchRangeInto run.first.toNat
      run.items.length = .ok (m.runRows run) := by
  induction runs generalizing runStart out with
  | nil => exact fun run hrun => nomatch hrun
  | cons run runs ih =>
      unfold DiskSketchStore.readRuns at h
      have hread := m.readSketchRangeInto_eq path cfg reads ring run.first.toNat run.items.length
      dsimp only at h
      split_ifs at hread with hcond
      · rw [hread, ok_bind] at h
        cases hcopy : copySlice (m.rowsFrom run.first.toNat run.items.length) 0 out
            (runStart * (m.disk path cfg reads ring).width)
            (run.items.length * (m.disk path cfg reads ring).width) with
        | error err =>
            rw [hcopy] at h
            cases h
        | ok next =>
            rw [hcopy, ok_bind] at h
            intro r hr
            rcases List.mem_cons.mp hr with rfl | hr
            · exact hread
            · exact ih h r hr
      · rw [hread] at h
        cases h

/-! ## Rows of the runs -/

variable {ids : List UInt32} {run : GreedyRun UInt32 UInt32}

theorem toNat_add_ofNat (first : UInt32) (k : Nat) :
    (first + UInt32.ofNat k).toNat = (first.toNat + k) % 2 ^ 32 := by
  rw [UInt32.toNat_add, UInt32.toNat_ofNat', Nat.add_mod_mod]

theorem runRows_eq (hrun : run ∈ DiskSketchStore.coalescedRuns ids)
    (hends : run.first.toNat + run.items.length ≤ 2 ^ 32) :
    m.runRows run = m.rowsOf run.items := by
  have hitems : run.items = (List.range run.items.length).map fun k =>
      run.first + UInt32.ofNat k := by
    apply List.ext_getElem?
    intro k
    rw [List.getElem?_map]
    by_cases hk : k < run.items.length
    · rw [coalescedRuns_items hrun hk, List.getElem?_range hk]
      rfl
    · rw [List.getElem?_eq_none (Nat.le_of_not_lt hk), List.getElem?_eq_none (by simpa using hk)]
      rfl
  rw [SketchMatrix.rowsOf, hitems, List.flatMap_map, SketchMatrix.runRows, SketchMatrix.rowsFrom]
  apply List.flatMap_congr
  intro k hk
  have hlt := List.mem_range.mp hk
  rw [toNat_add_ofNat, Nat.mod_eq_of_lt (by omega)]

theorem run_inside (hids : InStore shape ids) (hrun : run ∈ DiskSketchStore.coalescedRuns ids)
    (hends : run.first.toNat + run.items.length ≤ 2 ^ 32) :
    run.first.toNat + run.items.length ≤ shape.rows := by
  have hpos : 0 < run.items.length := Nat.succ_pos _
  have hlast := coalescedRuns_items hrun (Nat.sub_lt hpos Nat.one_pos)
  have hmem : run.first + UInt32.ofNat (run.items.length - 1) ∈ ids := by
    rw [← flatMap_coalescedRuns ids]
    exact List.mem_flatMap_of_mem hrun (List.mem_of_getElem? hlast)
  have hlt := hids _ hmem
  rw [toNat_add_ofNat, Nat.mod_eq_of_lt (by omega)] at hlt
  omega

theorem rowsOf_flatMap (runs : List (GreedyRun UInt32 UInt32)) :
    m.rowsOf (runs.flatMap GreedyRun.items) = runs.flatMap fun run => m.rowsOf run.items :=
  List.flatMap_assoc ..

theorem rowsOf_length (ids : List UInt32) : (m.rowsOf ids).length = ids.length * shape.width :=
  length_flatMap_of_width fun _ _ => m.row_length _

/-- A run that goes on behind the last id reads a row without an id for the row of id zero. -/
theorem ends_of_runRows (hids : InStore shape ids)
    (hrun : run ∈ DiskSketchStore.coalescedRuns ids)
    (h : (tellingMatrix shape).runRows run = (tellingMatrix shape).rowsOf run.items) :
    run.first.toNat + run.items.length ≤ 2 ^ 32 := by
  by_contra hpast
  have hfirst := run.first.toNat_lt
  have hk : 2 ^ 32 - run.first.toNat < run.items.length := by omega
  have hitem := coalescedRuns_items hrun hk
  have hzero : (run.first + UInt32.ofNat (2 ^ 32 - run.first.toNat)).toNat = 0 := by
    rw [toNat_add_ofNat, Nat.add_sub_cancel' (Nat.le_of_lt hfirst), Nat.mod_self]
  have hmem : run.first + UInt32.ofNat (2 ^ 32 - run.first.toNat) ∈ ids := by
    rw [← flatMap_coalescedRuns ids]
    exact List.mem_flatMap_of_mem hrun (List.mem_of_getElem? hitem)
  have hslot := congrArg (fun rows => slot shape.width rows (2 ^ 32 - run.first.toNat)) h
  rw [SketchMatrix.runRows, SketchMatrix.rowsFrom,
    slot_served (tellingMatrix shape).row_length _ hk, SketchMatrix.rowsOf,
    slot_flatMap (fun id _ => (tellingMatrix shape).row_length id.toNat) hitem, hzero,
    Nat.add_sub_cancel' (Nat.le_of_lt hfirst)] at hslot
  have hrows := hids _ hmem
  rw [hzero] at hrows
  exact tellingMatrix_row_ne hrows (Nat.two_pow_pos 32) (Nat.le_refl _) hslot

end

theorem diskCoalesced_reads {shape : SketchShape} {cfg : DirectIoConfig} {ids : List UInt32} :
    ReadsWhen shape cfg ids (fun disk out => disk.readRowsInto ids out) (RunsEnd ids) where
  ok hids hends m path reads ring out hout := by
    have hflat := flatMap_coalescedRuns ids
    have hread : ∀ run ∈ DiskSketchStore.coalescedRuns ids,
        (m.disk path cfg reads ring).readSketchRangeInto run.first.toNat run.items.length =
          .ok (m.runRows run) := by
      intro run hrun
      rw [m.readSketchRangeInto_eq, if_pos (.inr (run_inside hids hrun (hends run hrun)))]
      rfl
    rw [DiskSketchStore.readRowsInto,
      readRuns_eq m path reads ring (by rw [hflat, Nat.zero_add, hout]) hread, Nat.zero_mul,
      List.take_zero, List.nil_append]
    conv_rhs => rw [← hflat, rowsOf_flatMap]
    rw [List.flatMap_congr fun run hrun => runRows_eq m hrun (hends run hrun)]
  told hids path reads ring out hout h run hrun := by
    have hflat := flatMap_coalescedRuns ids
    have hread := readRuns_ok _ path reads ring h
    rw [DiskSketchStore.readRowsInto,
      readRuns_eq _ path reads ring (by rw [hflat, Nat.zero_add, hout]) hread, Nat.zero_mul,
      List.take_zero, List.nil_append] at h
    have hrows := Except.ok.inj h
    conv at hrows => rhs; rw [← hflat, rowsOf_flatMap]
    apply ends_of_runRows hids hrun
    refine flatMap_inj_of_length (fun run _ => ?_) hrows run hrun
    rw [rowsOf_length, SketchMatrix.runRows, SketchMatrix.rowsFrom_length]

end ForgeANN
