-- SUMMARY: Sketches behind a resident prefix, in a file and in memory agree, exactly when no window wraps.
import ForgeANN.Sketch.PrefixReads

/-!
# Reads agree

All reads of the file and of the accessor with a resident prefix, against the
rows of the store in memory.
-/
namespace ForgeANN

open Lib ResidentPrefixSketchAccessor

/-! ## Readers -/

section

variable {shape : SketchShape} (m : SketchMatrix shape) {ids : List UInt32} {cfg : DirectIoConfig}
  (path : String) (reads : ReadAt m.file) (ring : RingReads m.file) (sort : RowSort)
  {prefixRows : Nat} {out filled : List F32}

theorem prefix_windowed (options : WindowedGatherOptions) (stats : WindowedGatherStats) :
    ((m.prefixStore prefixRows).readRowsWindowedIntoStats sort ids out options stats).map Prod.fst =
      readParts (readingWindow (m.prefixStore prefixRows).slice) shape.width
        (windowedParts shape sort ids options) out := by
  unfold SketchStore.readRowsWindowedIntoStats
  by_cases hids : ids = []
  · subst hids
    rw [if_pos rfl, windowedParts_nil]
    rfl
  · have hplan : readWindows (m.prefixStore prefixRows).slice
        (buildGatherPlan sort ids (shape.width * F32_BYTES) options stats).1 shape.width out =
      readParts (readingWindow (m.prefixStore prefixRows).slice) shape.width
        (windowedParts shape sort ids options) out := readWindows_gatherPlan ..
    have hwidth : (m.prefixStore prefixRows).width = shape.width := rfl
    rw [if_neg hids, ← hplan]
    simp only [hwidth]
    cases readWindows _ _ _ _ with
    | error err => rfl
    | ok filled => rfl

theorem reader_prefixWindowed (options : WindowedGatherOptions) :
    Reader shape.width fun ids out =>
      (m.prefixStore prefixRows).readRowsWindowedIntoStats sort ids out options where
  keepsLength _ _ _ _ _ h := by
    rw [prefix_windowed] at h
    exact readParts_length shape.width_pos m.row_length (m.serves_prefixStore prefixRows) h
  nothing _ _ := rfl

theorem reader_diskWindowed (options : WindowedGatherOptions) :
    Reader shape.width fun ids out =>
      (m.disk path cfg reads ring).readRowsWindowedIntoStats sort ids out options where
  keepsLength _ _ stats _ hout h := by
    rw [disk_windowed m path reads ring sort options stats hout] at h
    exact readParts_length shape.width_pos m.row_length (m.serves_disk path cfg reads ring) h
  nothing _ _ := rfl

theorem disk_readBoundedPlan_length {planner : BoundedReadPlanner}
    (h : (m.disk path cfg reads ring).readBoundedPlan (boundedSketchPlan cfg sort ids planner) out =
      .ok filled) : filled.length = out.length := by
  unfold boundedSketchPlan at h
  split_ifs at h
  · exact readParts_length shape.width_pos m.row_length (serves_windowRead m path reads ring _)
      ((disk_readBoundedPlan_ok_iff m path reads ring).mp h)
  · exact readParts_length shape.width_pos m.row_length (serves_windowRead m path reads ring _)
      ((disk_readBoundedPlan_ok_iff m path reads ring).mp h)

theorem reader_diskBounded (maxWindowBytes : Nat) (amplification : Float) :
    Reader shape.width fun ids out => (m.disk path cfg reads ring).readRowsBoundedIntoStats sort ids
      out maxWindowBytes amplification where
  keepsLength _ _ stats _ hout h :=
    disk_readBoundedPlan_length m path reads ring sort
      ((disk_bounded m path reads ring stats hout).mp h)
  nothing _ _ := rfl

/-! ## The resident half -/

variable {options : WindowedGatherOptions}

theorem prefixWindowed_readsRows (hids : ∀ id ∈ ids, id.toNat < prefixRows)
    (hspans : options.WindowsSpan ids (shape.width * F32_BYTES)) :
    ReadsRows m (fun ids out => (m.prefixStore prefixRows).readRowsWindowedIntoStats sort ids out
      options) ids := by
  unfold ReadsRows
  rw [prefix_windowed]
  refine readParts_windowed m (List.length_replicate ..) (m.serves_prefixStore prefixRows) hids
    (fun window hwindow => ?_) hspans
  rw [readingWindow, m.prefixStore_slice, if_pos hwindow]
  exact ⟨_, rfl⟩

theorem windowsSpan_of_readsRows (hids : ∀ id ∈ ids, id.toNat < shape.rows)
    (h : ReadsRows (tellingMatrix shape) (fun ids out =>
      ((tellingMatrix shape).prefixStore prefixRows).readRowsWindowedIntoStats sort ids out options)
        ids) : options.WindowsSpan ids (shape.width * F32_BYTES) := by
  unfold ReadsRows at h
  rw [prefix_windowed] at h
  exact windowsSpan_of_readParts (List.length_replicate ..)
    ((tellingMatrix shape).serves_prefixStore prefixRows) hids h

/-- Sorted ids below a bound span their windows, for the last id is not among them. -/
theorem windowsSpan_below {bound : UInt32} {rowBytes : Nat} (hsort : options.sortIds = true)
    (hids : ∀ id ∈ ids, id < bound) : options.WindowsSpan ids rowBytes := by
  apply windowsSpan_of_sortIds hsort
  rintro ⟨-, hlast⟩
  have hlt := UInt32.lt_iff_toNat_lt.mp (hids _ hlast)
  have hbound := bound.toNat_lt
  have hmax : (2 ^ 32 - 1 : UInt32).toNat = 2 ^ 32 - 1 := rfl
  omega

end

/-! ## Both halves -/

section

variable {shape : SketchShape} {ids : List UInt32} {cfg : DirectIoConfig} {prefixRows : Nat}

/-- The accessor with its first rows in memory. -/
def SketchMatrix.accessor (m : SketchMatrix shape) (prefixRows : Nat) (path : String)
    (cfg : DirectIoConfig) (reads : ReadAt m.file) (ring : RingReads m.file) :
    ResidentPrefixSketchAccessor := ⟨m.prefixStore prefixRows, m.disk path cfg reads ring⟩

theorem fromDiskPrefix_eq (m : SketchMatrix shape) (path : String) (reads : ReadAt m.file)
    (ring : RingReads m.file) (hle : prefixRows ≤ shape.rows) :
    fromDiskPrefix (m.disk path cfg reads ring) prefixRows =
      .ok (m.accessor prefixRows path cfg reads ring) := by
  have hfits : ¬ (m.disk path cfg reads ring).rows < prefixRows := Nat.not_lt.mpr hle
  rw [fromDiskPrefix, if_neg hfits]
  by_cases hpos : 0 < prefixRows
  · rw [if_pos hpos, m.readSketchRangeInto_eq, if_pos (.inr (by omega))]
    rfl
  · obtain rfl := Nat.eq_zero_of_not_pos hpos
    rfl

/-- A read of the file through an accessor with a resident prefix. -/
def behindPrefix (prefixRows : Nat)
    (read : ResidentPrefixSketchAccessor → List F32 → AnnResult (List F32))
    (disk : DiskSketchStore) (out : List F32) : AnnResult (List F32) := do
  let accessor ← fromDiskPrefix disk prefixRows
  read accessor out

theorem bind_map_fst {α β σ : Type} (x : AnnResult (α × σ)) {f : α × σ → AnnResult (β × σ)}
    {g : α → AnnResult β} (h : ∀ a, (f a).map Prod.fst = g a.1) :
    (x >>= f).map Prod.fst = x.map Prod.fst >>= g := by
  cases x with
  | error err => rfl
  | ok a => exact h a

/-- A planned read, when some rows are resident: the two halves, one after the other. -/
theorem readSplit_fst (accessor : ResidentPrefixSketchAccessor) {readPrefix readBacking : ReadMany}
    {out : List F32} (stats : WindowedGatherStats) (hids : ids ≠ [])
    (hout : out.length = ids.length * accessor.backing.width)
    (hbound : UInt32.ofNat accessor.prefixRows ≠ 0) :
    (accessor.readSplit readPrefix readBacking ids out stats).map Prod.fst =
      (fillSubset readPrefix accessor.backing.width
          (idsBelow (UInt32.ofNat accessor.prefixRows) ids) out >>= fun out =>
        fillSubset readBacking accessor.backing.width
          (idsFrom (UInt32.ofNat accessor.prefixRows) ids) out) := by
  have hcheck : accessor.checkMatrix ids out = .ok () := by
    rw [checkMatrix, if_neg fun hne => hne hout]
  rw [readSplit, if_neg hids, hcheck, ok_bind]
  dsimp only
  rw [if_neg hbound, bind_map_fst _ fun a => readSubset_fst .., readSubset_fst]
  rfl

section

variable {readPrefix : SketchStore → ReadMany} {readBacking : DiskSketchStore → ReadMany}
  {condPrefix condBacking : Prop}

/-- A planned read is right exactly if both halves are. -/
theorem readSplit_iff (m : SketchMatrix shape) (path : String) (reads : ReadAt m.file)
    (ring : RingReads m.file) (hle : prefixRows ≤ shape.rows) (stats : WindowedGatherStats)
    {out : List F32} (hfront : Reader shape.width (readPrefix (m.prefixStore prefixRows)))
    (hbacking : Reader shape.width (readBacking (m.disk path cfg reads ring)))
    (hout : out.length = ids.length * shape.width) :
    ∃ stats' out',
      out'.length = (ids.filter fun id => ¬ id < UInt32.ofNat prefixRows).length * shape.width ∧
      (behindPrefix prefixRows (fun accessor out => (accessor.readSplit
          (readPrefix accessor.prefixStore) (readBacking accessor.backing) ids out stats).map
            Prod.fst) (m.disk path cfg reads ring) out = .ok (m.rowsOf ids) ↔
        ReadsRows m (readPrefix (m.prefixStore prefixRows))
            (ids.filter fun id => id < UInt32.ofNat prefixRows) ∧
          (readBacking (m.disk path cfg reads ring)
            (ids.filter fun id => ¬ id < UInt32.ofNat prefixRows) out' stats').map Prod.fst =
              .ok (m.rowsOf (ids.filter fun id => ¬ id < UInt32.ofNat prefixRows))) := by
  have hrows : (m.accessor prefixRows path cfg reads ring).prefixRows = prefixRows :=
    m.prefixStore_rows prefixRows
  have hnil : ReadsRows m (readPrefix (m.prefixStore prefixRows)) [] := by
    have hzeros : List.replicate (([] : List UInt32).length * shape.width) F32.zero = [] := by
      rw [List.length_nil, Nat.zero_mul, List.replicate_zero]
    rw [ReadsRows, hzeros]
    exact hfront.nothing [] _
  rw [behindPrefix, fromDiskPrefix_eq m path reads ring hle, ok_bind]
  by_cases hids : ids = []
  · subst hids
    obtain rfl := List.eq_nil_of_length_eq_zero (hout.trans (Nat.zero_mul _))
    exact ⟨stats, [], (Nat.zero_mul _).symm, iff_of_true rfl ⟨hnil, hbacking.nothing ..⟩⟩
  · by_cases hbound : UInt32.ofNat prefixRows = 0
    · -- no id is resident
      have hbelow : ids.filter (fun id => id < UInt32.ofNat prefixRows) = [] := by
        rw [hbound]
        exact List.filter_eq_nil_iff.mpr fun id _ => by simp
      have hfrom : ids.filter (fun id => ¬ id < UInt32.ofNat prefixRows) = ids := by
        rw [hbound]
        exact List.filter_eq_self.mpr fun id _ => by simp
      have hcheck : (m.accessor prefixRows path cfg reads ring).checkMatrix ids out = .ok () := by
        rw [checkMatrix, if_neg fun hne => hne hout]
      refine ⟨stats, out, by rwa [hfrom], ?_⟩
      rw [hbelow, hfrom, readSplit, if_neg hids, hcheck, ok_bind]
      dsimp only
      rw [hrows, if_pos hbound, and_iff_right hnil]
      rfl
    · refine ⟨.default, List.replicate
        ((ids.filter fun id => ¬ id < UInt32.ofNat prefixRows).length * shape.width) F32.zero,
        List.length_replicate .., ?_⟩
      have hiff := fillHalves_iff m (UInt32.ofNat prefixRows) hfront hbacking hout
      rw [idsBelow_ids, idsFrom_ids] at hiff
      rw [readSplit_fst _ stats hids hout (by rwa [hrows]), hrows]
      exact hiff

/-- A planned read is right if both halves are. -/
theorem behindPrefix_reads (readPrefix : SketchStore → ReadMany)
    (readBacking : DiskSketchStore → ReadMany) (hle : prefixRows ≤ shape.rows) (stats : WindowedGatherStats)
    (hreadPrefix : ∀ m : SketchMatrix shape,
      Reader shape.width (readPrefix (m.prefixStore prefixRows)))
    (hreadBacking : ∀ (m : SketchMatrix shape) path reads ring,
      Reader shape.width (readBacking (m.disk path cfg reads ring)))
    (hfront : condPrefix → ∀ m : SketchMatrix shape,
      ReadsRows m (readPrefix (m.prefixStore prefixRows))
        (ids.filter fun id => id < UInt32.ofNat prefixRows))
    (hfrontTold : InStore shape ids → ReadsRows (tellingMatrix shape)
      (readPrefix ((tellingMatrix shape).prefixStore prefixRows))
        (ids.filter fun id => id < UInt32.ofNat prefixRows) → condPrefix)
    (hbacking : ∀ stats, ReadsWhen shape cfg
      (ids.filter fun id => ¬ id < UInt32.ofNat prefixRows) (fun disk out =>
        (readBacking disk (ids.filter fun id => ¬ id < UInt32.ofNat prefixRows) out stats).map
          Prod.fst) condBacking) :
    ReadsWhen shape cfg ids (behindPrefix prefixRows fun accessor out =>
      (accessor.readSplit (readPrefix accessor.prefixStore) (readBacking accessor.backing) ids out
        stats).map Prod.fst) (condPrefix ∧ condBacking) := by
  have hsplit : ∀ (m : SketchMatrix shape) path reads ring out,
      out.length = ids.length * shape.width → ∃ stats' out',
        out'.length = (ids.filter fun id => ¬ id < UInt32.ofNat prefixRows).length * shape.width ∧
        (behindPrefix prefixRows (fun accessor out => (accessor.readSplit
            (readPrefix accessor.prefixStore) (readBacking accessor.backing) ids out stats).map
              Prod.fst) (m.disk path cfg reads ring) out = .ok (m.rowsOf ids) ↔
          ReadsRows m (readPrefix (m.prefixStore prefixRows))
              (ids.filter fun id => id < UInt32.ofNat prefixRows) ∧
            (readBacking (m.disk path cfg reads ring)
              (ids.filter fun id => ¬ id < UInt32.ofNat prefixRows) out' stats').map Prod.fst =
                .ok (m.rowsOf (ids.filter fun id => ¬ id < UInt32.ofNat prefixRows))) := by
    intro m path reads ring out hout
    exact readSplit_iff m path reads ring hle stats (hreadPrefix m) (hreadBacking m path reads ring)
      hout
  constructor
  · rintro hids ⟨hcondPrefix, hcondBacking⟩ m path reads ring out hout
    obtain ⟨stats', out', hout', hiff⟩ := hsplit m path reads ring out hout
    exact hiff.mpr ⟨hfront hcondPrefix m, (hbacking stats').ok
      (fun id hid => hids id (List.mem_filter.mp hid).1) hcondBacking m path reads ring out' hout'⟩
  · intro hids path reads ring out hout h
    obtain ⟨stats', out', hout', hiff⟩ := hsplit _ path reads ring out hout
    obtain ⟨hlow, hhigh⟩ := hiff.mp h
    exact ⟨hfrontTold hids hlow, (hbacking stats').told
      (fun id hid => hids id (List.mem_filter.mp hid).1) path reads ring out' hout' hhigh⟩

end

end

/-! ## Row by row -/

section

variable {shape : SketchShape} (m : SketchMatrix shape) {ids : List UInt32} {cfg : DirectIoConfig}
  (path : String) (reads : ReadAt m.file) (ring : RingReads m.file) {prefixRows : Nat}

theorem accessor_rowCopyInto {idx : Nat} (hidx : idx < shape.rows) {dst : List F32}
    (hdst : dst.length = shape.width) :
    (m.accessor prefixRows path cfg reads ring).rowCopyInto idx dst = .ok (m.row idx) := by
  have hrows : (m.accessor prefixRows path cfg reads ring).prefixRows = prefixRows :=
    m.prefixStore_rows prefixRows
  rw [rowCopyInto, hrows]
  split_ifs with hresident
  · have hwidth : ¬ dst.length ≠ (m.prefixStore prefixRows).width := fun hne => hne hdst
    have hrow := prefixStore_row m prefixRows idx
    rw [if_pos hresident] at hrow
    change (m.prefixStore prefixRows).rowCopyInto idx dst = _
    rw [SketchStore.rowCopyInto, if_neg hwidth, hrow]
  · exact disk_rowCopyInto m path reads ring hidx hdst

/-- The rows are filled in from the front on. -/
theorem accessor_fill {out : List F32} {k : Nat} (hids : InStore shape ids)
    (hout : out.length = (k + ids.length) * shape.width) :
    (ids.zipIdx k).foldlM (fun out e => do
        let values ← (m.accessor prefixRows path cfg reads ring).rowCopyInto e.1.toNat
          ((out.drop (e.2 * shape.width)).take shape.width)
        copySlice values 0 out (e.2 * shape.width) shape.width) out =
      .ok (out.take (k * shape.width) ++ m.rowsOf ids) := by
  induction ids generalizing k out with
  | nil =>
      rw [List.length_nil, Nat.add_zero] at hout
      rw [List.zipIdx_nil, List.foldlM_nil, List.take_of_length_le (Nat.le_of_eq hout)]
      exact congrArg Except.ok (List.append_nil out).symm
  | cons id ids ih =>
      have hslot : k * shape.width + shape.width ≤ out.length := by
        rw [hout]
        exact slot_bound shape.width (Nat.lt_add_of_pos_right (Nat.succ_pos _))
      have hdst : ((out.drop (k * shape.width)).take shape.width).length = shape.width := by
        rw [List.length_take, List.length_drop]
        omega
      have hfilled : (out.take (k * shape.width) ++ m.row id.toNat).length =
          (k + 1) * shape.width := by
        rw [List.length_append, List.length_take_of_le (by omega), m.row_length, Nat.succ_mul]
      rw [List.zipIdx_cons, List.foldlM_cons,
        accessor_rowCopyInto m path reads ring (hids id List.mem_cons_self) hdst, ok_bind,
        copySlice_front (m.row_length _) hslot, ok_bind,
        ih (fun i hi => hids i (List.mem_cons_of_mem _ hi)) _, List.take_left' hfilled,
        List.append_assoc]
      · rfl
      · rw [List.length_append, hfilled, List.length_drop, hout, List.length_cons]
        simp only [Nat.add_mul]
        omega

end

theorem below_lt (prefixRows : Nat) (ids : List UInt32) :
    ∀ id ∈ ids.filter (fun id => id < UInt32.ofNat prefixRows), id.toNat < prefixRows := by
  intro id hid
  have hlt := UInt32.lt_iff_toNat_lt.mp (of_decide_eq_true (List.mem_filter.mp hid).2)
  rw [UInt32.toNat_ofNat'] at hlt
  exact Nat.lt_of_lt_of_le hlt (Nat.mod_le ..)

section

variable {shape : SketchShape} {ids : List UInt32} {cfg : DirectIoConfig} {prefixRows : Nat}
  (hle : prefixRows ≤ shape.rows)
include hle

theorem prefixRow_reads : ReadsWhen shape cfg ids (behindPrefix prefixRows fun accessor _ =>
    rowByRow (fun idx => accessor.rowCopyInto idx
      (List.replicate accessor.backing.width F32.zero)) ids) True where
  ok hids _ m path reads ring out _ := by
    rw [behindPrefix, fromDiskPrefix_eq m path reads ring hle, ok_bind]
    apply rowByRow_eq
    intro id hid
    exact accessor_rowCopyInto m path reads ring (hids id hid) (List.length_replicate ..)
  told _ _ _ _ _ _ _ := trivial

theorem prefixRows_reads : ReadsWhen shape cfg ids (behindPrefix prefixRows fun accessor out =>
    accessor.readRowsInto ids out) True where
  ok hids _ m path reads ring out hout := by
    have hcheck : (m.accessor prefixRows path cfg reads ring).checkMatrix ids out = .ok () := by
      rw [checkMatrix, if_neg fun hne => hne hout]
    have hlen : out.length = (0 + ids.length) * shape.width := by rw [hout, Nat.zero_add]
    rw [behindPrefix, fromDiskPrefix_eq m path reads ring hle, ok_bind, readRowsInto, hcheck, ok_bind]
    refine (accessor_fill m path reads ring hids hlen).trans ?_
    rw [Nat.zero_mul, List.take_zero, List.nil_append]
  told _ _ _ _ _ _ _ := trivial

theorem prefixWindowed_reads (sort : RowSort) (options : WindowedGatherOptions)
    (stats : WindowedGatherStats) :
    ReadsWhen shape cfg ids (behindPrefix prefixRows fun accessor out =>
        (accessor.readRowsWindowedIntoStats sort ids out options stats).map Prod.fst)
      (options.WindowsSpan (ids.filter fun id => id < UInt32.ofNat prefixRows)
          (shape.width * F32_BYTES) ∧
        options.WindowsSpan (ids.filter fun id => ¬ id < UInt32.ofNat prefixRows)
          (shape.width * F32_BYTES)) := by
  refine behindPrefix_reads
    (fun store ids out => store.readRowsWindowedIntoStats sort ids out options)
    (fun disk ids out => disk.readRowsWindowedIntoStats sort ids out options) hle stats
    ?_ ?_ ?_ ?_ ?_
  · exact fun m => reader_prefixWindowed m sort options
  · exact fun m path reads ring => reader_diskWindowed m path reads ring sort options
  · exact fun hspans m => prefixWindowed_readsRows m sort (below_lt prefixRows ids) hspans
  · exact fun hids h => windowsSpan_of_readsRows sort
      (fun id hid => hids id (List.mem_filter.mp hid).1) h
  · exact fun stats => diskWindowed_reads sort options stats

/-- The resident half of a bounded read is sorted and has no last id, so it needs nothing. -/
theorem prefixBounded_reads (sort : RowSort) (maxWindowBytes : Nat) (amplification : Float)
    (stats : WindowedGatherStats) :
    ReadsWhen shape cfg ids (behindPrefix prefixRows fun accessor out =>
        (accessor.readRowsBoundedIntoStats sort ids out maxWindowBytes amplification stats).map
          Prod.fst)
      (True ∧ BoundedSafe (shape.width * F32_BYTES) cfg (boundedSketchPlan cfg sort
        (ids.filter fun id => ¬ id < UInt32.ofNat prefixRows)
        ⟨shape.width * F32_BYTES, maxWindowBytes, amplification⟩)) := by
  refine behindPrefix_reads
    (fun store ids out => store.readRowsBoundedIntoStats sort ids out maxWindowBytes)
    (fun disk ids out => disk.readRowsBoundedIntoStats sort ids out maxWindowBytes amplification)
    hle stats ?_ ?_ ?_ ?_ ?_
  · exact fun m => reader_prefixWindowed m sort (SketchStore.boundedOptions shape.width maxWindowBytes)
  · exact fun m path reads ring =>
      reader_diskBounded m path reads ring sort maxWindowBytes amplification
  · intro _ m
    have hspans : (SketchStore.boundedOptions shape.width maxWindowBytes).WindowsSpan
        (ids.filter fun id => id < UInt32.ofNat prefixRows) (shape.width * F32_BYTES) :=
      windowsSpan_below rfl fun id hid => of_decide_eq_true (List.mem_filter.mp hid).2
    exact prefixWindowed_readsRows m sort (below_lt prefixRows ids) hspans
  · exact fun _ _ => trivial
  · exact fun stats => diskBounded_reads sort maxWindowBytes amplification stats

end

/-! ## All reads -/

/-- Sketches of some shape, a resident prefix of them, and ids to be read with the options of both
planners. -/
structure SketchRequest where
  shape : SketchShape
  prefixRows : Nat
  prefix_le : prefixRows ≤ shape.rows
  cfg : DirectIoConfig
  ids : List UInt32
  sort : RowSort
  options : WindowedGatherOptions
  maxWindowBytes : Nat
  maxReadAmplification : Float

namespace SketchRequest

variable (r : SketchRequest)

def rowBytes : Nat := r.shape.width * F32_BYTES

/-- The ids whose rows are resident. -/
def residentIds : List UInt32 := r.ids.filter fun id => id < UInt32.ofNat r.prefixRows

def backingIds : List UInt32 := r.ids.filter fun id => ¬ id < UInt32.ofNat r.prefixRows

/-- The plan of a bounded read of some ids. -/
def boundedPlan (ids : List UInt32) : BoundedReadPlan :=
  boundedSketchPlan r.cfg r.sort ids ⟨r.rowBytes, r.maxWindowBytes, r.maxReadAmplification⟩

end SketchRequest

/-- Every read of the file, and of the accessor with its resident prefix, agrees with the rows in
memory. -/
structure SketchReadsAgree (r : SketchRequest) : Prop where
  diskRow : Agrees r.shape r.cfg r.ids fun disk _ => rowByRow disk.row r.ids
  diskCoalesced : Agrees r.shape r.cfg r.ids fun disk out => disk.readRowsInto r.ids out
  diskWindowed : ∀ stats, Agrees r.shape r.cfg r.ids fun disk out =>
    (disk.readRowsWindowedIntoStats r.sort r.ids out r.options stats).map Prod.fst
  diskBounded : ∀ stats, Agrees r.shape r.cfg r.ids fun disk out =>
    (disk.readRowsBoundedIntoStats r.sort r.ids out r.maxWindowBytes r.maxReadAmplification
      stats).map Prod.fst
  prefixRow : Agrees r.shape r.cfg r.ids (behindPrefix r.prefixRows fun accessor _ =>
    rowByRow (fun idx => accessor.rowCopyInto idx
      (List.replicate accessor.backing.width F32.zero)) r.ids)
  prefixRows : Agrees r.shape r.cfg r.ids (behindPrefix r.prefixRows fun accessor out =>
    accessor.readRowsInto r.ids out)
  prefixWindowed : ∀ stats, Agrees r.shape r.cfg r.ids (behindPrefix r.prefixRows fun accessor out =>
    (accessor.readRowsWindowedIntoStats r.sort r.ids out r.options stats).map Prod.fst)
  prefixBounded : ∀ stats, Agrees r.shape r.cfg r.ids (behindPrefix r.prefixRows fun accessor out =>
    (accessor.readRowsBoundedIntoStats r.sort r.ids out r.maxWindowBytes r.maxReadAmplification
      stats).map Prod.fst)

/-- No run goes on behind the last id; the windows span their ids, of the file and of both halves;
bounded windows do not wrap and fit what is submitted. -/
structure SketchReadsSafe (r : SketchRequest) : Prop where
  runsEnd : RunsEnd r.ids
  windowsSpan : r.options.WindowsSpan r.ids r.rowBytes
  boundedSafe : BoundedSafe r.rowBytes r.cfg (r.boundedPlan r.ids)
  residentSpan : r.options.WindowsSpan r.residentIds r.rowBytes
  backingSpan : r.options.WindowsSpan r.backingIds r.rowBytes
  backingSafe : BoundedSafe r.rowBytes r.cfg (r.boundedPlan r.backingIds)

theorem sketchReadsAgree_iff (r : SketchRequest) :
    SketchReadsAgree r ↔ (InStore r.shape r.ids → SketchReadsSafe r) := by
  have hcoalesced : Agrees r.shape r.cfg r.ids (fun disk out => disk.readRowsInto r.ids out) ↔
      (InStore r.shape r.ids → RunsEnd r.ids) := diskCoalesced_reads.agrees_iff
  constructor
  · intro h hids
    have hwindowed := (diskWindowed_reads r.sort r.options .default).agrees_iff.mp
      (h.diskWindowed _) hids
    have hbounded := (diskBounded_reads r.sort r.maxWindowBytes r.maxReadAmplification
      .default).agrees_iff.mp (h.diskBounded _) hids
    have hfront := (prefixWindowed_reads r.prefix_le r.sort r.options .default).agrees_iff.mp
      (h.prefixWindowed _) hids
    have hfrontBounded := (prefixBounded_reads r.prefix_le r.sort r.maxWindowBytes
      r.maxReadAmplification .default).agrees_iff.mp (h.prefixBounded _) hids
    exact ⟨hcoalesced.mp h.diskCoalesced hids, hwindowed, hbounded, hfront.1, hfront.2,
      hfrontBounded.2⟩
  · intro h
    exact {
      diskRow := diskRow_reads.agrees_iff.mpr fun _ => trivial
      diskCoalesced := hcoalesced.mpr fun hids => (h hids).runsEnd
      diskWindowed := fun stats =>
        (diskWindowed_reads r.sort r.options stats).agrees_iff.mpr fun hids => (h hids).windowsSpan
      diskBounded := fun stats => (diskBounded_reads r.sort r.maxWindowBytes
        r.maxReadAmplification stats).agrees_iff.mpr fun hids => (h hids).boundedSafe
      prefixRow := (prefixRow_reads r.prefix_le).agrees_iff.mpr fun _ => trivial
      prefixRows := (prefixRows_reads r.prefix_le).agrees_iff.mpr fun _ => trivial
      prefixWindowed := fun stats => (prefixWindowed_reads r.prefix_le r.sort r.options
        stats).agrees_iff.mpr fun hids => ⟨(h hids).residentSpan, (h hids).backingSpan⟩
      prefixBounded := fun stats => (prefixBounded_reads r.prefix_le r.sort r.maxWindowBytes
        r.maxReadAmplification stats).agrees_iff.mpr fun hids => ⟨trivial, (h hids).backingSafe⟩ }

/-- Eight rows of four values, none of them resident, and two ids in descending order that are not
to be sorted. -/
def descendingRequest : SketchRequest where
  shape := ⟨8, 4, by decide, by decide, by decide⟩
  prefixRows := 0
  prefix_le := Nat.zero_le _
  cfg := ⟨false, 4096⟩
  ids := descendingIds
  sort := .byKey GatherRow.rowId
  options := unsortedOptions
  maxWindowBytes := 4096
  maxReadAmplification := 1.5

theorem descendingRequest_disagrees : ¬ SketchReadsAgree descendingRequest := by
  intro h
  have hids : InStore descendingRequest.shape descendingRequest.ids := by
    intro id hid
    rcases List.mem_cons.mp hid with rfl | hid
    · decide
    · obtain rfl := List.mem_singleton.mp hid
      decide
  have hspans : unsortedOptions.WindowsSpan descendingIds 16 :=
    (diskWindowed_reads (.byKey GatherRow.rowId) unsortedOptions .default).agrees_iff.mp
      (h.diskWindowed .default) hids
  have hruns : unsortedOptions.idRuns descendingIds 16 = [⟨7, [3], ⟨7, 3⟩⟩] :=
    greedyRuns_singleton (by decide)
  have hwithin := (hspans ⟨7, [3], ⟨7, 3⟩⟩ (by rw [hruns]; exact List.mem_singleton_self _)).within 3
    (by simp [GreedyRun.items])
  exact absurd hwithin.1 (by decide)

end ForgeANN
