-- SUMMARY: Reported recall: ground truth padded to the asked width, hits counted in it, and when they are hits.
import ForgeANN.Common.Chunks
import ForgeANN.Dataset.InmemDataset
import ForgeANN.Lib.Except
import ForgeANN.Lib.Slots
import Mathlib.Algebra.Order.BigOperators.Group.List
import Mathlib.Algebra.Order.Field.Rat
import Mathlib.Data.Finset.Card

/-!
# Reported recall

The driver brings the rows of the ground truth to the width it scores, and fills
up a row that is shorter with zeros. A zero is an id as well: a search that found
point 0 then has a hit on the filling.
-/
namespace ForgeANN

open Lib

/-! ## Loading and scoring -/

/-- `vec![0; len]` of `u32`s: a layout ends at most at `isize::MAX`. -/
def zeroIds (len : Nat) : AnnResult (List UInt32) :=
  if len * 4 < 2 ^ 63 then .ok (List.replicate len 0) else .error (.panic "capacity overflow")

/-- `gt[qi * recall_at + ki] = all[qi * d + ki]`. -/
def copyId (all : List UInt32) (d recallAt qi : Nat) (gt : List UInt32) (ki : Nat) :
    AnnResult (List UInt32) :=
  match all[wrap (qi * d + ki)]? with
  | none => .error (.panic "index out of bounds")
  | some id =>
      if wrap (qi * recallAt + ki) < gt.length then .ok (gt.set (wrap (qi * recallAt + ki)) id)
      else .error (.panic "index out of bounds")

/-- The rows of the queries, in a buffer of zeros. -/
def fillGt (all : List UInt32) (d recallAt nq : Nat) (gt : List UInt32) : AnnResult (List UInt32) :=
  (List.range nq).foldlM
    (fun gt qi => (List.range (min recallAt d)).foldlM (copyId all d recallAt qi) gt) gt

def loadGt (file : Bytes) (numQueries recallAt : Nat) : AnnResult (List UInt32) := do
  let (n, d) ← loadMetadataFromFile file
  let (_, reader) ← readU32 ⟨file, 0⟩
  let (_, reader) ← readU32 reader
  let total := wrap (n * d)
  let _ ← zeroIds total
  let (all, _) ← BufReader.readMany 4 u32OfLe reader total
  let nq := min numQueries n
  let gt ← zeroIds (wrap (nq * recallAt))
  fillGt all d recallAt nq gt

section

variable {R : Type} [Add R] [Div R]

/-- The body of the loop over the queries, in the arithmetic of `R`. -/
def scoreQuery (ofUsize : Nat → R) (gt : List UInt32) (recallAt : Nat) (totalRecall : R)
    (query : List UInt32 × Nat) : AnnResult R := do
  let gtSet ← indexRange gt (wrap (query.2 * recallAt)) (wrap ((query.2 + 1) * recallAt))
  let hits := query.1.countP fun id => decide (id ∈ gtSet)
  .ok (totalRecall + ofUsize hits / ofUsize recallAt)

def computeRecall (ofUsize : Nat → R) (allResults : List (List UInt32)) (gt : List UInt32)
    (recallAt : Nat) : AnnResult R := do
  let totalRecall ← allResults.zipIdx.foldlM (scoreQuery ofUsize gt recallAt) (ofUsize 0)
  .ok (totalRecall / ofUsize allResults.length)

/-- What `main` reports for the results of its queries. -/
def reportedRecall (ofUsize : Nat → R) (gtFile : Bytes) (allResults : List (List UInt32))
    (recallAt : Nat) : AnnResult R := do
  let queryCount := allResults.length
  if queryCount = 0 then .error (.index "max-queries selected zero queries")
  else
    let gt ← loadGt gtFile queryCount recallAt
    computeRecall ofUsize allResults gt recallAt

end

/-! ## Ground truth -/

/-- A matrix of `n` rows of `d` ids, of a size that a file can have. -/
structure GroundTruth where
  n : Nat
  d : Nat
  ids : List UInt32
  length_ids : ids.length = n * d
  n_lt : n < 2 ^ 32
  d_lt : d < 2 ^ 32
  size_lt : n * d * 4 < 2 ^ 63

namespace GroundTruth

variable (truth : GroundTruth)

/-- The file of a ground truth. Distances may follow the ids. -/
def file (tail : Bytes) : Bytes :=
  leU32 (UInt32.ofNat truth.n) ++ (leU32 (UInt32.ofNat truth.d) ++
    (truth.ids.flatMap leU32 ++ tail))

/-- The first `min(recall_at, d)` ids of a query. -/
def nearest (recallAt q : Nat) : List UInt32 := (slot truth.d truth.ids q).take (min recallAt truth.d)

def hits (recallAt : Nat) (query : List UInt32 × Nat) : Nat :=
  (query.1.toFinset ∩ (truth.nearest recallAt query.2).toFinset).card

variable {R : Type} [Add R] [Div R]

/-- The mean of the recalls, added up in the order of the queries. -/
def meanRecall (ofUsize : Nat → R) (results : List (List UInt32)) (recallAt : Nat) : R :=
  (results.zipIdx.map fun query => ofUsize (truth.hits recallAt query) / ofUsize recallAt).foldl
    (· + ·) (ofUsize 0) / ofUsize results.length

/-- The mean is reported, and where there is none an error is returned. -/
def Reports (ofUsize : Nat → R) (results : List (List UInt32)) (recallAt : Nat)
    (reported : AnnResult R) : Prop :=
  if results = [] ∨ truth.n < results.length then
    ∃ err, reported = .error err ∧ ∀ msg, err ≠ .panic msg
  else reported = .ok (truth.meanRecall ofUsize results recallAt)

/-- A row brought to the width that is scored. -/
def paddedRow (recallAt q : Nat) : List UInt32 :=
  truth.nearest recallAt q ++ List.replicate (recallAt - min recallAt truth.d) 0

/-- The filling of the rows makes no hit. -/
def PaddingApart (results : List (List UInt32)) (recallAt : Nat) : Prop :=
  recallAt ≤ truth.d ∨ ∀ query ∈ results.zipIdx, 0 ∈ query.1 → 0 ∈ truth.nearest recallAt query.2

/-- The number of ids is the one the file has, although its sizes are read as `i32`s. -/
def Readable : Prop := truth.n = 0 ∨ truth.d = 0 ∨ truth.n < 2 ^ 31 ∧ truth.d < 2 ^ 31

instance : Decidable truth.Readable := inferInstanceAs (Decidable (_ ∨ _))

/-- There are enough rows, they can be read, and padded they fit into memory. -/
structure Scored (results : List (List UInt32)) (recallAt : Nat) : Prop where
  rows : results.length ≤ truth.n
  readable : truth.Readable
  memory : results.length * recallAt * 4 < 2 ^ 63
  padding : truth.PaddingApart results recallAt

end GroundTruth

/-! ## Failures -/

/-- A failure of the computation is a panic. -/
def OnlyPanics {α : Type} (x : AnnResult α) : Prop := ∀ err, x = .error err → ∃ msg, err = .panic msg

section

variable {α β σ : Type} {x : AnnResult α} {f : α → AnnResult β} {step : σ → α → AnnResult σ}
  {len d recallAt qi ki start stop : Nat} {gt all : List UInt32}

theorem OnlyPanics.ok (a : α) : OnlyPanics (.ok a) := fun _ h => nomatch h

theorem OnlyPanics.panic (msg : String) : OnlyPanics (.error (.panic msg) : AnnResult α) :=
  fun _ h => ⟨msg, (Except.error.inj h).symm⟩

theorem OnlyPanics.bind (hx : OnlyPanics x) (hf : ∀ a, OnlyPanics (f a)) :
    OnlyPanics (x >>= f) := by
  cases x with
  | error err =>
      intro e he
      rw [error_bind] at he
      exact hx e (Except.error.inj he ▸ rfl)
  | ok a => exact hf a

theorem OnlyPanics.foldlM (h : ∀ s a, OnlyPanics (step s a)) (l : List α) (s : σ) :
    OnlyPanics (l.foldlM step s) := by
  induction l generalizing s with
  | nil => exact .ok s
  | cons a l ih =>
      rw [List.foldlM_cons]
      exact (h s a).bind ih

theorem onlyPanics_zeroIds (len : Nat) : OnlyPanics (zeroIds len) := by
  rw [zeroIds]
  split_ifs
  · exact .ok _
  · exact .panic _

theorem onlyPanics_copyId (all : List UInt32) (d recallAt qi : Nat) (gt : List UInt32) (ki : Nat) :
    OnlyPanics (copyId all d recallAt qi gt ki) := by
  rw [copyId]
  split
  · exact .panic _
  · split_ifs
    · exact .ok _
    · exact .panic _

theorem onlyPanics_indexRange (l : List α) (start stop : Nat) :
    OnlyPanics (indexRange l start stop) := by
  rw [indexRange]
  split_ifs
  · exact .panic _
  · exact .panic _
  · exact .ok _

theorem onlyPanics_computeRecall {R : Type} [Add R] [Div R] (ofUsize : Nat → R)
    (allResults : List (List UInt32)) (gt : List UInt32) (recallAt : Nat) :
    OnlyPanics (computeRecall ofUsize allResults gt recallAt) := by
  rw [computeRecall]
  refine .bind (.foldlM (fun total query => ?_) _ _) fun _ => .ok _
  rw [scoreQuery]
  exact (onlyPanics_indexRange _ _ _).bind fun _ => .ok _

end

/-! ## What the loader reads -/

/-- A negative factor. -/
theorem wrap_mul_negative {a c : Nat} (ha : 0 < a) (hc : 0 < c) (hac : a * c ≤ 2 ^ 62) :
    2 ^ 63 ≤ wrap (a * (2 ^ 64 - c)) * 4 := by
  have hpos : 0 < a * c := Nat.mul_pos ha hc
  have hcle : c ≤ a * c := Nat.le_mul_of_pos_left c ha
  have hsum : a * (2 ^ 64 - c) + a * c = a * 2 ^ 64 := by
    rw [← Nat.mul_add, Nat.sub_add_cancel (by omega)]
  have hale : 1 * 2 ^ 64 ≤ a * 2 ^ 64 := Nat.mul_le_mul_right _ ha
  have heq : a * (2 ^ 64 - c) = (a - 1) * 2 ^ 64 + (2 ^ 64 - a * c) := by
    rw [Nat.sub_mul]
    omega
  have hwrap : wrap (a * (2 ^ 64 - c)) = 2 ^ 64 - a * c := by
    rw [heq, wrap, Nat.mul_add_mod_self_right]
    exact Nat.mod_eq_of_lt (by omega)
  rw [hwrap]
  omega

namespace GroundTruth

variable (truth : GroundTruth) (tail : Bytes)

/-- The header, with its values taken for `i32`s. -/
def loadedRows : Nat := i32AsUsize (UInt32.ofNat truth.n)

def loadedDim : Nat := i32AsUsize (UInt32.ofNat truth.d)

variable {truth}

theorem loadedRows_eq :
    truth.loadedRows = if truth.n < 2 ^ 31 then truth.n else 2 ^ 64 - (2 ^ 32 - truth.n) := by
  have hlt := truth.n_lt
  have hn : (UInt32.ofNat truth.n).toNat = truth.n := UInt32.toNat_ofNat_of_lt' hlt
  rw [loadedRows, i32AsUsize, hn]
  split_ifs <;> omega

theorem loadedDim_eq :
    truth.loadedDim = if truth.d < 2 ^ 31 then truth.d else 2 ^ 64 - (2 ^ 32 - truth.d) := by
  have hlt := truth.d_lt
  have hd : (UInt32.ofNat truth.d).toNat = truth.d := UInt32.toNat_ofNat_of_lt' hlt
  rw [loadedDim, i32AsUsize, hd]
  split_ifs <;> omega

theorem wrap_loaded (h : truth.Readable) :
    wrap (truth.loadedRows * truth.loadedDim) = truth.n * truth.d := by
  have hsize := truth.size_lt
  rw [loadedRows_eq, loadedDim_eq]
  rcases h with h | h | ⟨hn, hd⟩
  · rw [h, if_pos (by decide), Nat.zero_mul, Nat.zero_mul]
    rfl
  · rw [h, if_pos (c := 0 < 2 ^ 31) (by decide), Nat.mul_zero, Nat.mul_zero]
    rfl
  · rw [if_pos hn, if_pos hd]
    exact wrap_of_lt (by omega)

/-- Other sizes come to a number of ids that no memory has room for. -/
theorem wrap_loaded_large (h : ¬ truth.Readable) :
    2 ^ 63 ≤ wrap (truth.loadedRows * truth.loadedDim) * 4 := by
  have hn := truth.n_lt
  have hd := truth.d_lt
  have hsize := truth.size_lt
  rw [Readable] at h
  rw [loadedRows_eq, loadedDim_eq]
  split_ifs with hn31 hd31 hd31
  · omega
  · refine wrap_mul_negative (by omega) (by omega) ?_
    calc truth.n * (2 ^ 32 - truth.d) ≤ 2 ^ 31 * 2 ^ 31 := Nat.mul_le_mul (by omega) (by omega)
      _ = 2 ^ 62 := by norm_num
  · rw [Nat.mul_comm _ truth.d]
    refine wrap_mul_negative (by omega) (by omega) ?_
    calc truth.d * (2 ^ 32 - truth.n) ≤ 2 ^ 31 * 2 ^ 31 := Nat.mul_le_mul (by omega) (by omega)
      _ = 2 ^ 62 := by norm_num
  · have hlarge : 2 ^ 31 * 2 ^ 31 ≤ truth.n * truth.d := Nat.mul_le_mul (by omega) (by omega)
    omega

theorem loadMetadataFromFile_file :
    loadMetadataFromFile (truth.file tail) = .ok (truth.loadedRows, truth.loadedDim) := by
  have hrest : (BufReader.mk (truth.file tail) 0).rest = truth.file tail := List.drop_zero
  rw [file] at hrest
  obtain ⟨hrows, hrest⟩ := readI32AsUsize_leU32 hrest
  obtain ⟨hdim, -⟩ := readI32AsUsize_leU32 hrest
  rw [loadMetadataFromFile, file, hrows, ok_bind]
  simp only [hdim, ok_bind]
  rfl

/-- The loader, from where its buffers are made. -/
theorem loadGt_file (numQueries recallAt : Nat) :
    loadGt (truth.file tail) numQueries recallAt =
      if truth.Readable then
        zeroIds (wrap (min numQueries truth.loadedRows * recallAt)) >>=
          fillGt truth.ids truth.loadedDim recallAt (min numQueries truth.loadedRows)
      else .error (.panic "capacity overflow") := by
  have hrest : (BufReader.mk (truth.file tail) 0).rest = truth.file tail := List.drop_zero
  rw [file] at hrest
  obtain ⟨hrows, hrest⟩ := readU32_of_rest hrest
  obtain ⟨hdim, hrest⟩ := readU32_of_rest hrest
  have hids := BufReader.readMany_encode u32OfLe leU32_length (by decide) u32OfLe_leU32 hrest
  rw [loadGt, loadMetadataFromFile_file, ok_bind]
  rw [file]
  simp only [hrows, hdim, ok_bind]
  split_ifs with hreadable
  · have hbuffer : zeroIds (truth.n * truth.d) = .ok (List.replicate (truth.n * truth.d) 0) :=
      if_pos truth.size_lt
    rw [wrap_loaded hreadable, hbuffer, ok_bind, ← truth.length_ids, hids, ok_bind]
  · have hlarge := wrap_loaded_large hreadable
    rw [zeroIds, if_neg (by omega), error_bind]

theorem onlyPanics_loadGt (numQueries recallAt : Nat) :
    OnlyPanics (loadGt (truth.file tail) numQueries recallAt) := by
  rw [loadGt_file]
  split_ifs
  · refine (onlyPanics_zeroIds _).bind fun gt => .foldlM (fun gt qi => ?_) _ gt
    exact .foldlM (fun gt ki => onlyPanics_copyId _ _ _ _ gt ki) _ gt
  · exact .panic _

end GroundTruth

/-! ## Padded rows -/

namespace GroundTruth

variable {truth : GroundTruth} {recallAt q ki nq : Nat} {front back : List UInt32}

theorem nearest_length (hq : q < truth.n) : (truth.nearest recallAt q).length = min recallAt truth.d := by
  rw [nearest, List.length_take, slot_length truth.length_ids hq]
  omega

theorem paddedRow_length (hq : q < truth.n) : (truth.paddedRow recallAt q).length = recallAt := by
  rw [paddedRow, List.length_append, nearest_length hq, List.length_replicate]
  omega

theorem nearest_getElem? (hki : ki < min recallAt truth.d) :
    (truth.nearest recallAt q)[ki]? = truth.ids[q * truth.d + ki]? := by
  rw [nearest, List.getElem?_take_of_lt hki, slot_getElem?, if_pos (by omega)]

/-- One more id of a row is in place. -/
theorem copyId_eq (hfront : front.length = q * recallAt) (hq : q < truth.n)
    (hki : ki < min recallAt truth.d) (hsize : q * recallAt + recallAt < 2 ^ 64) :
    copyId truth.ids truth.d recallAt q
        (front ++ ((truth.nearest recallAt q).take ki ++ List.replicate (recallAt - ki) 0) ++ back) ki =
      .ok (front ++ ((truth.nearest recallAt q).take (ki + 1) ++
        List.replicate (recallAt - (ki + 1)) 0) ++ back) := by
  have hread : q * truth.d + ki < truth.ids.length := by
    have hle := slot_bound truth.d hq
    rw [truth.length_ids]
    omega
  have hids := truth.size_lt
  rw [← truth.length_ids] at hids
  have hid : truth.ids[wrap (q * truth.d + ki)]? = some truth.ids[q * truth.d + ki] := by
    rw [wrap_of_lt (by omega), List.getElem?_eq_getElem hread]
  have htake : ((truth.nearest recallAt q).take ki).length = ki :=
    List.length_take_of_le (by rw [nearest_length hq]; omega)
  have hnext : (truth.nearest recallAt q).take (ki + 1) =
      (truth.nearest recallAt q).take ki ++ [truth.ids[q * truth.d + ki]] := by
    rw [List.take_add_one, nearest_getElem? hki, List.getElem?_eq_getElem hread, Option.toList_some]
  have hroom : recallAt - ki = (recallAt - (ki + 1)) + 1 := by omega
  rw [copyId, hid, wrap_of_lt (by omega)]
  dsimp only
  rw [if_pos (by simp only [List.length_append, hfront, htake, List.length_replicate]; omega), hnext,
    hroom, List.replicate_succ, ← hfront, List.append_assoc front, List.set_append_right _ _ (by omega),
    Nat.add_sub_cancel_left, List.append_assoc, List.set_append_right _ _ (by omega), htake,
    Nat.sub_self]
  simp only [List.cons_append, List.set_cons_zero, List.append_assoc, List.nil_append]

theorem copyIds_eq (hfront : front.length = q * recallAt) (hq : q < truth.n)
    (hsize : q * recallAt + recallAt < 2 ^ 64) (hki : ki ≤ min recallAt truth.d) :
    (List.range ki).foldlM (copyId truth.ids truth.d recallAt q)
        (front ++ List.replicate recallAt 0 ++ back) =
      .ok (front ++ ((truth.nearest recallAt q).take ki ++ List.replicate (recallAt - ki) 0) ++ back) := by
  induction ki with
  | zero => rfl
  | succ ki ih =>
      rw [List.range_succ, List.foldlM_append, ih (by omega), ok_bind, List.foldlM_cons,
        copyId_eq hfront hq (by omega) hsize, ok_bind]
      rfl

/-- The rows of the first queries are in place, and zeros behind them. -/
theorem fillGt_eq (hnq : nq ≤ truth.n) (hsize : nq * recallAt < 2 ^ 64) :
    fillGt truth.ids truth.d recallAt nq (List.replicate (nq * recallAt) 0) =
      .ok ((List.range nq).flatMap (truth.paddedRow recallAt)) := by
  have hfill : ∀ k ≤ nq, (List.range k).foldlM (fun gt qi =>
      (List.range (min recallAt truth.d)).foldlM (copyId truth.ids truth.d recallAt qi) gt)
        (List.replicate (nq * recallAt) 0) =
      .ok ((List.range k).flatMap (truth.paddedRow recallAt) ++
        List.replicate ((nq - k) * recallAt) 0) := by
    intro k
    induction k with
    | zero => intro _; rfl
    | succ k ih =>
        intro hk
        have hbound := slot_bound recallAt (Nat.lt_of_succ_le hk)
        have hfront : ((List.range k).flatMap (truth.paddedRow recallAt)).length = k * recallAt := by
          rw [length_flatMap_of_width fun q hq => paddedRow_length (by
            have hlt := List.mem_range.mp hq
            omega), List.length_range]
        have hroom : (nq - k) * recallAt = recallAt + (nq - (k + 1)) * recallAt := by
          have hone : nq - k = (nq - (k + 1)) + 1 := by omega
          rw [hone, Nat.succ_mul, Nat.add_comm]
        have htake : (truth.nearest recallAt k).take (min recallAt truth.d) =
            truth.nearest recallAt k := List.take_of_length_le (by rw [nearest_length (by omega)])
        rw [List.range_succ, List.foldlM_append, ih (by omega), ok_bind, List.foldlM_cons, hroom,
          List.replicate_add, ← List.append_assoc, copyIds_eq hfront (by omega) (by omega) le_rfl,
          ok_bind, htake, List.flatMap_append, List.flatMap_singleton]
        rfl
  have hall := hfill nq le_rfl
  rw [Nat.sub_self, Nat.zero_mul, List.replicate_zero, List.append_nil] at hall
  exact hall

end GroundTruth

/-! ## Scoring -/

section

variable {R : Type} [Add R] [Div R] {ofUsize : Nat → R} {gt : List UInt32} {recallAt nq q : Nat}
  {results : List (List UInt32)} {truth : GroundTruth}

/-- Slices that do not start behind their end were not wrapped. -/
theorem size_lt_of_computeRecall {reported : R} (hrecall : recallAt < 2 ^ 64)
    (h : computeRecall ofUsize results gt recallAt = .ok reported) :
    results.length * recallAt < 2 ^ 64 := by
  have hslice : ∀ q < results.length, wrap (q * recallAt) ≤ wrap ((q + 1) * recallAt) := by
    intro q hq
    by_contra hlt
    have hmem : (results[q], q) ∈ results.zipIdx :=
      List.mem_iff_getElem?.mpr ⟨q, by simp [hq]⟩
    have hfail : ∀ total, ∃ err, scoreQuery ofUsize gt recallAt total (results[q], q) = .error err := by
      intro total
      refine ⟨.panic "slice index starts behind its end", ?_⟩
      rw [scoreQuery, indexRange, if_pos (Nat.lt_of_not_le hlt), error_bind]
    obtain ⟨err, herr⟩ := foldlM_error_of_mem hmem hfail (ofUsize 0)
    rw [computeRecall, herr] at h
    cases h
  have hall : ∀ k ≤ results.length, k * recallAt < 2 ^ 64 := by
    intro k
    induction k with
    | zero => intro _; rw [Nat.zero_mul]; decide
    | succ k ih =>
        intro hk
        have hlt := ih (by omega)
        have hle := hslice k hk
        rw [wrap_of_lt hlt, Nat.succ_mul, wrap] at hle
        rw [Nat.succ_mul]
        omega
  exact hall _ le_rfl

/-- Hits are counted in the padded row. -/
theorem scoreQuery_eq {rows : Nat → List UInt32} (hrows : ∀ p < nq, (rows p).length = recallAt)
    (hsize : nq * recallAt < 2 ^ 64) {query : List UInt32 × Nat} (hq : query.2 < nq) (total : R) :
    scoreQuery ofUsize ((List.range nq).flatMap rows) recallAt total query =
      .ok (total + ofUsize (query.1.countP fun id => decide (id ∈ rows query.2)) /
        ofUsize recallAt) := by
  have hlen : ((List.range nq).flatMap rows).length = nq * recallAt := by
    rw [length_flatMap_of_width fun p hp => hrows p (List.mem_range.mp hp), List.length_range]
  have hslot : slot recallAt ((List.range nq).flatMap rows) query.2 = rows query.2 :=
    slot_flatMap (fun p hp => hrows p (List.mem_range.mp hp)) (List.getElem?_range hq)
  rw [scoreQuery, indexRange_slot hlen hq hsize, ok_bind, hslot]

theorem snd_lt_of_mem_zipIdx {query : List UInt32 × Nat} (h : query ∈ results.zipIdx) :
    query.2 < results.length := by
  have hlt := (List.mem_zipIdx (x := query.1) (i := query.2) h).2.1
  omega

namespace GroundTruth

/-- The recall that is computed: of the hits in the padded rows. -/
theorem computeRecall_padded (hrows : results.length ≤ truth.n)
    (hsize : results.length * recallAt < 2 ^ 64) :
    computeRecall ofUsize results
        ((List.range results.length).flatMap (truth.paddedRow recallAt)) recallAt =
      .ok ((results.zipIdx.map fun query => ofUsize (query.1.countP fun id =>
          decide (id ∈ truth.paddedRow recallAt query.2)) / ofUsize recallAt).foldl
        (· + ·) (ofUsize 0) / ofUsize results.length) := by
  have hscore : ∀ query ∈ results.zipIdx, ∀ total, scoreQuery ofUsize
      ((List.range results.length).flatMap (truth.paddedRow recallAt)) recallAt total query =
        .ok (total + ofUsize (query.1.countP fun id =>
          decide (id ∈ truth.paddedRow recallAt query.2)) / ofUsize recallAt) := fun query hquery =>
    scoreQuery_eq (fun p hp => paddedRow_length (Nat.lt_of_lt_of_le hp hrows)) hsize
      (snd_lt_of_mem_zipIdx hquery)
  rw [computeRecall, foldlM_eq_ok_foldl hscore, ok_bind, List.foldl_map]

variable {query : List UInt32 × Nat}

theorem countP_eq_card {ids row : List UInt32} (h : ids.Nodup) :
    (ids.countP fun id => decide (id ∈ row)) = (ids.toFinset ∩ row.toFinset).card := by
  have hfilter : (ids.filter fun id => decide (id ∈ row)).toFinset = ids.toFinset ∩ row.toFinset := by
    ext id
    simp
  rw [List.countP_eq_length_filter, ← List.toFinset_card_of_nodup (h.filter _), hfilter]

theorem nearest_subset_paddedRow (recallAt q : Nat) :
    (truth.nearest recallAt q).toFinset ⊆ (truth.paddedRow recallAt q).toFinset := by
  intro id hid
  rw [List.mem_toFinset] at hid ⊢
  exact List.mem_append_left _ hid

theorem hits_le_countP (h : query.1.Nodup) :
    truth.hits recallAt query ≤
      query.1.countP fun id => decide (id ∈ truth.paddedRow recallAt query.2) := by
  rw [countP_eq_card h]
  exact Finset.card_le_card (Finset.inter_subset_inter_left (nearest_subset_paddedRow _ _))

/-- The hits are right where point 0 is not found in the filling only. -/
theorem countP_eq_hits_iff (h : query.1.Nodup) :
    (query.1.countP fun id => decide (id ∈ truth.paddedRow recallAt query.2)) =
        truth.hits recallAt query ↔
      recallAt ≤ truth.d ∨ (0 ∈ query.1 → 0 ∈ truth.nearest recallAt query.2) := by
  constructor
  · intro hcount
    by_contra hnot
    rw [not_or, not_le, Classical.not_imp] at hnot
    obtain ⟨hlt, hfound, hapart⟩ := hnot
    have hpadded : 0 ∈ truth.paddedRow recallAt query.2 :=
      List.mem_append_right _ (List.mem_replicate.mpr ⟨by omega, rfl⟩)
    have hsub : query.1.toFinset ∩ (truth.nearest recallAt query.2).toFinset ⊆
        query.1.toFinset ∩ (truth.paddedRow recallAt query.2).toFinset :=
      Finset.inter_subset_inter_left (nearest_subset_paddedRow _ _)
    have hsame := Finset.eq_of_subset_of_card_le hsub
      (Nat.le_of_eq ((countP_eq_card h).symm.trans hcount))
    have hmem : 0 ∈ query.1.toFinset ∩ (truth.nearest recallAt query.2).toFinset := by
      rw [hsame]
      exact Finset.mem_inter.mpr ⟨List.mem_toFinset.mpr hfound, List.mem_toFinset.mpr hpadded⟩
    exact hapart (List.mem_toFinset.mp (Finset.mem_inter.mp hmem).2)
  · intro hharmless
    have hsame : ∀ id ∈ query.1, (id ∈ truth.paddedRow recallAt query.2 ↔
        id ∈ truth.nearest recallAt query.2) := by
      intro id hid
      rw [paddedRow, List.mem_append, List.mem_replicate]
      constructor
      · rintro (hnear | ⟨hroom, rfl⟩)
        · exact hnear
        · rcases hharmless with hle | hzero
          · omega
          · exact hzero hid
      · exact .inl
    rw [hits, ← countP_eq_card h]
    refine List.countP_congr fun id hid => ?_
    rw [decide_eq_true_iff, decide_eq_true_iff]
    exact hsame id hid

end GroundTruth

end

/-! ## When the reported recall is the recall -/

namespace GroundTruth

variable {truth : GroundTruth} {results : List (List UInt32)} {recallAt : Nat} {tail : Bytes}

/-- The driver, on a file whose rows suffice. -/
theorem reportedRecall_file {R : Type} [Add R] [Div R] (ofUsize : Nat → R) (hne : results ≠ [])
    (hrows : results.length ≤ truth.n) :
    reportedRecall ofUsize (truth.file tail) results recallAt =
      if truth.Readable then
        (do
          let gt ← zeroIds (wrap (results.length * recallAt))
          let gt ← fillGt truth.ids truth.d recallAt results.length gt
          computeRecall ofUsize results gt recallAt)
      else .error (.panic "capacity overflow") := by
  have hpos := List.length_pos_iff.mpr hne
  have hn := truth.n_lt
  have hle : truth.n ≤ truth.loadedRows := by
    rw [loadedRows_eq]
    split_ifs <;> omega
  rw [reportedRecall, if_neg (by omega), loadGt_file, Nat.min_eq_left (hrows.trans hle)]
  split_ifs with hreadable
  · have hdim : truth.loadedDim = truth.d := by
      rw [Readable] at hreadable
      rw [loadedDim_eq, if_pos (by omega)]
    rw [hdim]
    cases zeroIds (wrap (results.length * recallAt)) <;> rfl
  · rfl

/-- The recall that is reported where the sizes allow one. -/
theorem reportedRecall_eq {R : Type} [Add R] [Div R] (ofUsize : Nat → R) (hne : results ≠ [])
    (hrows : results.length ≤ truth.n) (hreadable : truth.Readable)
    (hmemory : results.length * recallAt * 4 < 2 ^ 63) :
    reportedRecall ofUsize (truth.file tail) results recallAt =
      .ok ((results.zipIdx.map fun query => ofUsize (query.1.countP fun id =>
          decide (id ∈ truth.paddedRow recallAt query.2)) / ofUsize recallAt).foldl
        (· + ·) (ofUsize 0) / ofUsize results.length) := by
  have hbuffer : zeroIds (results.length * recallAt) =
      .ok (List.replicate (results.length * recallAt) 0) := if_pos hmemory
  rw [reportedRecall_file ofUsize hne hrows, if_pos hreadable, wrap_of_lt (by omega), hbuffer, ok_bind,
    fillGt_eq hrows (by omega), ok_bind, computeRecall_padded hrows (by omega)]

/-- Nothing but a panic comes of sizes that do not allow a recall. -/
theorem sizes_of_reportedRecall {R : Type} [Add R] [Div R] {ofUsize : Nat → R} {reported : R}
    (hne : results ≠ []) (hrows : results.length ≤ truth.n) (hrecall : recallAt < 2 ^ 64)
    (h : reportedRecall ofUsize (truth.file tail) results recallAt = .ok reported) :
    truth.Readable ∧ results.length * recallAt * 4 < 2 ^ 63 := by
  rw [reportedRecall_file ofUsize hne hrows] at h
  split_ifs at h with hreadable
  refine ⟨hreadable, ?_⟩
  rw [zeroIds] at h
  split_ifs at h with hmemory
  · rw [ok_bind] at h
    cases hfill : fillGt truth.ids truth.d recallAt results.length
        (List.replicate (wrap (results.length * recallAt)) 0) with
    | error err =>
        rw [hfill] at h
        cases h
    | ok gt =>
        rw [hfill, ok_bind] at h
        rwa [wrap_of_lt (size_lt_of_computeRecall hrecall h)] at hmemory
  · rw [error_bind] at h
    cases h

theorem not_refused {R : Type} [Add R] [Div R] (ofUsize : Nat → R) (hne : results ≠ []) :
    OnlyPanics (reportedRecall ofUsize (truth.file tail) results recallAt) := by
  have hpos := List.length_pos_iff.mpr hne
  rw [reportedRecall, if_neg (by omega)]
  exact (onlyPanics_loadGt tail _ _).bind fun gt => onlyPanics_computeRecall _ _ _ _

/-- The exact means agree where all hits do. -/
theorem mean_eq_iff {α : Type} {l : List α} {f g : α → Nat} (hne : l ≠ []) (hrecall : 0 < recallAt)
    (hle : ∀ a ∈ l, f a ≤ g a) :
    ((l.map fun a => (g a : ℚ) / recallAt).foldl (· + ·) ((0 : Nat) : ℚ) / l.length =
      (l.map fun a => (f a : ℚ) / recallAt).foldl (· + ·) ((0 : Nat) : ℚ) / l.length) ↔
      ∀ a ∈ l, g a = f a := by
  have hlen : (l.length : ℚ) ≠ 0 := by
    rw [Nat.cast_ne_zero]
    exact List.length_pos_iff.mpr hne |>.ne'
  have hpos : (0 : ℚ) < recallAt := Nat.cast_pos.mpr hrecall
  rw [div_left_inj' hlen, Nat.cast_zero, ← List.sum_eq_foldl, ← List.sum_eq_foldl]
  constructor
  · intro hsum
    by_contra hnot
    push Not at hnot
    obtain ⟨a, ha, hne⟩ := hnot
    have hlt : (l.map fun a => (f a : ℚ) / recallAt).sum < (l.map fun a => (g a : ℚ) / recallAt).sum := by
      refine List.sum_lt_sum _ _ (fun b hb => ?_) ⟨a, ha, ?_⟩
      · exact div_le_div_of_nonneg_right (Nat.cast_le.mpr (hle b hb)) hpos.le
      · exact div_lt_div_of_pos_right (Nat.cast_lt.mpr (lt_of_le_of_ne (hle a ha) hne.symm)) hpos
    exact hlt.ne' hsum
  · intro hall
    rw [List.map_congr_left fun a ha => by rw [hall a ha]]

/-- Under the conditions the mean is reported, in any arithmetic. -/
theorem reports_of_scored {R : Type} [Add R] [Div R] (ofUsize : Nat → R)
    (hnodup : ∀ ids ∈ results, ids.Nodup) (h : results = [] ∨ truth.Scored results recallAt) :
    truth.Reports ofUsize results recallAt
      (reportedRecall ofUsize (truth.file tail) results recallAt) := by
  rcases h with rfl | ⟨hrows, hreadable, hmemory, hpadding⟩
  · rw [Reports, if_pos (.inl rfl)]
    exact ⟨.index "max-queries selected zero queries", rfl, fun msg h => nomatch h⟩
  · by_cases hne : results = []
    · subst hne
      rw [Reports, if_pos (.inl rfl)]
      exact ⟨.index "max-queries selected zero queries", rfl, fun msg h => nomatch h⟩
    · have hhits : ∀ query ∈ results.zipIdx, (query.1.countP fun id =>
          decide (id ∈ truth.paddedRow recallAt query.2)) = truth.hits recallAt query := by
        intro query hquery
        rw [countP_eq_hits_iff (hnodup _ (List.fst_mem_of_mem_zipIdx hquery))]
        exact hpadding.imp_right fun hall => hall query hquery
      rw [Reports, if_neg (by simp [hne, hrows]), reportedRecall_eq ofUsize hne hrows hreadable hmemory,
        meanRecall, List.map_congr_left fun query hquery => by rw [hhits query hquery]]

/-- The reported recall is the mean of the recalls in any arithmetic where the ground truth has
rows enough, the padded rows fit into memory, and point 0 is not found in the padding. In exact
arithmetic it is so nowhere else. -/
theorem reportedRecall_reports_iff (truth : GroundTruth) (tail : Bytes)
    (results : List (List UInt32)) (recallAt : Nat) (hnodup : ∀ ids ∈ results, ids.Nodup)
    (hpos : 0 < recallAt) (hlt : recallAt < 2 ^ 64) :
    (truth.Reports (Nat.cast : Nat → ℚ) results recallAt
        (reportedRecall Nat.cast (truth.file tail) results recallAt) ↔
      results = [] ∨ truth.Scored results recallAt) ∧
    (results = [] ∨ truth.Scored results recallAt →
      ∀ (R : Type) [Add R] [Div R] (ofUsize : Nat → R), truth.Reports ofUsize results recallAt
        (reportedRecall ofUsize (truth.file tail) results recallAt)) := by
  refine ⟨⟨fun hreports => ?_, reports_of_scored _ hnodup⟩,
    fun h R _ _ ofUsize => reports_of_scored ofUsize hnodup h⟩
  by_cases hne : results = []
  · exact .inl hne
  · rw [Reports] at hreports
    split_ifs at hreports with hfew
    · obtain ⟨err, herr, hnot⟩ := hreports
      obtain ⟨msg, hpanic⟩ := not_refused _ hne err herr
      exact absurd hpanic (hnot msg)
    · have hrows : results.length ≤ truth.n := by
        rw [not_or, Nat.not_lt] at hfew
        exact hfew.2
      obtain ⟨hreadable, hmemory⟩ := sizes_of_reportedRecall hne hrows hlt hreports
      refine .inr ⟨hrows, hreadable, hmemory, ?_⟩
      rw [reportedRecall_eq _ hne hrows hreadable hmemory, meanRecall] at hreports
      have hmean := Except.ok.inj hreports
      rw [← List.length_zipIdx (l := results) (i := 0)] at hmean
      rw [mean_eq_iff (by simpa using hne) hpos fun query hquery =>
        hits_le_countP (hnodup _ (List.fst_mem_of_mem_zipIdx hquery))] at hmean
      rw [PaddingApart, or_iff_not_imp_left]
      intro hwide query hquery
      have hcount := hmean query hquery
      rw [countP_eq_hits_iff (hnodup _ (List.fst_mem_of_mem_zipIdx hquery))] at hcount
      exact hcount.resolve_left hwide

/-- Three rows of two ids. -/
def threeRows : GroundTruth where
  n := 3
  d := 2
  ids := [7, 1, 0, 5, 2, 3]
  length_ids := rfl
  n_lt := by decide
  d_lt := by decide
  size_lt := by decide

/-- Two queries, for which the rows are padded. Point 0 is found where it is in the row. -/
theorem reportedRecall_reports_iff_padded :
    threeRows.Reports (Nat.cast : Nat → ℚ) [[7, 4, 2], [5, 0, 9]] 3
      (reportedRecall Nat.cast (threeRows.file []) [[7, 4, 2], [5, 0, 9]] 3) :=
  (reportedRecall_reports_iff threeRows [] [[7, 4, 2], [5, 0, 9]] 3 (by decide) (by decide)
    (by decide)).1.mpr
      (.inr ⟨by decide, .inr (.inr ⟨by decide, by decide⟩), by decide, .inr (by decide)⟩)

/-- One row, of one id. -/
def single (id : UInt32) : GroundTruth where
  n := 1
  d := 1
  ids := [id]
  length_ids := rfl
  n_lt := by decide
  d_lt := by decide
  size_lt := by decide

/-- Point 0 is found, point 7 is nearest, and half of the asked width is reported as found. -/
theorem reportedRecall_padding :
    reportedRecall Nat.cast ((single 7).file []) [[0]] 2 = .ok (1 / 2 : ℚ) ∧
      ¬ (single 7).Reports (Nat.cast : Nat → ℚ) [[0]] 2
        (reportedRecall Nat.cast ((single 7).file []) [[0]] 2) := by
  have hgt : loadGt ((single 7).file []) 1 2 = .ok [7, 0] := by decide
  have hhits : (single 7).hits 2 ([0], 0) = 0 := by decide
  have hslice : indexRange ([7, 0] : List UInt32) (wrap (0 * 2)) (wrap ((0 + 1) * 2)) =
      .ok [7, 0] := by decide
  have hscore : scoreQuery Nat.cast [7, 0] 2 ((0 : Nat) : ℚ) ([0], 0) = .ok (1 / 2) := by
    rw [scoreQuery, hslice, ok_bind]
    simp
  have hrecall : reportedRecall Nat.cast ((single 7).file []) [[0]] 2 = .ok (1 / 2 : ℚ) := by
    rw [reportedRecall, if_neg (by decide), List.length_singleton, hgt, ok_bind, computeRecall,
      List.zipIdx_singleton, List.foldlM_cons, hscore, ok_bind, List.foldlM_nil]
    exact congrArg Except.ok (by simp)
  refine ⟨hrecall, ?_⟩
  rw [hrecall, Reports, if_neg (by simp [single]), meanRecall]
  simp [hhits]

end GroundTruth

end ForgeANN
