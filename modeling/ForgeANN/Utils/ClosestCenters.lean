-- SUMMARY: The nearest centres of points through BLAS: the norms, the matrix of distances, the minimum scan and the heap.
import ForgeANN.Common.Chunks
import ForgeANN.Dataset.InmemDataset
import ForgeANN.Lib.ArrayHeap
import Mathlib.Algebra.BigOperators.Group.Finset.Basic
import Mathlib.Algebra.Order.Field.Basic

/-!
# Closest centres

Squared distances come from norms and scalar products, three `sgemm` calls for all
points and centres. One nearest centre is found by a scan of the row, several by a
heap, which compares its items by an ordering that is defined through itself. The
arithmetic is that of any ordered field.
-/
namespace ForgeANN

open Lib Finset

/-- A computation with a bound on how deep its comparisons may nest: `none` is where it is not
enough. -/
abbrev Bounded (α : Type) := Except (Option AnnError) α

def bounded {α : Type} (r : AnnResult α) : Bounded α := r.mapError some

/-! ## BLAS -/

inductive Layout where
  | rowMajor
  | columnMajor
deriving DecidableEq

inductive Transpose where
  | none
  | ordinary
  | conjugate
deriving DecidableEq

/-- The two functions of `cblas`, as they are documented for the calls made here: matrices row by
row, the second one transposed, vectors without gaps. Sizes are `i32`s. -/
structure Blas (R : Type) [Field R] [LinearOrder R] where
  sgemm : Layout → Transpose → Transpose → (m n k : Int) → (alpha : R) → (a : List R) →
    (lda : Int) → (b : List R) → (ldb : Int) → (beta : R) → (c : List R) → (ldc : Int) → List R
  snrm2 : (n : Int) → (x : List R) → (incx : Int) → R
  /-- The matrix is written in place. -/
  sgemm_length : ∀ layout transa transb m n k alpha a lda b ldb beta c ldc,
    (sgemm layout transa transb m n k alpha a lda b ldb beta c ldc).length = c.length
  sgemm_apply : ∀ (m n k lda ldb ldc : Nat) (alpha beta : R) (a b c : List R),
    m < 2 ^ 31 → n < 2 ^ 31 → k < 2 ^ 31 → lda < 2 ^ 31 → ldb < 2 ^ 31 → ldc < 2 ^ 31 →
    max 1 k ≤ lda → max 1 k ≤ ldb → max 1 n ≤ ldc →
    m * lda ≤ a.length → n * ldb ≤ b.length → m * ldc ≤ c.length →
    ∀ i < m, ∀ j < n,
      (sgemm .rowMajor .none .ordinary m n k alpha a lda b ldb beta c ldc).getD (i * ldc + j) 0 =
        alpha * ∑ l ∈ range k, a.getD (i * lda + l) 0 * b.getD (j * ldb + l) 0 +
          beta * c.getD (i * ldc + j) 0
  snrm2_nonneg : ∀ (n : Nat) (x : List R), n < 2 ^ 31 → n ≤ x.length → 0 ≤ snrm2 n x 1
  snrm2_sq : ∀ (n : Nat) (x : List R), n < 2 ^ 31 → n ≤ x.length →
    snrm2 n x 1 * snrm2 n x 1 = ∑ l ∈ range n, x.getD l 0 * x.getD l 0

/-- `n as i32`. -/
def asI32 (n : Nat) : Int := if n % 2 ^ 32 < 2 ^ 31 then n % 2 ^ 32 else n % 2 ^ 32 - 2 ^ 32

/-! ## The ordering of the heap -/

structure PivotContainer (R : Type) where
  pivId : Nat
  pivDist : R

namespace PivotContainer

variable {R : Type}

mutual

/-- `partial_cmp`, by `cmp`. -/
def partialCmp : Nat → PivotContainer R → PivotContainer R → Bounded (Option Ordering)
  | 0, _, _ => .error none
  | fuel + 1, self, other => do
      let ord ← cmp fuel self other
      .ok (some ord)

/-- `cmp`, by `partial_cmp`. -/
def cmp : Nat → PivotContainer R → PivotContainer R → Bounded Ordering
  | 0, _, _ => .error none
  | fuel + 1, self, other => do
      let ord ← partialCmp fuel self other
      .ok (ord.getD .lt)

end

end PivotContainer

section

variable {R : Type} [Field R] [LinearOrder R]

/-! ## One block of points -/

/-- `f32::MAX`. -/
def f32Max : R := (2 ^ 24 - 1) * 2 ^ 104

/-- `vec![value; len]`, of values of four bytes. -/
def filled {α : Type} (value : α) (len : Nat) : AnnResult (List α) :=
  if len * 4 < 2 ^ 63 then .ok (List.replicate len value) else .error (.panic "capacity overflow")

def computeVecsL2sq (blas : Blas R) (data : List R) (numPoints dim : Nat) : AnnResult (List R) :=
  (List.range numPoints).mapM fun nIter => do
    let slice ← indexRange data (wrap (nIter * dim)) (wrap ((nIter + 1) * dim))
    let norm := blas.snrm2 (asI32 dim) slice 1
    .ok (norm * norm)

/-- The smallest distance below `f32::MAX`, and the first centre at it. -/
def scanMin (current : List R) : R × Nat :=
  current.zipIdx.foldl (fun s (distance, j) => if distance < s.1 then (distance, j) else s)
    (f32Max, 0)

/-- An entry of the row: pushed while there is room, put in the place of the top if it is nearer. -/
def queuePivot (fuel k : Nat) (queue : List (PivotContainer R)) (entry : R × Nat) :
    Bounded (List (PivotContainer R)) :=
  let thisPiv : PivotContainer R := ⟨entry.2, entry.1⟩
  if queue.length < k then ArrayHeap.push (PivotContainer.partialCmp fuel) queue thisPiv
  else
    match queue.head? with
    | none => .error (some (.panic "called `Option::unwrap()` on a `None` value"))
    | some top =>
        if thisPiv.pivDist < top.pivDist then
          ArrayHeap.replaceTop (PivotContainer.partialCmp fuel) queue thisPiv
        else .ok queue

def topKQueue (fuel k : Nat) (current : List R) : Bounded (List (PivotContainer R)) :=
  current.zipIdx.foldlM (queuePivot fuel k) []

/-- The places of a point are filled from the heap, as long as it has items. -/
def popCenters (fuel : Nat) : List Nat → List (PivotContainer R) → Bounded (List Nat)
  | [], _ => .ok []
  | old :: chunk, queue => do
      let (item, queue) ← ArrayHeap.pop (PivotContainer.partialCmp fuel) queue
      match item with
      | none => .ok (old :: chunk)
      | some thisPiv => do
          let rest ← popCenters fuel chunk queue
          .ok (thisPiv.pivId % 2 ^ 32 :: rest)

/-- `&dist_matrix[i * num_centers..(i + 1) * num_centers]`. -/
def rowOf (distMatrix : List R) (numCenters i : Nat) : Bounded (List R) :=
  bounded (indexRange distMatrix (wrap (i * numCenters)) (wrap ((i + 1) * numCenters)))

/-- The three products: the norms of the points, those of the centres, and `-2 x · c`. -/
def distMatrixOf (blas : Blas R) (data : List R) (numPoints dim : Nat) (centers : List R)
    (numCenters : Nat) (docsL2sq centersL2sq distMatrix : List R) : List R :=
  let points := asI32 numPoints
  let pivots := asI32 numCenters
  let distMatrix := blas.sgemm .rowMajor .none .ordinary points pivots 1 1 docsL2sq 1
    (List.replicate numCenters 1) 1 0 distMatrix pivots
  let distMatrix := blas.sgemm .rowMajor .none .ordinary points pivots 1 1
    (List.replicate numPoints 1) 1 centersL2sq 1 1 distMatrix pivots
  blas.sgemm .rowMajor .none .ordinary points pivots (asI32 dim) (-2) data (asI32 dim) centers
    (asI32 dim) 1 distMatrix pivots

def computeClosestCentersInBlock (fuel : Nat) (blas : Blas R) (data : List R) (numPoints dim : Nat)
    (centers : List R) (numCenters : Nat) (docsL2sq centersL2sq : List R) (centerIndex : List Nat)
    (distMatrix : List R) (k : Nat) : Bounded (List Nat × List R) := do
  if numCenters < k then
    Except.error (some (.index s!"ERROR: k ({k}) > num_centers({numCenters})"))
  let _ ← bounded (filled (1 : R) numCenters)
  let _ ← bounded (filled (1 : R) numPoints)
  let distMatrix := distMatrixOf blas data numPoints dim centers numCenters docsL2sq centersL2sq
    distMatrix
  if k = 1 then
    let centerIndex ← (List.range centerIndex.length).mapM fun i => do
      let current ← rowOf distMatrix numCenters i
      .ok ((scanMin current).2 % 2 ^ 32)
    .ok (centerIndex, distMatrix)
  else if k = 0 then .error (some (.panic "chunk size must be non-zero"))
  else
    let chunked ← (chunks k centerIndex).zipIdx.mapM fun (centerChunk, i) => do
      let current ← rowOf distMatrix numCenters i
      let queue ← topKQueue fuel k current
      popCenters fuel centerChunk queue
    .ok (chunked.flatten, distMatrix)

/-! ## All points -/

/-- The arguments, with what the caller has allocated. -/
structure ClosestCentersCall (R : Type) where
  data : List R
  numPoints : Nat
  dim : Nat
  pivotData : List R
  numCenters : Nat
  k : Nat
  closestCentersIvf : List Nat
  invertedIndex : Option (List (List Nat))
  ptsNormsSquared : Option (List R)
  data_length : data.length = numPoints * dim
  pivot_length : pivotData.length = numCenters * dim
  ivf_length : closestCentersIvf.length = numPoints * k
  /-- A slice takes at most `isize::MAX` bytes. -/
  ivf_inMemory : 4 * closestCentersIvf.length < 2 ^ 63
  /-- One list for each centre, and all of them empty. -/
  index_empty : ∀ index ∈ invertedIndex, index = List.replicate numCenters []
  norms_length : ∀ norms ∈ ptsNormsSquared, norms.length = numPoints

/-- The squared norms of the points: those that are given, or computed ones. -/
def ptsNorms (blas : Blas R) (call : ClosestCentersCall R) : Bounded (List R) :=
  match call.ptsNormsSquared with
  | some ptsNorms => .ok ptsNorms
  | none => do
      let _ ← bounded (filled (0 : R) call.numPoints)
      bounded (computeVecsL2sq blas call.data call.numPoints call.dim)

structure ClosestCentersState (R : Type) where
  closestCenters : List Nat
  distanceMatrix : List R
  closestCentersIvf : List Nat
  invertedIndex : Option (List (List Nat))

/-- `is_multiple_of`. -/
def isMultipleOf (n par : Nat) : Bool := if par = 0 then n = 0 else n % par = 0

def divide (n par : Nat) : AnnResult Nat :=
  if par = 0 then .error (.panic "attempt to divide by zero") else .ok (n / par)

def nBlocks (numPoints parBlockSize : Nat) : AnnResult Nat :=
  if isMultipleOf numPoints parBlockSize then divide numPoints parBlockSize
  else do
    let full ← divide numPoints parBlockSize
    .ok (full + 1)

/-- The points are entered one at a time, under the lock, in the order they get it. -/
def enterPoint (closestCenters : List Nat) (index : List (List Nat)) (j : Nat) :
    AnnResult (List (List Nat)) :=
  match closestCenters[j]? with
  | none => .error (.panic "index out of bounds")
  | some thisCenterId =>
      if thisCenterId < index.length then .ok (index.modify thisCenterId (· ++ [j]))
      else .error (.panic "index out of bounds")

/-- After a block: the centres are copied out, and its points entered in the index. -/
def storeBlock (order : List Nat) (s : ClosestCentersState R) (closestCenters : List Nat)
    (distanceMatrix : List R) : Bounded (ClosestCentersState R) :=
  if s.closestCentersIvf.length ≠ closestCenters.length then
    .error (some (.panic "destination and source slices have different lengths"))
  else
    match s.invertedIndex with
    | none => .ok ⟨closestCenters, distanceMatrix, closestCenters, none⟩
    | some index => do
        let index ← bounded (order.foldlM (enterPoint closestCenters) index)
        .ok ⟨closestCenters, distanceMatrix, closestCenters, some index⟩

/-- The body of the loop over the blocks. -/
def runBlock (fuel : Nat) (blas : Blas R) (order : List Nat) (call : ClosestCentersCall R)
    (ptsNormsSquared pivsNormsSquared : List R) (parBlockSize : Nat) (s : ClosestCentersState R)
    (curBlk : Nat) : Bounded (ClosestCentersState R) := do
  let dataCurBlk ← bounded (indexRange call.data (wrap (curBlk * parBlockSize * call.dim))
    call.data.length)
  let numPtsBlk := min parBlockSize (call.numPoints - curBlk * parBlockSize)
  let ptsNormsBlk ← bounded (indexRange ptsNormsSquared (wrap (curBlk * parBlockSize))
    ptsNormsSquared.length)
  let result ← computeClosestCentersInBlock fuel blas dataCurBlk numPtsBlk call.dim call.pivotData
    call.numCenters ptsNormsBlk pivsNormsSquared s.closestCenters s.distanceMatrix call.k
  storeBlock order s result.1 result.2

/-- What is left in `closest_centers_ivf` and `inverted_index`. The points take the lock of the
index in the order `order`. -/
def computeClosestCenters (fuel : Nat) (blas : Blas R) (order : List Nat)
    (call : ClosestCentersCall R) : Bounded (List Nat × Option (List (List Nat))) := do
  if call.numCenters < call.k then
    Except.error (some (.index s!"ERROR: k ({call.k}) > num_centers({call.numCenters})"))
  let _ ← bounded (filled (0 : R) call.numCenters)
  let ptsNormsSquared ← ptsNorms blas call
  let pivsNormsSquared ← bounded (computeVecsL2sq blas call.pivotData call.numCenters call.dim)
  let parBlockSize := call.numPoints
  let blocks ← bounded (nBlocks call.numPoints parBlockSize)
  let closestCenters ← bounded (filled 0 (wrap (parBlockSize * call.k)))
  let distanceMatrix ← bounded (filled (0 : R) (wrap (call.numCenters * parBlockSize)))
  let s ← (List.range blocks).foldlM
    (runBlock fuel blas order call ptsNormsSquared pivsNormsSquared parBlockSize)
    ⟨closestCenters, distanceMatrix, call.closestCentersIvf, call.invertedIndex⟩
  .ok (s.closestCentersIvf, s.invertedIndex)

end

end ForgeANN
