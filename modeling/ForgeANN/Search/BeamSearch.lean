-- SUMMARY: The beam search: its two heaps, what it has visited, and why it stops at a local optimum.
import ForgeANN.Common.FloatArith
import ForgeANN.Dataset.InmemDataset
import ForgeANN.Lib.BinaryHeap
import ForgeANN.Lib.Except
import ForgeANN.Search.VisitTracker
import Mathlib.Data.Finset.Card
import Mathlib.Data.Prod.Lex

/-!
# Beam search

The frontier is a heap that gives its nearest node first, and the best nodes are
a heap of bounded size that gives its farthest node first. The search stops at a
candidate that is farther than the worst of a full best heap.
-/
namespace ForgeANN

open Lib

/-! ## The data -/

structure MmapF32Data where
  mmap : Bytes
  rows : Nat
  dim : Nat
  fits : 8 + rows * dim * 4 ≤ mmap.length

namespace MmapF32Data

/-- `MmapF32Data::open`, on a file that was mapped. -/
def openFile (path : String) (mmap : Bytes) : AnnResult MmapF32Data :=
  if mmap.length < 8 then .error (.index s!"fbin file {path} is too small")
  else
    let rows := (u32OfLe (mmap.take 4)).toNat
    let dim := (u32OfLe ((mmap.drop 4).take 4)).toNat
    let expectedLen := 8 + rows * dim * 4
    if 2 ^ 64 ≤ rows * dim * 4 then .error (.index s!"fbin dimensions overflow for {path}")
    else if 2 ^ 64 ≤ expectedLen then .error (.index s!"fbin byte length overflow for {path}")
    else if h : mmap.length < expectedLen then
      .error (.index s!"fbin file {path} is truncated: got {mmap.length} bytes, expected at least {expectedLen}")
    else .ok ⟨mmap, rows, dim, Nat.le_of_not_lt h⟩

/-- The values of a row. -/
def values (data : MmapF32Data) (row : Nat) : List F32 :=
  f32sOfBytes (data.mmap.readAt (8 + row * data.dim * 4) (data.dim * 4))

def row (data : MmapF32Data) (row : Nat) : AnnResult (List F32) :=
  if data.mmap.length < 8 + row * data.dim * 4 + data.dim * 4 then
    .error (.panic "range end index out of range for slice")
  else .ok (data.values row)

theorem row_eq {data : MmapF32Data} {row : Nat} (h : row < data.rows) :
    data.row row = .ok (data.values row) := by
  have hle : (row + 1) * (data.dim * 4) ≤ data.rows * (data.dim * 4) := Nat.mul_le_mul_right _ h
  have hfits := data.fits
  rw [Nat.succ_mul, ← Nat.mul_assoc, ← Nat.mul_assoc] at hle
  rw [MmapF32Data.row, if_neg (by omega)]

end MmapF32Data

def l2Distance (a b : List F32) : F32 :=
  (List.zipWith (fun x y => (x.sub y).mul (x.sub y)) a b).foldl F32.add F32.zero

/-! ## The heaps -/

/-- `OrderedF32::cmp`: what cannot be compared is taken for equal. -/
def orderedCmp (a b : F32) : Ordering := if a.lt b then .lt else if b.lt a then .gt else .eq

/-- The order of the pairs `(OrderedF32, u32)`. -/
def entryCmp (a b : F32 × UInt32) : Ordering :=
  match orderedCmp a.1 b.1 with
  | .eq => if a.2 < b.2 then .lt else if b.2 < a.2 then .gt else .eq
  | ord => ord

/-- `BinaryHeap<Reverse<(OrderedF32, u32)>>` and `BinaryHeap<(OrderedF32, u32)>`. -/
structure SearchHeaps where
  candidates : BinaryHeap (F32 × UInt32) fun a b => entryCmp b a
  best : BinaryHeap (F32 × UInt32) entryCmp

structure SearchState (heaps : SearchHeaps) where
  candidates : heaps.candidates.Heap
  best : heaps.best.Heap
  visited : VisitTracker

/-! ## The search -/

section

variable {heaps : SearchHeaps} (query : List F32) (data : MmapF32Data) (graph : List (List UInt32))
  (lEff : Nat)

/-- The body of the loop over the neighbors. -/
def visitNeighbor (state : SearchState heaps) (nbr : UInt32) : AnnResult (SearchState heaps) :=
  if graph.length ≤ nbr.toNat then .ok state
  else do
    let (isNew, visited) ← state.visited.markIfNew nbr.toNat
    if isNew then do
      let row ← data.row nbr.toNat
      let dist := l2Distance query row
      .ok {
        candidates := heaps.candidates.push state.candidates (dist, nbr)
        best := heaps.best.trim lEff (heaps.best.push state.best (dist, nbr))
        visited }
    else .ok { state with visited }

/-- The loop over the candidates, for at most `fuel` of them. -/
def searchLoop : Nat → SearchState heaps → AnnResult (Option (SearchState heaps))
  | 0, _ => .ok none
  | fuel + 1, state =>
      match heaps.candidates.pop state.candidates with
      | none => .ok (some state)
      | some ((cd, cid), candidates) =>
          if lEff ≤ heaps.best.len state.best ∧
              (heaps.best.peek state.best).any (fun worst => worst.1.lt cd) then
            .ok (some { state with candidates })
          else
            match graph[cid.toNat]? with
            | none => .error (.panic "index out of bounds")
            | some neighbors => do
                let state ← neighbors.foldlM (visitNeighbor query data graph lEff)
                  { state with candidates }
                searchLoop fuel state

end

/-- Sorted by distance, the first `k` ids. -/
def nearestIds (k : Nat) (best : List (F32 × UInt32)) : List UInt32 :=
  ((best.mergeSort fun a b => orderedCmp a.1 b.1 != .gt).take k).map Prod.snd

/-- The ids found, and the tracker for the next search. -/
def searchOne (heaps : SearchHeaps) (fuel : Nat) (query : List F32) (data : MmapF32Data)
    (graph : List (List UInt32)) (start : UInt32) (k l : Nat) (visited : VisitTracker) :
    AnnResult (Option (List UInt32 × VisitTracker)) := do
  let lEff := max l (wrap (k + 1))
  let visited ← visited.reset.mark start.toNat
  let row ← data.row start.toNat
  let d0 := l2Distance query row
  if 2 ^ 63 ≤ lEff * 8 then .error (.panic "capacity overflow")
  else
    let final ← searchLoop query data graph lEff fuel {
      candidates := heaps.candidates.push heaps.candidates.new (d0, start)
      best := heaps.best.push heaps.best.new (d0, start)
      visited }
    .ok (final.map fun state => (nearestIds k (heaps.best.intoIter state.best), state.visited))

end ForgeANN
