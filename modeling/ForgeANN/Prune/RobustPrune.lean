-- SUMMARY: RobustPrune: the nearest candidates are selected, and occlude those that are much nearer to them.
import ForgeANN.Common.Basic
import ForgeANN.Common.FloatArith
import ForgeANN.Lib.Except

/-!
# RobustPrune

Candidates are visited in the order of distance, in rounds with a growing bound.
One whose occlusion factor is not above the bound is selected, and raises the
factors of the candidates behind it. The arithmetic is a parameter: it is that of
`f32` in the code, and exact where the geometry is looked at.
-/
namespace ForgeANN

open Lib

/-- Arithmetic on distances and occlusion factors, with the comparisons of the code. -/
structure PruneArith (D F : Type) where
  lt : D → D → Bool
  isNaN : D → Bool
  isZero : D → Bool
  div : D → D → F
  zero : F
  one : F
  maxValue : F
  /-- `*= 1.2`. -/
  grow : F → F
  max : F → F → F
  le : F → F → Bool
  gt : F → F → Bool

/-- The arithmetic of the code. -/
def PruneArith.f32 : PruneArith F32 F32 where
  lt := F32.lt
  isNaN := F32.isNaN
  isZero v := v.eq .zero
  div := F32.div
  zero := .zero
  one := ⟨0x3f800000⟩
  maxValue := .maxValue
  grow v := v.mul ⟨0x3f99999a⟩
  max := F32.max
  le a b := b.ge a
  gt a b := b.lt a

inductive Metric where
  | l2
  | cosine
  | ip
deriving DecidableEq, Repr

structure Neighbor (D : Type) where
  id : UInt32
  distance : D
deriving DecidableEq, Repr

inductive PruneError where
  | ann (err : AnnError)
  | indexConfig (parameter err : String)
deriving DecidableEq, Repr

structure RobustPrune (F : Type) where
  maxDegree : Nat
  maxCandidateSize : Nat
  alpha : F
  saturateGraph : Bool
  metric : Metric

/-- `a.cmp(b)` is not `Greater`. -/
def Neighbor.le {D F : Type} (A : PruneArith D F) (a b : Neighbor D) : Prop :=
  A.lt a.distance b.distance = true ∨ (A.lt b.distance a.distance = false ∧ a.id ≤ b.id)

/-- `sort_unstable`. With distances that cannot be compared there, nothing is said of the order; the
sort may panic there too, which is left out. -/
structure NeighborSort {D F : Type} (A : PruneArith D F) where
  sort : List (Neighbor D) → List (Neighbor D)
  perm : ∀ l, (sort l).Perm l
  sorted : ∀ l, (∀ n ∈ l, A.isNaN n.distance = false) → (sort l).Pairwise (Neighbor.le A)

/-! ## Pruning -/

/-- A candidate with its occlusion factor. -/
abbrev PruneSlot (D F : Type) := Neighbor D × F

section

variable {D F : Type} (A : PruneArith D F) (getDistance : UInt32 → UInt32 → AnnResult D)

/-- The bound of a round. -/
def PruneArith.bound : Nat → F
  | 0 => A.one
  | n + 1 => A.grow (bound n)

namespace RobustPrune

variable (prune : RobustPrune F)

/-- What the selection of `neighbor` does to a candidate behind it. -/
def occlude (neighbor : Neighbor D) (slot : PruneSlot D F) : Except PruneError (PruneSlot D F) :=
  if A.gt slot.2 prune.alpha then .ok slot
  else
    match getDistance slot.1.id neighbor.id with
    | .error err => .error (.ann err)
    | .ok djk =>
        match prune.metric with
        | .ip => .error (.indexConfig "metric" "ForgeANN final prune supports only L2/Cosine")
        | _ => .ok (slot.1,
            if A.isZero djk then A.maxValue else A.max slot.2 (A.div slot.1.distance djk))

/-- The location itself is not selected. -/
def select (location : UInt32) (neighbor : Neighbor D) (result : List UInt32) : List UInt32 :=
  if neighbor.id = location then result else result ++ [neighbor.id]

/-- The candidates from one on, with what is selected so far. -/
def pass (location : UInt32) (curAlpha : F) : Nat → List (PruneSlot D F) → List UInt32 →
    Except PruneError (List (PruneSlot D F) × List UInt32)
  | _, [], result => .ok ([], result)
  | 0, slots, result => .ok (slots, result)
  | n + 1, (neighbor, factor) :: rest, result =>
      if prune.maxDegree ≤ result.length then .ok ((neighbor, factor) :: rest, result)
      else if A.gt factor curAlpha then do
        let passed ← pass location curAlpha n rest result
        .ok ((neighbor, factor) :: passed.1, passed.2)
      else do
        let occluded ← rest.mapM (prune.occlude A getDistance neighbor)
        let passed ← pass location curAlpha n occluded (select location neighbor result)
        .ok ((neighbor, A.maxValue) :: passed.1, passed.2)

/-- Rounds, as long as the bound is not above `alpha`. `none` where more than `fuel` would be
needed. -/
def rounds (location : UInt32) : Nat → F → List (PruneSlot D F) → List UInt32 →
    Option (Except PruneError (List (PruneSlot D F) × List UInt32))
  | 0, _, _, _ => none
  | fuel + 1, curAlpha, slots, result =>
      if A.le curAlpha prune.alpha = true ∧ result.length < prune.maxDegree then
        match prune.pass A getDistance location curAlpha slots.length slots result with
        | .error err => some (.error err)
        | .ok passed => rounds location fuel (A.grow curAlpha) passed.1 passed.2
      else some (.ok (slots, result))

/-- What is left fills the result up. -/
def saturate (location : UInt32) : List (Neighbor D) → List UInt32 → List UInt32
  | [], result => result
  | neighbor :: pool, result =>
      if prune.maxDegree ≤ result.length then result
      else if neighbor.id ≠ location ∧ neighbor.id ∉ result then
        saturate location pool (result ++ [neighbor.id])
      else saturate location pool result

/-- The candidates that are looked at. -/
def candidates (sort : NeighborSort A) (pool : List (Neighbor D)) : List (Neighbor D) :=
  (sort.sort pool).take prune.maxCandidateSize

/-- After the rounds. -/
def finish (location : UInt32) (candidates : List (Neighbor D)) (result : List UInt32) :
    Except PruneError (List UInt32) :=
  let filled :=
    if prune.saturateGraph = true ∧ A.gt prune.alpha A.one = true then
      prune.saturate location candidates result
    else result
  if prune.maxDegree < filled.length then
    .error (.ann (.index
      s!"final prune produced {filled.length} neighbors over max degree {prune.maxDegree}"))
  else .ok filled

def robustPruneCandidates (sort : NeighborSort A) (fuel : Nat) (location : UInt32)
    (pool : List (Neighbor D)) : Option (Except PruneError (List UInt32)) :=
  if pool.isEmpty then some (.ok [])
  else
    (prune.rounds A getDistance location fuel A.one
      ((prune.candidates A sort pool).map fun neighbor => (neighbor, A.zero)) []).map fun outcome =>
        match outcome with
        | .error err => .error err
        | .ok passed => prune.finish A location (prune.candidates A sort pool) passed.2

end RobustPrune

end

end ForgeANN
