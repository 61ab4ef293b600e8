-- SUMMARY: A binary heap in an array, over a comparison that may fail to return.
import ForgeANN.Lib.Except

/-!
# Array heaps

The heap of the standard library. Items are compared by a partial comparison, and
where that does not come back, neither does the operation. Putting a first item
in compares nothing; putting in a second one does.
-/
namespace Lib

variable {ε α : Type}

namespace ArrayHeap

section

variable (partialCmp : α → α → Except ε (Option Ordering))

/-! ## Comparisons -/

def le (a b : α) : Except ε Bool := do
  let ord ← partialCmp a b
  .ok (ord.any Ordering.isLE)

def lt (a b : α) : Except ε Bool := do
  let ord ← partialCmp a b
  .ok (ord.any Ordering.isLT)

def ge (a b : α) : Except ε Bool := do
  let ord ← partialCmp a b
  .ok (ord.any Ordering.isGE)

/-! ## Sifting -/

def swapAt (data : List α) (i j : Nat) : List α :=
  match data[i]?, data[j]? with
  | some x, some y => (data.set i y).set j x
  | _, _ => data

/-- `sift_up`, to the root. -/
def siftUp (data : List α) (pos : Nat) : Except ε (List α) :=
  if _h : pos = 0 then .ok data
  else
    match data[pos]?, data[(pos - 1) / 2]? with
    | some x, some parent => do
        let stop ← le partialCmp x parent
        if stop then .ok data else siftUp (swapAt data pos ((pos - 1) / 2)) ((pos - 1) / 2)
    | _, _ => .ok data
termination_by pos
decreasing_by omega

/-- Of two children, the greater one; of equals, the right one. -/
def greaterChild (data : List α) (child : Nat) : Except ε Nat :=
  match data[child]?, data[child + 1]? with
  | some left, some right => do
      let isRight ← le partialCmp left right
      .ok (if isRight then child + 1 else child)
  | _, _ => .ok child

/-- `sift_down`, for at most a number of steps. -/
def siftDown : Nat → List α → Nat → Except ε (List α)
  | 0, data, _ => .ok data
  | steps + 1, data, pos =>
      if 2 * pos + 2 < data.length then do
        let child ← greaterChild partialCmp data (2 * pos + 1)
        match data[pos]?, data[child]? with
        | some x, some y => do
            let stop ← ge partialCmp x y
            if stop then .ok data else siftDown steps (swapAt data pos child) child
        | _, _ => .ok data
      else
        match data[pos]?, data[2 * pos + 1]? with
        | some x, some y => do
            let move ← lt partialCmp x y
            .ok (if move then swapAt data pos (2 * pos + 1) else data)
        | _, _ => .ok data

/-- `sift_down_to_bottom`: all the way down past the greater children, and up again. -/
def siftDownToBottom : Nat → List α → Nat → Except ε (List α)
  | 0, data, _ => .ok data
  | steps + 1, data, pos =>
      if 2 * pos + 2 < data.length then do
        let child ← greaterChild partialCmp data (2 * pos + 1)
        siftDownToBottom steps (swapAt data pos child) child
      else if 2 * pos + 1 < data.length then
        siftUp partialCmp (swapAt data pos (2 * pos + 1)) (2 * pos + 1)
      else siftUp partialCmp data pos

/-! ## Operations -/

def push (data : List α) (item : α) : Except ε (List α) :=
  siftUp partialCmp (data ++ [item]) data.length

/-- Writing through `peek_mut`. -/
def replaceTop (data : List α) (item : α) : Except ε (List α) :=
  siftDown partialCmp data.length (data.set 0 item) 0

def pop (data : List α) : Except ε (Option α × List α) :=
  match data.getLast? with
  | none => .ok (none, [])
  | some last =>
      match data.dropLast with
      | [] => .ok (some last, [])
      | top :: rest => do
          let rest ← siftDownToBottom partialCmp (rest.length + 1) (last :: rest) 0
          .ok (some top, rest)

end

variable {partialCmp : α → α → Except ε (Option Ordering)}

theorem push_nil (item : α) : push partialCmp [] item = .ok [item] := by
  rw [push, siftUp, dif_pos List.length_nil]
  rfl

/-- A second item is compared with the one there is. -/
theorem push_error {e : ε} (h : ∀ a b, partialCmp a b = .error e) {data : List α} (hne : data ≠ [])
    (item : α) : push partialCmp data item = .error e := by
  have hpos : 0 < data.length := List.length_pos_iff.mpr hne
  have hlast : (data ++ [item])[data.length]? = some item := by
    rw [List.getElem?_append_right (Nat.le_refl _), Nat.sub_self]
    rfl
  have hparent : (data.length - 1) / 2 < data.length := by omega
  rw [push, siftUp, dif_neg (Nat.ne_of_gt hpos), hlast, List.getElem?_append_left hparent,
    List.getElem?_eq_getElem hparent]
  simp only [le, h, error_bind]

end ArrayHeap

end Lib
