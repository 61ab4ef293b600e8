-- SUMMARY: The array of a `StackTopK`, and the first leaders of the stable sort that it holds.
import ForgeANN.Common.FloatArith
import ForgeANN.Lib.StableTop
import ForgeANN.Rbc.LeaderKernels
import Mathlib.Data.List.Induction

/-!
# A top-k array

The nearest entries are at the front of an array of 32. A new one is written
behind them, over the last if there are `k`, and swapped forward past those it is
nearer than; what the array then holds is the beginning of the stable sort of all
that was pushed.
-/
namespace ForgeANN

open Lib

/-- `StackTopK` with its array, of 32 entries. -/
structure StackTopKArray where
  buf : List (F32 × Nat)
  len : Nat
  k : Nat
deriving DecidableEq, Repr

namespace StackTopKArray

def new (k : Nat) : StackTopKArray := ⟨List.replicate 32 (F32.maxValue, 0), 0, min k 32⟩

/-- The entry at a position is swapped forward past those it is nearer than. -/
def moveForward : Nat → List (F32 × Nat) → List (F32 × Nat)
  | 0, buf => buf
  | i + 1, buf =>
      match buf[i + 1]?, buf[i]? with
      | some entry, some before =>
          if entry.1.lt before.1 then
            moveForward i ((buf.set (i + 1) before).set i entry)
          else buf
      | _, _ => buf

/-- `push`, or `none` where it panics: with `k = 0` there is no last entry to compare with. -/
def push (topK : StackTopKArray) (dist : F32) (id : Nat) : Option StackTopKArray :=
  if topK.len < topK.k then
    some { topK with
      buf := moveForward topK.len (topK.buf.set topK.len (dist, id))
      len := topK.len + 1 }
  else if topK.k = 0 then none
  else
    match topK.buf[topK.k - 1]? with
    | none => none
    | some last =>
        if dist.lt last.1 then
          some { topK with
            buf := moveForward (topK.k - 1) (topK.buf.set (topK.k - 1) (dist, id)) }
        else some topK

def iter (topK : StackTopKArray) : List (F32 × Nat) := topK.buf.take topK.len

end StackTopKArray

/-! ## The array and the list -/

/-- The array holds the entries of the list, the nearest first. -/
structure StackTopK.InArray (topK : StackTopK) (array : StackTopKArray) : Prop where
  size : array.buf.length = 32
  k_eq : array.k = topK.k
  k_le : topK.k ≤ 32
  len_eq : array.len = topK.buf.length
  len_le : topK.buf.length ≤ topK.k
  iter_eq : array.iter = topK.buf.reverse

theorem StackTopKArray.moveForward_append (front : List (F32 × Nat)) (entry : F32 × Nat)
    (back : List (F32 × Nat)) :
    moveForward front.length (front.reverse ++ entry :: back) =
      (StackTopK.sift entry front).reverse ++ back := by
  induction front generalizing back with
  | nil => rfl
  | cons before front ih =>
      have hlen : front.reverse.length = front.length := List.length_reverse
      have hentry : (front.reverse ++ before :: entry :: back)[front.length + 1]? = some entry := by
        rw [List.getElem?_append_right (by omega), hlen, Nat.add_sub_cancel_left]
        rfl
      have hbefore : (front.reverse ++ before :: entry :: back)[front.length]? = some before := by
        rw [List.getElem?_append_right (by omega), hlen, Nat.sub_self]
        rfl
      have hswap : ((front.reverse ++ before :: entry :: back).set (front.length + 1) before).set
          front.length entry = front.reverse ++ entry :: before :: back := by
        rw [List.set_append_right _ _ (by omega), List.set_append_right _ _ (by omega), hlen,
          Nat.add_sub_cancel_left, Nat.sub_self]
        rfl
      rw [List.reverse_cons, List.append_assoc, List.singleton_append, List.length_cons, moveForward,
        hentry, hbefore, StackTopK.sift]
      simp only
      split_ifs
      · rw [hswap, ih, List.reverse_cons, List.append_assoc, List.singleton_append]
      · rw [List.reverse_cons, List.reverse_cons, List.append_assoc, List.append_assoc]
        rfl

namespace StackTopK

variable {topK : StackTopK} {array : StackTopKArray}

theorem inArray_new (k : Nat) : (StackTopK.new k).InArray (.new k) where
  size := List.length_replicate
  k_eq := rfl
  k_le := Nat.min_le_right k 32
  len_eq := rfl
  len_le := Nat.zero_le _
  iter_eq := rfl

/-- An entry is written behind a number of the others, and moved forward. -/
theorem InArray.write (h : topK.InArray array) (rest more : List (F32 × Nat))
    (hrest : topK.buf = more ++ rest) (hroom : rest.length < 32) (entry : F32 × Nat) :
    (StackTopKArray.moveForward rest.length (array.buf.set rest.length entry)).length = 32 ∧
    (StackTopKArray.moveForward rest.length (array.buf.set rest.length entry)).take
      (rest.length + 1) = (sift entry rest).reverse := by
  have hiter := h.iter_eq
  rw [StackTopKArray.iter, h.len_eq, hrest, List.reverse_append] at hiter
  have hfront : array.buf.take rest.length = rest.reverse := by
    have htake := congrArg (List.take rest.length) hiter
    rwa [List.take_take, List.length_append, Nat.min_eq_left (by omega),
      List.take_left' List.length_reverse] at htake
  have hset : array.buf.set rest.length entry =
      rest.reverse ++ entry :: array.buf.drop (rest.length + 1) := by
    rw [List.set_eq_take_append_cons_drop, if_pos (by rw [h.size]; exact hroom), hfront]
  have hsift : (sift entry rest).reverse.length = rest.length + 1 := by
    rw [List.length_reverse, (sift_perm entry rest).length_eq, List.length_cons]
  rw [hset, StackTopKArray.moveForward_append]
  constructor
  · rw [List.length_append, hsift, List.length_drop, h.size]
    omega
  · rw [← hsift, List.take_left]

/-- On the array, a push does what it does on the list. -/
theorem InArray.push (h : topK.InArray array) (hpos : 0 < topK.k) (dist : F32) (id : Nat) :
    ∃ array', array.push dist id = some array' ∧ (topK.push dist id).InArray array' := by
  have hk := h.k_le
  rw [StackTopKArray.push, StackTopK.push, h.len_eq, h.k_eq]
  by_cases hroom : topK.buf.length < topK.k
  · rw [if_pos hroom, if_pos hroom]
    obtain ⟨hsize, htake⟩ := h.write topK.buf [] rfl (by omega) (dist, id)
    have hlen : (sift (dist, id) topK.buf).length = topK.buf.length + 1 :=
      (sift_perm _ _).length_eq
    exact ⟨_, rfl, hsize, rfl, hk, hlen.symm, by simp only [hlen]; exact hroom, htake⟩
  · rw [if_neg hroom, if_neg hroom, if_neg hpos.ne']
    have hfull : topK.buf.length = topK.k := le_antisymm h.len_le (not_lt.mp hroom)
    cases hbuf : topK.buf with
    | nil =>
        rw [hbuf, List.length_nil] at hfull
        omega
    | cons last rest =>
        have hlen : rest.length + 1 = topK.k := by rw [← hfull, hbuf, List.length_cons]
        have hlast : array.buf[topK.k - 1]? = some last := by
          have hiter := h.iter_eq
          rw [StackTopKArray.iter, h.len_eq, hfull, hbuf, List.reverse_cons] at hiter
          rw [← List.getElem?_take_of_lt (by omega : topK.k - 1 < topK.k), hiter,
            List.getElem?_append_right (by rw [List.length_reverse]; omega), List.length_reverse]
          have hzero : topK.k - 1 - rest.length = 0 := by omega
          rw [hzero]
          rfl
        rw [hlast]
        simp only
        split_ifs
        · obtain ⟨hsize, htake⟩ := h.write rest [last] hbuf (by omega) (dist, id)
          have hplace : topK.k - 1 = rest.length := by omega
          have hsift : (sift (dist, id) rest).length = rest.length + 1 := (sift_perm _ _).length_eq
          rw [hplace]
          refine ⟨_, rfl, hsize, rfl, hk, hsift.symm, ?_, htake⟩
          simp only
          rw [hsift, hlen]
        · exact ⟨array, rfl, h⟩

/-! ## The stable sort -/

/-- Where an entry's distance lies. -/
def place (entry : F32 × Nat) : Int := entry.1.key

/-- Numbers compare by their places. -/
theorem lt_iff_place {a b : F32 × Nat} (ha : a.1.isNaN = false) (hb : b.1.isNaN = false) :
    a.1.lt b.1 = true ↔ place a < place b := by
  rw [F32.lt_iff]
  exact ⟨fun h => h.2.2, fun h => ⟨ha, hb, h⟩⟩

/-! ## The bounded buffer -/

def nearer (a b : F32 × Nat) : Bool := a.1.lt b.1

def notNearer (a b : F32 × Nat) : Bool := !a.1.lt b.1

theorem sift_eq_insertFromBack (entry : F32 × Nat) (buf : List (F32 × Nat)) :
    sift entry buf = insertFromBack nearer entry buf := by
  induction buf with
  | nil => rfl
  | cons last buf ih =>
      rw [sift, insertFromBack, ih]
      rfl

theorem push_eq_pushBounded (topK : StackTopK) (dist : F32) (id : Nat) :
    (topK.push dist id).buf = pushBounded nearer notNearer topK.k topK.buf (dist, id) := by
  unfold push pushBounded
  split_ifs with hroom
  · exact sift_eq_insertFromBack ..
  cases h : topK.buf with
  | nil => exact h
  | cons last buf =>
      have hstays : notNearer (dist, id) last = !dist.lt last.1 := rfl
      simp only [hstays]
      cases hlt : dist.lt last.1 with
      | true => exact sift_eq_insertFromBack ..
      | false => exact h

/-- What pushing a list of entries comes to, on the list. -/
def pushAll (topK : StackTopK) (entries : List (F32 × Nat)) : StackTopK :=
  entries.foldl (fun topK entry => topK.push entry.1 entry.2) topK

theorem pushAll_k (topK : StackTopK) (entries : List (F32 × Nat)) :
    (topK.pushAll entries).k = topK.k := by
  induction entries generalizing topK with
  | nil => rfl
  | cons entry entries ih =>
      rw [pushAll, List.foldl_cons]
      exact (ih _).trans (push_k entry.1 entry.2)

/-- The list keeps what the bounded buffer keeps. -/
theorem pushAll_eq_pushAllBounded {k : Nat} (hk : k ≤ 32) (entries : List (F32 × Nat)) :
    ((StackTopK.new k).pushAll entries).buf = pushAllBounded nearer notNearer k entries := by
  induction entries using List.reverseRecOn with
  | nil => rfl
  | append_singleton entries entry ih =>
      have hlimit : ((StackTopK.new k).pushAll entries).k = k := by
        rw [pushAll_k]
        exact Nat.min_eq_left hk
      rw [pushAll, List.foldl_concat, ← pushAll, push_eq_pushBounded, hlimit, ih,
        pushAllBounded_concat]

/-- The first `k` entries of the stable sort by distance. -/
theorem pushAll_eq_take_sort {k : Nat} (hk : k ≤ 32) {entries : List (F32 × Nat)}
    (hnumber : ∀ e ∈ entries, e.1.isNaN = false) :
    ((StackTopK.new k).pushAll entries).buf.reverse = (sortByKey place entries).take k := by
  rw [pushAll_eq_pushAllBounded hk]
  apply pushAllBounded_eq_take_sort
  · exact fun a ha b hb => lt_iff_place (hnumber a ha) (hnumber b hb)
  · intro a ha b hb
    rw [notNearer, Bool.not_eq_true', ← Bool.not_eq_true,
      lt_iff_place (hnumber a ha) (hnumber b hb), not_lt]

end StackTopK

end ForgeANN
