-- SUMMARY: Ranges that follow one another, and what they give when a range may be cut at certain places.
import Mathlib.Data.List.Basic
import Mathlib.Order.Lattice

/-!
# Spans

Ranges `(a, b)` of numbers, each beginning where the one before it ends.
-/
namespace Lib

/-- `spans` lead from `a` to `b` without gaps. -/
inductive Chain : Nat → List (Nat × Nat) → Nat → Prop
  | nil (a : Nat) : Chain a [] a
  | cons {a m b : Nat} {spans : List (Nat × Nat)} (h : a < m) (hrest : Chain m spans b) :
      Chain a ((a, m) :: spans) b

namespace Chain

variable {a m b : Nat} {spans : List (Nat × Nat)}

theorem le (h : Chain a spans b) : a ≤ b := by
  induction h with
  | nil a => exact Nat.le_refl a
  | cons h _ ih => exact (Nat.le_of_lt h).trans ih

theorem concat (h : Chain a spans m) (hlt : m < b) : Chain a (spans ++ [(m, b)]) b := by
  induction h with
  | nil a => exact .cons hlt (.nil b)
  | cons h _ ih => exact .cons h (ih hlt)

theorem start_le (h : Chain a spans b) {span : Nat × Nat} (hspan : span ∈ spans) : a ≤ span.1 := by
  induction h with
  | nil a => cases hspan
  | cons hlt _ ih =>
      rcases List.mem_cons.mp hspan with rfl | hspan
      · exact Nat.le_refl _
      · exact (Nat.le_of_lt hlt).trans (ih hspan)

/-- Each begins behind the one before it. -/
theorem pairwise (h : Chain a spans b) : spans.Pairwise fun s t => s.1 < t.1 := by
  induction h with
  | nil a => exact .nil
  | cons hlt hrest ih => exact .cons (fun span hspan => hlt.trans_le (hrest.start_le hspan)) ih

/-- What can be cut where a span begins is what the spans give one after the other. -/
theorem flatMap_eq {β : Type} {f : Nat → Nat → List β} {Cut : Nat → Prop}
    (hnil : ∀ a, f a a = [])
    (hcut : ∀ a m b, Cut a → Cut m → a ≤ m → m ≤ b → f a b = f a m ++ f m b)
    (h : Chain a spans b) (hstart : ∀ span ∈ spans, Cut span.1) :
    spans.flatMap (fun span => f span.1 span.2) = f a b := by
  induction h with
  | nil a => exact (hnil a).symm
  | @cons a m b spans hlt hrest ih =>
      have hrec := ih fun span hspan => hstart span (List.mem_cons_of_mem _ hspan)
      rw [List.flatMap_cons, hrec]
      cases hrest with
      | nil => rw [hnil, List.append_nil]
      | cons hlt' hrest' =>
          exact (hcut _ _ _ (hstart _ List.mem_cons_self)
            (hstart _ (List.mem_cons_of_mem _ List.mem_cons_self)) (Nat.le_of_lt hlt)
            ((Nat.le_of_lt hlt').trans hrest'.le)).symm

end Chain

/-- The spans of `n` in steps of `size`. -/
theorem exists_chain_steps {size : Nat} (hsize : 0 < size) (n : Nat) :
    Chain 0 ((List.range ((n + size - 1) / size)).map fun i => (size * i, min (size * i + size) n)) n := by
  have hrun : ∀ k, size * k < n + size →
      Chain 0 ((List.range k).map fun i => (size * i, min (size * i + size) n)) (min (size * k) n) := by
    intro k
    induction k with
    | zero => exact fun _ => by simpa using Chain.nil 0
    | succ k ih =>
        intro hk
        rw [Nat.mul_succ] at hk
        have hbefore := ih (by omega)
        rw [Nat.min_eq_left (by omega)] at hbefore
        rw [List.range_succ, List.map_append, Nat.mul_succ]
        exact hbefore.concat (by omega)
  have hlast : size * ((n + size - 1) / size) < n + size := by
    have := Nat.mul_div_le (n + size - 1) size
    omega
  have hreached : n ≤ size * ((n + size - 1) / size) := by
    have := Nat.div_add_mod (n + size - 1) size
    have := Nat.mod_lt (n + size - 1) hsize
    omega
  have h := hrun _ hlast
  rwa [Nat.min_eq_right hreached] at h

end Lib
