-- SUMMARY: Names that end in zero-padded numbers, and how far their order is the order of the numbers.
import Mathlib.Data.List.Lex
import Mathlib.Data.Nat.Digits.Lemmas

/-!
# Zero-padded numbers

Names are compared byte for byte. Numbers padded to one width compare as numbers
as long as they fit into it.
-/
namespace Lib

/-- The digits of `format!("{:0width$}", n)`, for a width that is not zero. -/
def zeroPadded (width n : Nat) : List Nat :=
  List.replicate (width - (Nat.digits 10 n).length) 0 ++ (Nat.digits 10 n).reverse

/-- A name as bytes, with a padded number in it. -/
def paddedName (front : List Nat) (width n : Nat) (back : List Nat) : List Nat :=
  front ++ (zeroPadded width n).map (48 + ·) ++ back

section

variable {width n m b : Nat} {as bs : List Nat}

theorem zeroPadded_length (h : n < 10 ^ width) : (zeroPadded width n).length = width := by
  have hdigits : (Nat.digits 10 n).length ≤ width :=
    (Nat.digits_length_le_iff (by decide) n).mpr h
  rw [zeroPadded, List.length_append, List.length_replicate, List.length_reverse]
  omega

theorem ofDigits_zeroPadded (width n : Nat) :
    Nat.ofDigits 10 (zeroPadded width n).reverse = n := by
  rw [zeroPadded, List.reverse_append, List.reverse_reverse, List.reverse_replicate,
    Nat.ofDigits_append_replicate_zero, Nat.ofDigits_digits]

theorem lt_of_mem_zeroPadded {d : Nat} (h : d ∈ zeroPadded width n) : d < 10 := by
  rcases List.mem_append.mp h with h | h
  · rw [List.eq_of_mem_replicate h]
    decide
  · exact Nat.digits_lt_base (by decide) (List.mem_reverse.mp h)

/-- Of numbers with as many digits, the one that is first in the order of names is the smaller. -/
theorem ofDigits_lt_of_lt (hb : 1 < b) (hlength : as.length = bs.length) (has : ∀ d ∈ as, d < b)
    (h : as < bs) : Nat.ofDigits b as.reverse < Nat.ofDigits b bs.reverse := by
  induction h with
  | nil => cases hlength
  | @cons d as bs h ih =>
      have hrest := ih (Nat.succ.inj hlength) fun d hd => has d (List.mem_cons_of_mem _ hd)
      have hsame : as.length = bs.length := Nat.succ.inj hlength
      rw [List.reverse_cons, List.reverse_cons, Nat.ofDigits_append, Nat.ofDigits_append,
        List.length_reverse, List.length_reverse, hsame]
      exact Nat.add_lt_add_right hrest _
  | @rel d as e bs h =>
      have hsame : as.length = bs.length := Nat.succ.inj hlength
      have hlow : Nat.ofDigits b as.reverse < b ^ bs.length := by
        rw [← hsame, ← List.length_reverse]
        exact Nat.ofDigits_lt_base_pow_length hb fun d hd =>
          has d (List.mem_cons_of_mem _ (List.mem_reverse.mp hd))
      rw [List.reverse_cons, List.reverse_cons, Nat.ofDigits_append, Nat.ofDigits_append,
        List.length_reverse, List.length_reverse, hsame, Nat.ofDigits_singleton,
        Nat.ofDigits_singleton]
      calc Nat.ofDigits b as.reverse + b ^ bs.length * d
          < b ^ bs.length + b ^ bs.length * d := Nat.add_lt_add_right hlow _
        _ = b ^ bs.length * (d + 1) := by rw [Nat.mul_succ, Nat.add_comm]
        _ ≤ b ^ bs.length * e := Nat.mul_le_mul_left _ h
        _ ≤ Nat.ofDigits b bs.reverse + b ^ bs.length * e := Nat.le_add_left _ _

/-- Numbers that fit into the width are ordered as their digits. -/
theorem zeroPadded_lt (h : n < m) (hm : m < 10 ^ width) : zeroPadded width n < zeroPadded width m := by
  rcases lt_trichotomy (zeroPadded width n) (zeroPadded width m) with hlt | heq | hlt
  · exact hlt
  · have hsame := congrArg (fun l => Nat.ofDigits 10 l.reverse) heq
    simp only [ofDigits_zeroPadded] at hsame
    exact absurd hsame (Nat.ne_of_lt h)
  · have hlength : (zeroPadded width m).length = (zeroPadded width n).length := by
      rw [zeroPadded_length hm, zeroPadded_length (h.trans hm)]
    have hback := ofDigits_lt_of_lt (by decide) hlength (fun d hd => lt_of_mem_zeroPadded hd) hlt
    rw [ofDigits_zeroPadded, ofDigits_zeroPadded] at hback
    exact absurd hback (Nat.lt_asymm h)

theorem map_add_lt (k : Nat) (h : as < bs) : as.map (k + ·) < bs.map (k + ·) := by
  induction h with
  | nil => exact .nil
  | cons _ ih => exact .cons ih
  | rel h => exact .rel (Nat.add_lt_add_left h k)

theorem append_lt_append (hlength : as.length = bs.length) (h : as < bs) (back : List Nat) :
    as ++ back < bs ++ back := by
  induction h with
  | nil => cases hlength
  | cons _ ih => exact .cons (ih (Nat.succ.inj hlength))
  | rel h => exact .rel h

/-- Names with numbers that fit into the width are ordered as the numbers. -/
theorem paddedName_lt (front back : List Nat) (h : n < m) (hm : m < 10 ^ width) :
    paddedName front width n back < paddedName front width m back := by
  have hlength : ((zeroPadded width n).map (48 + ·)).length =
      ((zeroPadded width m).map (48 + ·)).length := by
    rw [List.length_map, List.length_map, zeroPadded_length hm, zeroPadded_length (h.trans hm)]
  rw [paddedName, paddedName, List.append_assoc, List.append_assoc]
  exact List.Lex.append_left _ (append_lt_append hlength (map_add_lt 48 (zeroPadded_lt h hm)) back) _

end

end Lib
