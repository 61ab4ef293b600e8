-- SUMMARY: The buffer of a row against the stable sort of what is pushed, and the distances for which it is exact.
import ForgeANN.Leaf.RowTopK
import Mathlib.Data.List.Induction

/-!
# The first entries of a stable sort

Slot by slot, a push is one into a bounded buffer. Where all distances are
numbers the buffer holds the beginning of their stable sort; a NaN is neither
nearer nor farther than anything, and takes the place of the last entry.
-/
namespace ForgeANN

open Lib

namespace RowTopK

variable {row : RowTopK} {k : Nat} {pushes : List (Nat × F32)}

/-- Where an entry's distance lies. -/
def place (entry : Nat × F32) : Int := entry.2.key

def pushAll (k : Nat) (pushes : List (Nat × F32)) (row : RowTopK) : AnnResult RowTopK :=
  pushes.foldlM (fun row entry => row.push k entry.1 entry.2) row

/-- A push into the slots is one into the bounded buffer. -/
theorem push_eq (hk : k ≤ 32) (hlen : row.len ≤ k) (entry : Nat × F32) :
    ∃ row', row.push k entry.1 entry.2 = .ok row' ∧ row'.len = min k (row.len + 1) ∧
      row'.iter.reverse = pushBounded nearer notNearer k row.iter.reverse entry := by
  have hiter : row.iter.reverse.length = row.len := by
    rw [List.length_reverse, iter, List.length_take, Vector.length_toList]
    omega
  unfold pushBounded
  rw [RowTopK.push, hiter]
  by_cases hroom : row.len < k
  · obtain ⟨buf', hrun, hfront, -⟩ := insertAt_eq entry (by omega : row.len < 32) row.buf
    rw [if_neg (by omega), if_pos hroom, if_pos hroom, hrun, ok_bind]
    refine ⟨_, rfl, ?_, ?_⟩
    · simp only
      omega
    · rw [iter, iter, hfront, List.reverse_reverse]
  · rw [if_neg hroom, if_neg hroom]
    cases k with
    | zero =>
        have hnone : row.iter.reverse = [] :=
          List.eq_nil_of_length_eq_zero (hiter.trans (Nat.le_zero.mp hlen))
        refine ⟨row, if_pos rfl, by omega, ?_⟩
        rw [hnone]
    | succ k =>
        have hlast : k < 32 := hk
        have hfull : row.len = k + 1 := by omega
        have hslots : row.iter.reverse = row.buf[k] :: (row.buf.toList.take k).reverse := by
          rw [iter, hfull, take_succ_slots row.buf hlast, List.reverse_append]
          rfl
        rw [if_neg (Nat.succ_ne_zero k), Nat.add_sub_cancel, readSlot_of_lt hlast, ok_bind, hslots]
        simp only
        by_cases hstays : entry.2.ge row.buf[k].2 = true
        · rw [if_pos hstays, if_pos (show notNearer entry row.buf[k] = true from hstays)]
          exact ⟨row, rfl, by omega, hslots⟩
        · rw [if_neg hstays, if_neg (show ¬ notNearer entry row.buf[k] = true from hstays)]
          obtain ⟨buf', hrun, hfront, -⟩ := insertAt_eq entry hlast row.buf
          rw [hrun, ok_bind]
          refine ⟨_, rfl, by simp only; omega, ?_⟩
          rw [iter, hfull, hfront, List.reverse_reverse]

/-- All pushes find their slots, and leave what the bounded buffer keeps of them. -/
theorem pushAll_eq (hk : k ≤ 32) (row : RowTopK) (pushes : List (Nat × F32)) :
    ∃ out, row.clear.pushAll k pushes = .ok out ∧ out.len = min k pushes.length ∧
      out.iter.reverse = pushAllBounded nearer notNearer k pushes := by
  induction pushes using List.reverseRecOn with
  | nil => exact ⟨row.clear, rfl, (Nat.min_zero k).symm, rfl⟩
  | append_singleton pushes entry ih =>
      obtain ⟨before, hrun, hlen, hkept⟩ := ih
      obtain ⟨after, hpush, hlen', hkept'⟩ := push_eq hk (by omega : before.len ≤ k) entry
      refine ⟨after, ?_, ?_, ?_⟩
      · rw [pushAll, List.foldlM_append, ← pushAll, hrun, ok_bind, List.foldlM_cons, hpush]
        rfl
      · rw [hlen', hlen, List.length_append, List.length_singleton]
        omega
      · rw [hkept', hkept, pushAllBounded_concat]

/-! ## Numbers -/

theorem nearer_iff {a b : Nat × F32} (ha : a.2.isNaN = false) (hb : b.2.isNaN = false) :
    nearer a b = true ↔ place a < place b := by
  rw [nearer, F32.lt_iff]
  exact ⟨fun h => h.2.2, fun h => ⟨ha, hb, h⟩⟩

theorem notNearer_iff {a b : Nat × F32} (ha : a.2.isNaN = false) (hb : b.2.isNaN = false) :
    notNearer a b = true ↔ place b ≤ place a := by
  rw [notNearer, F32.ge_iff]
  exact ⟨fun h => h.2.2, fun h => ⟨ha, hb, h⟩⟩

/-- Numbers are kept as the stable sort has them. -/
theorem kept_of_numbers (hnumber : ∀ entry ∈ pushes, entry.2.isNaN = false) :
    (pushAllBounded nearer notNearer k pushes).reverse = (sortByKey place pushes).take k :=
  pushAllBounded_eq_take_sort (fun a ha b hb => nearer_iff (hnumber a ha) (hnumber b hb))
    fun a ha b hb => notNearer_iff (hnumber a ha) (hnumber b hb)

/-- Of one entry pushed over and over again, there is nothing to sort. -/
theorem kept_of_same (hsame : ∀ a ∈ pushes, ∀ b ∈ pushes, a = b) :
    (pushAllBounded nearer notNearer k pushes).reverse = (sortByKey place pushes).take k := by
  have hlen : (pushAllBounded nearer notNearer k pushes).reverse.length =
      ((sortByKey place pushes).take k).length := by
    rw [List.length_reverse, length_pushAllBounded, List.length_take,
      (sortByKey_perm place pushes).length_eq]
  apply List.ext_getElem hlen
  intro i hi hi'
  apply hsame
  · exact mem_pushAllBounded (List.mem_reverse.mp (List.getElem_mem hi))
  · exact (sortByKey_perm place pushes).mem_iff.mp (List.mem_of_mem_take (List.getElem_mem hi'))

/-! ## A NaN -/

theorem nearer_of_isNaN {a b : Nat × F32} (h : a.2.isNaN = true ∨ b.2.isNaN = true) :
    nearer a b = false := by
  rw [← Bool.not_eq_true, nearer, F32.lt_iff]
  rintro ⟨ha, hb, -⟩
  rcases h with h | h
  · rw [ha] at h
    cases h
  · rw [hb] at h
    cases h

theorem notNearer_of_isNaN {a b : Nat × F32} (h : a.2.isNaN = true ∨ b.2.isNaN = true) :
    notNearer a b = false := by
  rw [← Bool.not_eq_true, notNearer, F32.ge_iff]
  rintro ⟨ha, hb, -⟩
  rcases h with h | h
  · rw [ha] at h
    cases h
  · rw [hb] at h
    cases h

/-- An entry that compares with nothing before it takes the only place there is, and the last
of two: not both are where the stable sort has them. -/
theorem not_sorted_of_isNaN {front : List (Nat × F32)} {entry : Nat × F32} (hfront : front ≠ [])
    (hnew : entry ∉ front) (hnan : ∀ a ∈ front, entry.2.isNaN = true ∨ a.2.isNaN = true)
    (h : ∀ k ≤ 32, (pushAllBounded nearer notNearer k (front ++ [entry])).reverse =
      (sortByKey place (front ++ [entry])).take k) : False := by
  have hlen : ∀ k, (pushAllBounded nearer notNearer k front).length = min k front.length :=
    fun k => length_pushAllBounded _ _ k front
  have hpos : 0 < front.length := List.length_pos_iff.mpr hfront
  have hmem : ∀ {k a}, a ∈ pushAllBounded nearer notNearer k front → a ∈ front := mem_pushAllBounded
  have hfirst : (sortByKey place (front ++ [entry])).take 1 = [entry] := by
    rw [← h 1 (by decide), pushAllBounded_concat]
    obtain ⟨a, hkept⟩ := List.length_eq_one_iff.mp ((hlen 1).trans (Nat.min_eq_left hpos))
    have ha := hnan a (hmem (hkept ▸ List.mem_singleton_self a))
    rw [hkept, pushBounded, if_neg (by simp), notNearer_of_isNaN ha, if_neg Bool.false_ne_true, insertFromBack]
    rfl
  have hsecond : ∃ a ∈ front, (sortByKey place (front ++ [entry])).take 2 = [a, entry] := by
    rw [← h 2 (by decide), pushAllBounded_concat]
    cases hkept : pushAllBounded nearer notNearer 2 front with
    | nil =>
        have := hlen 2
        rw [hkept, List.length_nil] at this
        omega
    | cons last rest =>
        have hin : ∀ a ∈ last :: rest, a ∈ front := fun a ha => hmem (hkept ▸ ha)
        have hle : (last :: rest).length ≤ 2 := by
          rw [← hkept, hlen]
          exact Nat.min_le_left ..
        cases rest with
        | nil =>
            refine ⟨last, hin last List.mem_cons_self, ?_⟩
            rw [pushBounded, if_pos (by simp), insertFromBack,
              nearer_of_isNaN (hnan last (hin last List.mem_cons_self)), if_neg Bool.false_ne_true]
            rfl
        | cons a rest =>
            have hrest : rest = [] := List.eq_nil_of_length_eq_zero (by
              simp only [List.length_cons] at hle
              omega)
            have ha : a ∈ front := hin a (List.mem_cons_of_mem last List.mem_cons_self)
            subst hrest
            refine ⟨a, ha, ?_⟩
            rw [pushBounded, if_neg (by simp), notNearer_of_isNaN (hnan last (hin last List.mem_cons_self)),
              if_neg Bool.false_ne_true, insertFromBack, nearer_of_isNaN (hnan a ha),
              if_neg Bool.false_ne_true]
            rfl
  obtain ⟨a, ha, htwo⟩ := hsecond
  have hone := congrArg (List.take 1) htwo
  rw [List.take_take, Nat.min_eq_left (by decide), hfirst] at hone
  cases hone
  exact hnew ha

/-- A NaN among different entries meets one of them. -/
theorem exists_isNaN_split (hnan : ∃ entry ∈ pushes, entry.2.isNaN = true)
    (hdiffer : ∃ a ∈ pushes, ∃ b ∈ pushes, a ≠ b) :
    ∃ front entry rest, pushes = front ++ entry :: rest ∧ front ≠ [] ∧ entry ∉ front ∧
      ∀ a ∈ front, entry.2.isNaN = true ∨ a.2.isNaN = true := by
  cases pushes with
  | nil =>
      obtain ⟨entry, hentry, -⟩ := hnan
      cases hentry
  | cons first pushes =>
      cases hfirst : first.2.isNaN with
      | true =>
          -- the first that differs from the first of all
          have hsome : ((first :: pushes).find? fun a => a ≠ first).isSome := by
            rw [List.find?_isSome]
            obtain ⟨a, ha, b, hb, hab⟩ := hdiffer
            by_cases heq : a = first
            · exact ⟨b, hb, decide_eq_true fun h => hab (heq.trans h.symm)⟩
            · exact ⟨a, ha, decide_eq_true heq⟩
          obtain ⟨entry, hfind⟩ := Option.isSome_iff_exists.mp hsome
          obtain ⟨hentry, front, rest, hsplit, hfront⟩ := List.find?_eq_some_iff_append.mp hfind
          have hsame : ∀ a ∈ front, a = first := fun a ha => by simpa using hfront a ha
          have hne : entry ≠ first := of_decide_eq_true hentry
          refine ⟨front, entry, rest, hsplit, ?_, fun hin => hne (hsame entry hin), ?_⟩
          · rintro rfl
            exact hne (List.cons.inj hsplit).1.symm
          · intro a ha
            rw [hsame a ha]
            exact .inr hfirst
      | false =>
          have hsome : ((first :: pushes).find? fun a => a.2.isNaN).isSome := by
            rw [List.find?_isSome]
            exact hnan
          obtain ⟨entry, hfind⟩ := Option.isSome_iff_exists.mp hsome
          obtain ⟨hentry, front, rest, hsplit, hfront⟩ := List.find?_eq_some_iff_append.mp hfind
          refine ⟨front, entry, rest, hsplit, ?_, ?_, fun a _ => .inl hentry⟩
          · rintro rfl
            rw [(List.cons.inj hsplit).1, hentry] at hfirst
            cases hfirst
          · intro hin
            have hnumber := hfront entry hin
            rw [hentry] at hnumber
            cases hnumber

/-! ## The buffer -/

/-- With each number of neighbours and after each push, whatever was left in the slots: the
first of what was pushed, sorted by distance, and among equals in their order. -/
def HoldsFirsts (pushes : List (Nat × F32)) : Prop :=
  ∀ k ≤ 32, ∀ (row : RowTopK) (n : Nat), ∃ out,
    row.clear.pushAll k (pushes.take n) = .ok out ∧
      out.iter = (sortByKey place (pushes.take n)).take k

theorem holdsFirsts_iff_kept (pushes : List (Nat × F32)) : HoldsFirsts pushes ↔
    ∀ k ≤ 32, ∀ n, (pushAllBounded nearer notNearer k (pushes.take n)).reverse =
      (sortByKey place (pushes.take n)).take k := by
  constructor
  · intro h k hk n
    obtain ⟨out, hrun, hfirsts⟩ := h k hk empty n
    obtain ⟨out', hrun', -, hkept⟩ := pushAll_eq hk empty (pushes.take n)
    cases hrun.symm.trans hrun'
    rw [← hkept, List.reverse_reverse, hfirsts]
  · intro h k hk row n
    obtain ⟨out, hrun, -, hkept⟩ := pushAll_eq hk row (pushes.take n)
    refine ⟨out, hrun, ?_⟩
    rw [← h k hk n, ← hkept, List.reverse_reverse]

/-- The distance 1, and then a NaN. -/
def nanSecond : List (Nat × F32) := [(0, ⟨0x3f800000⟩), (1, ⟨0x7fc00000⟩)]

end RowTopK

end ForgeANN
