-- SUMMARY: A 64-bit counter that credits queued items after their push and debits them after their pop.
import Mathlib.Algebra.BigOperators.Group.List.Basic
import Mathlib.Algebra.Order.BigOperators.Group.List
import Mathlib.Algebra.Order.Ring.Nat
import Mathlib.Data.List.Perm.Subperm
import Mathlib.Data.UInt

/-!
# A counter beside a queue

Items are pushed and popped in one step each, and credited to a counter or
debited from it in another. The counter with what is still to be credited is
what is queued or still to be debited, and it stays so as long as no item is
debited before it has been credited.
-/
namespace Lib

variable {α : Type} {weight : α → Nat}

def weigh (weight : α → Nat) (items : List α) : Nat := (items.map weight).sum

@[simp] theorem weigh_nil : weigh weight ([] : List α) = 0 := rfl

@[simp] theorem weigh_cons (item : α) (items : List α) :
    weigh weight (item :: items) = weight item + weigh weight items := by
  simp [weigh]

@[simp] theorem weigh_append (l l' : List α) :
    weigh weight (l ++ l') = weigh weight l + weigh weight l' := by
  simp [weigh]

theorem weigh_perm {l l' : List α} (h : l.Perm l') : weigh weight l = weigh weight l' :=
  (h.map _).sum_eq

theorem le_weigh_of_mem (weight : α → Nat) {l : List α} {x : α} (h : x ∈ l) : weight x ≤ weigh weight l := by
  obtain ⟨front, tail, rfl⟩ := List.append_of_mem h
  rw [weigh_append, weigh_cons]
  omega

theorem weigh_eq_mul {l : List α} {n : Nat} (h : ∀ x ∈ l, weight x = n) :
    weigh weight l = l.length * n := by
  induction l with
  | nil => exact (Nat.zero_mul n).symm
  | cons x l ih =>
      rw [weigh_cons, h x List.mem_cons_self, ih fun y hy => h y (List.mem_cons_of_mem _ hy),
        List.length_cons, Nat.succ_mul, Nat.add_comm]

theorem weigh_flatMap_le {β : Type} {l : List β} {f g : β → List α}
    (h : ∀ x ∈ l, weigh weight (f x) ≤ weigh weight (g x)) :
    weigh weight (l.flatMap f) ≤ weigh weight (l.flatMap g) := by
  induction l with
  | nil => exact Nat.le_refl _
  | cons x l ih =>
      rw [List.flatMap_cons, List.flatMap_cons, weigh_append, weigh_append]
      exact Nat.add_le_add (h x List.mem_cons_self) (ih fun y hy => h y (List.mem_cons_of_mem _ hy))

variable [BEq α]

/-- Items that are among others, counted with their repetitions, weigh no more. -/
theorem weigh_le [LawfulBEq α] {l l' : List α} (h : ∀ x, l.count x ≤ l'.count x) :
    weigh weight l ≤ weigh weight l' := by
  obtain ⟨m, hperm, hsub⟩ := List.subperm_ext_iff.mpr fun x _ => h x
  rw [← weigh_perm hperm]
  exact List.Sublist.sum_le_sum (hsub.map _) fun _ _ => Nat.zero_le _

/-- The counter `value`, the items queued, those pushed and not credited, those popped and not debited. -/
structure Ledger (weight : α → Nat) (value : UInt64) (queued adding removing : List α) : Prop where
  balance : value.toNat + weigh weight adding = weigh weight queued + weigh weight removing
  matched : ∀ x, adding.count x ≤ queued.count x + removing.count x
  fits : weigh weight queued + weigh weight removing < 2 ^ 64

namespace Ledger

variable {value est : UInt64} {queued adding removing adding' removing' : List α} {item : α}

theorem initial : Ledger weight 0 [] [] [] where
  balance := rfl
  matched := fun _ => Nat.le_refl _
  fits := Nat.two_pow_pos 64

/-- What is queued or still to be debited covers what is still to be credited. -/
theorem cover [LawfulBEq α] (h : ∀ x, adding.count x ≤ queued.count x + removing.count x) :
    weigh weight adding ≤ weigh weight queued + weigh weight removing := by
  rw [← weigh_append]
  apply weigh_le
  intro x
  rw [List.count_append]
  exact h x

theorem perm (h : Ledger weight value queued adding removing) (hadding : adding'.Perm adding)
    (hremoving : removing'.Perm removing) : Ledger weight value queued adding' removing' where
  balance := by
    rw [weigh_perm hadding, weigh_perm hremoving]
    exact h.balance
  matched := by
    intro x
    rw [hadding.count_eq, hremoving.count_eq]
    exact h.matched x
  fits := by
    rw [weigh_perm hremoving]
    exact h.fits

theorem push (h : Ledger weight value queued adding removing)
    (hfits : weigh weight queued + weigh weight removing + weight item < 2 ^ 64) :
    Ledger weight value (queued ++ [item]) (item :: adding) removing where
  balance := by
    have hbalance := h.balance
    simp only [weigh_append, weigh_cons, weigh_nil]
    omega
  matched := by
    intro x
    have hmatched := h.matched x
    simp only [List.count_append, List.count_cons, List.count_nil]
    omega
  fits := by
    simp only [weigh_append, weigh_cons, weigh_nil]
    omega

/-- Crediting cannot overflow: what is credited is queued, or still to be debited. -/
theorem credit (h : Ledger weight value queued (item :: adding) removing)
    (hest : est.toNat = weight item) : Ledger weight (value + est) queued adding removing where
  balance := by
    have hbalance := h.balance
    have hfits := h.fits
    rw [weigh_cons] at hbalance
    have hsum : (value + est).toNat = value.toNat + est.toNat := by
      rw [UInt64.toNat_add]
      apply Nat.mod_eq_of_lt
      omega
    omega
  matched := by
    intro x
    have hmatched := h.matched x
    rw [List.count_cons] at hmatched
    omega
  fits := h.fits

theorem pop (h : Ledger weight value (item :: queued) adding removing) :
    Ledger weight value queued adding (item :: removing) where
  balance := by
    have hbalance := h.balance
    rw [weigh_cons] at hbalance ⊢
    omega
  matched := by
    intro x
    have hmatched := h.matched x
    rw [List.count_cons] at hmatched ⊢
    omega
  fits := by
    have hfits := h.fits
    rw [weigh_cons] at hfits ⊢
    omega

/-- Debiting an item does not wrap where one like it has been credited. -/
theorem debit [LawfulBEq α] (h : Ledger weight value queued adding (item :: removing))
    (hest : est.toNat = weight item)
    (hless : adding.count item < queued.count item + (item :: removing).count item) :
    Ledger weight (value - est) queued adding removing := by
  have hmatched : ∀ x, adding.count x ≤ queued.count x + removing.count x := by
    intro x
    have hx := h.matched x
    rw [List.count_cons] at hless hx
    by_cases heq : item = x
    · subst heq
      simp only [BEq.rfl, if_true] at hless
      omega
    · simpa [heq] using hx
  have hbalance := h.balance
  have hfits := h.fits
  have hcover : weigh weight adding ≤ weigh weight queued + weigh weight removing := cover hmatched
  rw [weigh_cons] at hbalance hfits
  have hle : est ≤ value := by
    rw [UInt64.le_iff_toNat_le]
    omega
  refine ⟨?_, hmatched, by omega⟩
  rw [UInt64.toNat_sub_of_le _ _ hle]
  omega

theorem value_le (h : Ledger weight value queued adding removing) :
    value.toNat ≤ weigh weight queued + weigh weight removing := by
  have hbalance := h.balance
  omega

/-- With nothing under way the counter is what is queued. -/
theorem settled (h : Ledger weight value queued [] []) : value.toNat = weigh weight queued := by
  have hbalance := h.balance
  simpa using hbalance

end Ledger

end Lib
