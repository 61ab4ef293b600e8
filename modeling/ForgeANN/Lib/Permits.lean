-- SUMMARY: Permits for amounts of a budget, counted in a saturating word; one that is too large goes alone.
import ForgeANN.Lib.Ledger
import ForgeANN.Lib.Saturating

/-!
# Permits

A counter holds what is out. A permit for an amount is given while the amount
still fits the budget; one for more than the whole budget is given while nothing
is out. Without a budget every permit is given.
-/
namespace Lib

variable {α : Type} {weight : α → Nat} {budget live bytes : UInt64} {out out' : List α} {item : α}

/-- Whether a permit for `bytes` is given. -/
def canAdmit (budget live bytes : UInt64) : Bool :=
  decide (budget = 0) || (decide (budget < bytes) && decide (live = 0)) ||
    (decide (bytes ≤ budget) && decide (live.saturatingAdd bytes ≤ budget))

theorem canAdmit_iff : canAdmit budget live bytes = true ↔ budget = 0 ∨
    (budget.toNat < bytes.toNat ∧ live = 0) ∨
      (bytes.toNat ≤ budget.toNat ∧
        min (live.toNat + bytes.toNat) UInt64.maxNat ≤ budget.toNat) := by
  simp only [canAdmit, Bool.or_eq_true, Bool.and_eq_true, decide_eq_true_eq,
    UInt64.lt_iff_toNat_lt, UInt64.le_iff_toNat_le, UInt64.toNat_saturatingAdd, or_assoc]

/-- While nothing is out, every permit is given. -/
theorem canAdmit_zero (budget bytes : UInt64) : canAdmit budget 0 bytes = true := by
  rw [canAdmit_iff]
  rcases Nat.lt_or_ge budget.toNat bytes.toNat with hlt | hle
  · exact .inr (.inl ⟨hlt, rfl⟩)
  · refine .inr (.inr ⟨hle, ?_⟩)
    rw [UInt64.toNat_zero, Nat.zero_add]
    exact Nat.le_trans (Nat.min_le_left ..) hle

/-- The budget limits something: it is neither none, nor all that can be counted. -/
def Limits (budget : UInt64) : Prop := 0 < budget.toNat ∧ budget.toNat < UInt64.maxNat

/-- What is out fits the budget, or is one item that is larger than all of it. -/
def Within (weight : α → Nat) (budget : UInt64) (out : List α) : Prop :=
  weigh weight out ≤ budget.toNat ∨ ∃ item, out = [item] ∧ budget.toNat < weight item

/-- What is out, and the counter beside it. -/
structure Permits (weight : α → Nat) (budget live : UInt64) (out : List α) : Prop where
  pos : ∀ item ∈ out, 0 < weight item
  live_le : live.toNat ≤ weigh weight out
  exact : Limits budget → live.toNat = weigh weight out
  within : Limits budget → Within weight budget out

namespace Permits

theorem empty (weight : α → Nat) (budget : UInt64) : Permits weight budget 0 [] where
  pos _ h := absurd h List.not_mem_nil
  live_le := Nat.le_refl _
  exact _ := rfl
  within _ := .inl (Nat.zero_le _)

/-- Where nothing is out, the counter is zero. -/
theorem live_eq_zero (h : Permits weight budget live []) : live = 0 :=
  UInt64.toNat_inj.mp (Nat.eq_zero_of_le_zero h.live_le)

/-- Where a limiting budget's counter is zero, nothing is out. -/
theorem out_eq_nil (h : Permits weight budget live out) (hlimits : Limits budget) (hlive : live = 0) :
    out = [] := by
  have hexact := h.exact hlimits
  rw [hlive, UInt64.toNat_zero] at hexact
  rw [List.eq_nil_iff_forall_not_mem]
  intro item hitem
  have hle := le_weigh_of_mem weight hitem
  have hpos := h.pos item hitem
  omega

theorem perm (h : Permits weight budget live out) (hperm : out.Perm out') :
    Permits weight budget live out' where
  pos item hitem := h.pos item (hperm.mem_iff.mpr hitem)
  live_le := weigh_perm hperm ▸ h.live_le
  exact hlimits := weigh_perm hperm ▸ h.exact hlimits
  within hlimits := by
    rcases h.within hlimits with hle | ⟨item, rfl, hlt⟩
    · exact .inl (weigh_perm hperm ▸ hle)
    · exact .inr ⟨item, List.singleton_perm.mp hperm ▸ rfl, hlt⟩

/-- A permit is given. -/
theorem acquire (h : Permits weight budget live out) (hbytes : bytes.toNat = weight item)
    (hpos : 0 < weight item) (hcan : canAdmit budget live bytes = true) :
    Permits weight budget (live.saturatingAdd bytes) (item :: out) := by
  have hmax := bytes.toNat_le_maxNat
  have hle := h.live_le
  -- alone where it is too large, else within the budget and so below the cap
  have hcases : Limits budget →
      (budget.toNat < weight item ∧ out = []) ∨ live.toNat + weight item ≤ budget.toNat := by
    intro hlimits
    rcases canAdmit_iff.mp hcan with hnone | ⟨hlarge, hzero⟩ | ⟨-, hfits⟩
    · have hpositive := hlimits.1
      rw [hnone] at hpositive
      exact absurd hpositive (Nat.lt_irrefl 0)
    · exact .inl ⟨hbytes ▸ hlarge, h.out_eq_nil hlimits hzero⟩
    · have hlt := hlimits.2
      omega
  constructor
  · intro other hother
    rcases List.mem_cons.mp hother with rfl | hother
    · exact hpos
    · exact h.pos other hother
  · rw [UInt64.toNat_saturatingAdd, weigh_cons]
    omega
  · intro hlimits
    have hexact := h.exact hlimits
    have hlt := hlimits.2
    rw [UInt64.toNat_saturatingAdd, weigh_cons, hbytes]
    rcases hcases hlimits with ⟨-, rfl⟩ | hfits
    · rw [weigh_nil] at hexact ⊢
      omega
    · omega
  · intro hlimits
    have hexact := h.exact hlimits
    rcases hcases hlimits with ⟨hlarge, rfl⟩ | hfits
    · exact .inr ⟨item, rfl, hlarge⟩
    · left
      rw [weigh_cons]
      omega

/-- A permit is given back. -/
theorem release (h : Permits weight budget live (item :: out)) (hbytes : bytes.toNat = weight item) :
    Permits weight budget (live.saturatingSub bytes) out := by
  have hle := h.live_le
  rw [weigh_cons] at hle
  constructor
  · exact fun other hother => h.pos other (List.mem_cons_of_mem _ hother)
  · rw [UInt64.toNat_saturatingSub, hbytes]
    omega
  · intro hlimits
    have hexact := h.exact hlimits
    rw [weigh_cons] at hexact
    rw [UInt64.toNat_saturatingSub, hbytes]
    omega
  · intro hlimits
    left
    rcases h.within hlimits with hfits | ⟨other, heq, -⟩
    · rw [weigh_cons] at hfits
      omega
    · rw [(List.cons.inj heq).2]
      exact Nat.zero_le _

end Permits

end Lib
