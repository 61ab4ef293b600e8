-- SUMMARY: Runs of a partial, action-labelled step function, and what induction over them gives.
import Mathlib.Logic.Relation
import Mathlib.Tactic.SplitIfs

/-!
# Runs of a transition system

A system is a partial step function: `step s a` is the state after action `a`,
or `none` where the action is not enabled. A run is a list of enabled actions.
-/
namespace Lib

variable {σ α : Type*}

/-- `Run step s as t`: the actions `as` are enabled one after the other from `s`, and lead to `t`. -/
inductive Run (step : σ → α → Option σ) : σ → List α → σ → Prop
  | nil (s : σ) : Run step s [] s
  | cons {s u t : σ} {a : α} {as : List α} (h : step s a = some u) (hr : Run step u as t) :
      Run step s (a :: as) t

/-- Some run leads from `s` to `t`. -/
def Reaches (step : σ → α → Option σ) (s t : σ) : Prop := ∃ as, Run step s as t

variable {step : σ → α → Option σ} {s t u : σ} {a : α} {as bs : List α}

namespace Run

theorem single (h : step s a = some t) : Run step s [a] t := .cons h (.nil t)

theorem append (h₁ : Run step s as u) (h₂ : Run step u bs t) : Run step s (as ++ bs) t := by
  induction h₁ with
  | nil => exact h₂
  | cons h _ ih => exact .cons h (ih h₂)

theorem snoc (h₁ : Run step s as u) (h₂ : step u a = some t) : Run step s (as ++ [a]) t :=
  h₁.append (single h₂)

/-- What every step preserves, a run preserves. -/
theorem invariant {P : σ → Prop} (hr : Run step s as t) (h₀ : P s)
    (hstep : ∀ s a t, P s → step s a = some t → P t) : P t := by
  induction hr with
  | nil => exact h₀
  | cons h _ ih => exact ih (hstep _ _ _ h₀ h)

/-- A run of actions that all leave `f` alone leaves `f` alone. -/
theorem frame {β : Type*} {f : σ → β} {P : σ → α → Prop} (hr : Run step s as t)
    (hP : ∀ s, ∀ a ∈ as, P s a) (hstep : ∀ s a t, P s a → step s a = some t → f t = f s) :
    f t = f s := by
  induction hr with
  | nil => rfl
  | cons h _ ih =>
      rw [ih fun s b hb => hP s b (List.mem_cons_of_mem _ hb)]
      exact hstep _ _ _ (hP _ _ List.mem_cons_self) h

end Run

namespace Reaches

theorem refl (s : σ) : Reaches step s s := ⟨[], .nil s⟩

theorem single (h : step s a = some t) : Reaches step s t := ⟨[a], .single h⟩

theorem trans (h₁ : Reaches step s u) (h₂ : Reaches step u t) : Reaches step s t := by
  obtain ⟨as, h₁⟩ := h₁
  obtain ⟨bs, h₂⟩ := h₂
  exact ⟨as ++ bs, h₁.append h₂⟩

theorem head (h₁ : step s a = some u) (h₂ : Reaches step u t) : Reaches step s t :=
  (single h₁).trans h₂

theorem tail (h₁ : Reaches step s u) (h₂ : step u a = some t) : Reaches step s t :=
  h₁.trans (single h₂)

/-- What every step preserves holds of every state reached. -/
theorem invariant {P : σ → Prop} (hr : Reaches step s t) (h₀ : P s)
    (hstep : ∀ s a t, P s → step s a = some t → P t) : P t := by
  obtain ⟨as, hr⟩ := hr
  exact hr.invariant h₀ hstep

end Reaches

/-! ## Runs that come to an end -/

/-- No action is enabled. -/
def Halted (step : σ → α → Option σ) (s : σ) : Prop := ∀ a, step s a = none

section

variable {P : σ → Prop} {μ : σ → Nat} (hP : ∀ s a t, P s → step s a = some t → P t)
  (hμ : ∀ s a t, P s → step s a = some t → μ t < μ s)

include hP hμ

/-- Where every step makes a measure smaller, it bounds the runs. -/
theorem Run.length_add_le (hr : Run step s as t) (h₀ : P s) : as.length + μ t ≤ μ s := by
  induction hr with
  | nil => exact Nat.le_of_eq (Nat.zero_add _)
  | cons h _ ih =>
      have hlt := hμ _ _ _ h₀ h
      have hle := ih (hP _ _ _ h₀ h)
      rw [List.length_cons]
      omega

/-- Where every step makes a measure smaller, going on as long as possible comes to an end, also
with the actions of a kind that is enabled whenever some action is. -/
theorem exists_halted {C : α → Prop}
    (hC : ∀ s a t, step s a = some t → ∃ b u, C b ∧ step s b = some u) (h₀ : P s) :
    ∃ as t, (∀ a ∈ as, C a) ∧ Run step s as t ∧ Halted step t := by
  induction hm : μ s using Nat.strongRecOn generalizing s with
  | ind m ih =>
      by_cases hhalted : Halted step s
      · exact ⟨[], s, (fun _ h => nomatch h), .nil s, hhalted⟩
      · obtain ⟨a, ha⟩ := Classical.not_forall.mp hhalted
        obtain ⟨t, ht⟩ := Option.ne_none_iff_exists'.mp ha
        obtain ⟨b, u, hb, hu⟩ := hC s a t ht
        obtain ⟨as, v, has, hrun, hv⟩ := ih (μ u) (hm ▸ hμ s b u h₀ hu) (hP s b u h₀ hu) rfl
        refine ⟨b :: as, v, fun c hc => ?_, .cons hu hrun, hv⟩
        rcases List.mem_cons.mp hc with rfl | hc
        · exact hb
        · exact has c hc

end

/-! ## Following a list of actions -/

/-- The state after the actions `as`, where they are all enabled. -/
def follow (step : σ → α → Option σ) (s : σ) : List α → Option σ
  | [] => some s
  | a :: as => (step s a).bind fun u => follow step u as

theorem Run.of_follow (h : follow step s as = some t) : Run step s as t := by
  induction as generalizing s with
  | nil =>
      cases h
      exact .nil _
  | cons a as ih =>
      obtain ⟨u, hu, h⟩ := Option.bind_eq_some_iff.mp h
      exact .cons hu (ih h)

/-- A run found by following it, and what it ends with. -/
theorem exists_run_of_follow {β : Type*} {f : σ → β} {b : β}
    (h : (follow step s as).map f = some b) : ∃ t, Run step s as t ∧ f t = b := by
  obtain ⟨t, ht, hb⟩ := Option.map_eq_some_iff.mp h
  exact ⟨t, .of_follow ht, hb⟩

/-! ## Runs whose steps all meet a condition -/

/-- The system cut down to the steps that meet `C`. -/
def guarded (C : σ → α → Prop) [∀ s a, Decidable (C s a)] (step : σ → α → Option σ) (s : σ)
    (a : α) : Option σ :=
  if C s a then step s a else none

section

variable {C : σ → α → Prop} [∀ s a, Decidable (C s a)]

theorem guarded_eq_some : guarded C step s a = some t ↔ C s a ∧ step s a = some t := by
  unfold guarded
  split_ifs with h <;> simp [h]

theorem Run.of_guarded (hr : Run (guarded C step) s as t) : Run step s as t := by
  induction hr with
  | nil => exact .nil _
  | cons h _ ih => exact .cons (guarded_eq_some.mp h).2 ih

/-- A run either keeps to the condition or takes a first step against it. -/
theorem Run.guarded_or (hr : Run step s as t) :
    Run (guarded C step) s as t ∨
      ∃ u v a bs cs, Run (guarded C step) s bs u ∧ ¬ C u a ∧ step u a = some v ∧
        Run step v cs t := by
  induction hr with
  | nil => exact .inl (.nil _)
  | @cons s w t a as h hr ih =>
      by_cases hC : C s a
      · have hstep : guarded C step s a = some w := guarded_eq_some.mpr ⟨hC, h⟩
        rcases ih with ih | ⟨u, v, b, bs, cs, hbs, hnot, hbad, hcs⟩
        · exact .inl (.cons hstep ih)
        · exact .inr ⟨u, v, b, a :: bs, cs, .cons hstep hbs, hnot, hbad, hcs⟩
      · exact .inr ⟨s, w, a, [], as, .nil _, hC, h, hr⟩

end

end Lib
