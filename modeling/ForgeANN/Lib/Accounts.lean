-- SUMMARY: Emitting computations that account for others: what they emit amounts to what the others emit.
import ForgeANN.Lib.Emission
import Mathlib.Algebra.BigOperators.Group.List.Basic
import Mathlib.Algebra.Order.Group.Multiset
import Mathlib.Data.List.Flatten

/-!
# Accounts

A run stands for several computations. It may emit in another order, or in other
pieces, what these emit; where it fails, it has emitted no more than they.
-/
namespace Lib

variable {ω ε κ : Type}

/-- What a list of emitted things amounts to. -/
def worth (value : ω → Multiset κ) (l : List ω) : Multiset κ := (l.map value).sum

section

variable {value : ω → Multiset κ} {l l' : List ω}

@[simp] theorem worth_nil : worth value [] = 0 := rfl

@[simp] theorem worth_append : worth value (l ++ l') = worth value l + worth value l' := by
  rw [worth, List.map_append, List.sum_append]
  rfl

@[simp] theorem worth_cons (a : ω) : worth value (a :: l) = value a + worth value l := by
  rw [worth, List.map_cons, List.sum_cons]
  rfl

theorem worth_perm (h : l.Perm l') : worth value l = worth value l' := (h.map value).sum_eq

theorem worth_sublist (h : l.Sublist l') : worth value l ≤ worth value l' := by
  induction h with
  | slnil => exact le_refl _
  | cons a _ ih =>
      rw [worth_cons]
      exact ih.trans (Multiset.le_add_left ..)
  | cons_cons a _ ih =>
      rw [worth_cons, worth_cons]
      exact add_le_add_right ih _

end

/-- `run` stands for the computations that are `owed`. It emits what they do, or fails as one of
them does, or for a reason of its own. -/
structure Accounts (value : ω → Multiset κ) (excuse : ε → Prop) (run : Emission ω ε Unit)
    (owed : List (Emission ω ε Unit)) : Prop where
  atMost : worth value run.emitted ≤ worth value (owed.flatMap (·.emitted))
  ok : run.result = .ok () → (∀ r ∈ owed, r.result = .ok ()) ∧
    worth value run.emitted = worth value (owed.flatMap (·.emitted))
  error : ∀ e, run.result = .error e → excuse e ∨ ∃ r ∈ owed, r.result = .error e

namespace Accounts

variable {value : ω → Multiset κ} {excuse : ε → Prop} {run run' : Emission ω ε Unit}
  {owed owed' : List (Emission ω ε Unit)}

/-- Who fails as some computations do fails as one of more. -/
theorem error_mono {e : ε} (hsub : owed ⊆ owed')
    (h : excuse e ∨ ∃ r ∈ owed, r.result = .error e) :
    excuse e ∨ ∃ r ∈ owed', r.result = .error e := by
  refine h.imp_right ?_
  rintro ⟨r, hr, he⟩
  exact ⟨r, hsub hr, he⟩

theorem self (run : Emission ω ε Unit) : Accounts value excuse run [run] where
  atMost := by rw [List.flatMap_singleton]
  ok h := ⟨by simpa using h, by rw [List.flatMap_singleton]⟩
  error e h := .inr ⟨run, List.mem_singleton.mpr rfl, h⟩

theorem mono {excuse' : ε → Prop} (h : Accounts value excuse run owed)
    (hexcuse : ∀ e, excuse e → excuse' e) : Accounts value excuse' run owed :=
  { h with error := fun e he => (h.error e he).imp_left (hexcuse e) }

/-- Computations that do nothing need not be run. -/
theorem idle (h : ∀ r ∈ owed, r = pure ()) : Accounts value excuse (pure ()) owed where
  atMost := Multiset.zero_le _
  ok _ := by
    refine ⟨fun r hr => by rw [h r hr]; rfl, ?_⟩
    rw [List.flatMap_eq_nil_iff.mpr fun r hr => by rw [h r hr]; rfl]
    rfl
  error e h := by cases h

theorem fail {e : ε} (h : excuse e) : Accounts value excuse (.fail e) owed where
  atMost := Multiset.zero_le _
  ok h := by cases h
  error e' h' := by
    cases h'
    exact .inl h

theorem bind (h : Accounts value excuse run owed) (h' : Accounts value excuse run' owed') :
    Accounts value excuse (run >>= fun _ => run') (owed ++ owed') := by
  cases hrun : run.result with
  | error e =>
      rw [Emission.bind_of_error hrun]
      refine ⟨?_, fun hok => (by cases hok), fun e' he' => ?_⟩
      · rw [List.flatMap_append, worth_append]
        exact h.atMost.trans (Multiset.le_add_right ..)
      · cases he'
        exact error_mono (List.subset_append_left ..) (h.error e hrun)
  | ok _ =>
      rw [Emission.bind_of_ok hrun]
      obtain ⟨hall, heq⟩ := h.ok hrun
      refine ⟨?_, fun hok => ⟨?_, ?_⟩, fun e he => ?_⟩
      · rw [List.flatMap_append, worth_append, worth_append, heq]
        exact add_le_add_right h'.atMost _
      · exact List.forall_mem_append.mpr ⟨hall, (h'.ok hok).1⟩
      · rw [List.flatMap_append, worth_append, worth_append, heq, (h'.ok hok).2]
      · exact error_mono (List.subset_append_right ..) (h'.error e he)

/-- Where the receiver can refuse an item, its errors are a reason of their own. -/
theorem offeredTo {answer : Nat → ω → Except ε Unit} (h : Accounts value excuse run owed)
    (hexcuse : ∀ n a e, answer n a = .error e → excuse e) :
    Accounts value excuse (run.offeredTo answer) owed where
  atMost := (worth_sublist (Emission.offerFrom_sublist ..)).trans h.atMost
  ok hok := by
    have hall : run.offeredTo answer = run := Emission.offerFrom_ok hok
    rw [hall] at hok ⊢
    exact h.ok hok
  error e he := by
    rcases Emission.offerFrom_error he with hrun | ⟨n, a, hrefused⟩
    · exact h.error e hrun
    · exact .inl (hexcuse n a e hrefused)

section

variable {α : Type} {task : α → Emission ω ε Unit} {debt : α → List (Emission ω ε Unit)} {l : List α}

/-- One run after another. -/
theorem forM (h : ∀ a ∈ l, Accounts value excuse (task a) (debt a)) :
    Accounts value excuse (l.forM task) (l.flatMap debt) := by
  induction l with
  | nil => exact idle fun r hr => by cases hr
  | cons a l ih =>
      exact (h a List.mem_cons_self).bind (ih fun b hb => h b (List.mem_cons_of_mem a hb))

theorem worth_le (h : ∀ a ∈ l, Accounts value excuse (task a) (debt a)) :
    worth value (l.flatMap fun a => (task a).emitted) ≤
      worth value ((l.flatMap debt).flatMap (·.emitted)) := by
  induction l with
  | nil => exact le_refl _
  | cons a l ih =>
      rw [List.flatMap_cons, List.flatMap_cons, List.flatMap_append, worth_append, worth_append]
      exact add_le_add (h a List.mem_cons_self).atMost
        (ih fun b hb => h b (List.mem_cons_of_mem a hb))

theorem worth_eq (h : ∀ a ∈ l, Accounts value excuse (task a) (debt a))
    (hok : ∀ a ∈ l, (task a).result = .ok ()) :
    worth value (l.flatMap fun a => (task a).emitted) =
      worth value ((l.flatMap debt).flatMap (·.emitted)) := by
  induction l with
  | nil => rfl
  | cons a l ih =>
      have hfirst := ((h a List.mem_cons_self).ok (hok a List.mem_cons_self)).2
      rw [List.flatMap_cons, List.flatMap_cons, List.flatMap_append, worth_append, worth_append,
        hfirst, ih (fun b hb => h b (List.mem_cons_of_mem a hb))
          fun b hb => hok b (List.mem_cons_of_mem a hb)]

theorem all_ok (h : ∀ a ∈ l, Accounts value excuse (task a) (debt a))
    (hok : ∀ a ∈ l, (task a).result = .ok ()) : ∀ r ∈ l.flatMap debt, r.result = .ok () := by
  intro r hr
  obtain ⟨a, ha, hr⟩ := List.mem_flatMap.mp hr
  exact ((h a ha).ok (hok a ha)).1 r hr

/-- Runs side by side that all succeed: together they emit the same, in any order. -/
theorem parallel {emitted : List ω} (h : ∀ a ∈ l, Accounts value excuse (task a) (debt a))
    (hok : ∀ a ∈ l, (task a).result = .ok ())
    (hemitted : emitted.Perm (l.flatMap fun a => (task a).emitted)) :
    Accounts value excuse ⟨emitted, .ok ()⟩ (l.flatMap debt) where
  atMost := by
    rw [worth_perm hemitted]
    exact worth_le h
  ok _ := ⟨all_ok h hok, by rw [worth_perm hemitted, worth_eq h hok]⟩
  error e he := by cases he

/-- Runs side by side of which one fails: some of them have been run. -/
theorem parallel_failed {a : α} {e : ε} {started : List α} {emitted : List ω}
    (h : ∀ a ∈ l, Accounts value excuse (task a) (debt a)) (ha : a ∈ l)
    (he : (task a).result = .error e) (hstarted : started.Sublist l)
    (hemitted : emitted.Perm (started.flatMap fun a => (task a).emitted)) :
    Accounts value excuse ⟨emitted, .error e⟩ (l.flatMap debt) where
  atMost := by
    rw [worth_perm hemitted]
    exact (worth_sublist (hstarted.flatMap _)).trans (worth_le h)
  ok hok := by cases hok
  error e' he' := by
    cases he'
    have hsub : debt a ⊆ l.flatMap debt := fun r hr => List.mem_flatMap.mpr ⟨a, ha, hr⟩
    exact error_mono hsub ((h a ha).error e he)

end

end Accounts

end Lib
