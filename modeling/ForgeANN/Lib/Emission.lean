-- SUMMARY: Computations that emit a sequence and may fail on the way.
import ForgeANN.Lib.Except
import Mathlib.Data.List.Basic

/-!
# Emitting computations

What has been emitted before a failure stays emitted.
-/
namespace Lib

structure Emission (ω ε α : Type) where
  emitted : List ω
  result : Except ε α

namespace Emission

variable {ω ε α β : Type}

instance : Monad (Emission ω ε) where
  pure a := ⟨[], .ok a⟩
  bind x f :=
    match x.result with
    | .ok a => ⟨x.emitted ++ (f a).emitted, (f a).result⟩
    | .error e => ⟨x.emitted, .error e⟩

/-- Emit `l`. -/
def emit (l : List ω) : Emission ω ε Unit := ⟨l, .ok ()⟩

/-- Fail with nothing more emitted. -/
def fail (e : ε) : Emission ω ε α := ⟨[], .error e⟩

/-- A computation that emits nothing. -/
def lift (r : Except ε α) : Emission ω ε α := ⟨[], r⟩

/-- Give `l`, of which `n` items have gone before, to a receiver that may refuse an item. That is
the end then. -/
def offerFrom (answer : Nat → ω → Except ε Unit) (n : Nat) : List ω → Except ε α → Emission ω ε α
  | [], r => ⟨[], r⟩
  | a :: l, r =>
      match answer n a with
      | .ok _ => ⟨a :: (offerFrom answer (n + 1) l r).emitted, (offerFrom answer (n + 1) l r).result⟩
      | .error e => ⟨[a], .error e⟩

/-- What `x` emits is given to a receiver that may refuse it. -/
def offeredTo (x : Emission ω ε α) (answer : Nat → ω → Except ε Unit) : Emission ω ε α :=
  offerFrom answer 0 x.emitted x.result

variable {x : Emission ω ε α} {f : α → Emission ω ε β}

@[simp] theorem pure_eq (a : α) : (pure a : Emission ω ε α) = ⟨[], .ok a⟩ := rfl

@[simp] theorem emit_bind (l : List ω) (f : Unit → Emission ω ε β) :
    emit l >>= f = ⟨l ++ (f ()).emitted, (f ()).result⟩ := rfl

@[simp] theorem lift_ok (a : α) : (lift (.ok a) : Emission ω ε α) = pure a := rfl

@[simp] theorem lift_error (e : ε) : (lift (.error e) : Emission ω ε α) = fail e := rfl

@[simp] theorem fail_bind (e : ε) (f : α → Emission ω ε β) : fail e >>= f = fail e := rfl

theorem bind_of_ok {a : α} (h : x.result = .ok a) :
    x >>= f = ⟨x.emitted ++ (f a).emitted, (f a).result⟩ := by
  obtain ⟨l, r⟩ := x
  subst h
  rfl

theorem bind_of_error {e : ε} (h : x.result = .error e) : x >>= f = ⟨x.emitted, .error e⟩ := by
  obtain ⟨l, r⟩ := x
  subst h
  rfl

theorem bind_assoc' {γ : Type} (x : Emission ω ε α) (f : α → Emission ω ε β)
    (g : β → Emission ω ε γ) : x >>= f >>= g = x >>= fun a => f a >>= g := by
  cases hx : x.result with
  | error e => rw [bind_of_error hx, bind_of_error hx, bind_of_error rfl]
  | ok a =>
      rw [bind_of_ok hx, bind_of_ok hx]
      cases hf : (f a).result with
      | error e => rw [bind_of_error rfl, bind_of_error hf]
      | ok b => rw [bind_of_ok rfl, bind_of_ok hf, List.append_assoc]

instance : LawfulMonad (Emission ω ε) := by
  refine LawfulMonad.mk' (Emission ω ε) ?_ (fun _ _ => rfl) bind_assoc'
  rintro α ⟨l, _ | a⟩
  · rfl
  · exact congrArg (fun l => (⟨l, .ok a⟩ : Emission ω ε α)) (List.append_nil l)

/-! ## Receivers that refuse -/

section

variable {answer : Nat → ω → Except ε Unit} {a : α} {e : ε}

theorem offerFrom_sublist (n : Nat) (l : List ω) (r : Except ε α) :
    (offerFrom answer n l r).emitted.Sublist l := by
  induction l generalizing n with
  | nil => exact List.Sublist.refl _
  | cons item l ih =>
      rw [offerFrom]
      split
      · exact (ih (n + 1)).cons_cons item
      · exact (List.nil_sublist l).cons_cons item

theorem offerFrom_ok {n : Nat} {l : List ω} {r : Except ε α}
    (h : (offerFrom answer n l r).result = .ok a) : offerFrom answer n l r = ⟨l, r⟩ := by
  induction l generalizing n with
  | nil => rfl
  | cons item l ih =>
      rw [offerFrom] at h ⊢
      split at h
      · rw [ih h]
      · cases h

theorem offerFrom_error {n : Nat} {l : List ω} {r : Except ε α}
    (h : (offerFrom answer n l r).result = .error e) :
    r = .error e ∨ ∃ n item, answer n item = .error e := by
  induction l generalizing n with
  | nil => exact .inl h
  | cons item l ih =>
      rw [offerFrom] at h
      split at h
      · exact ih h
      · rename_i hrefused
        cases h
        exact .inr ⟨n, item, hrefused⟩

end

end Emission

/-- A loop over lists, one after the other. -/
theorem foldlM_flatMap {m : Type → Type} [Monad m] [LawfulMonad m] {α β σ : Type}
    (step : σ → β → m σ) (items : α → List β) (l : List α) (s : σ) :
    (l.flatMap items).foldlM step s = l.foldlM (fun s a => (items a).foldlM step s) s := by
  induction l generalizing s with
  | nil => rfl
  | cons a l ih =>
      rw [List.flatMap_cons, List.foldlM_append, List.foldlM_cons]
      exact bind_congr fun s => ih s

end Lib
