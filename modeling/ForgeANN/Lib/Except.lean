-- SUMMARY: Computations that may fail: the steps of a bind, and mapping over a list.
import Mathlib.Data.List.Forall2

/-!
# Failing computations
-/
namespace Lib

variable {ε α β : Type}

theorem ok_bind (a : α) (f : α → Except ε β) : (Except.ok a >>= f) = f a := rfl

theorem error_bind (e : ε) (f : α → Except ε β) : (Except.error e >>= f) = Except.error e := rfl

/-- Both parts of a bind succeed. -/
theorem bind_eq_ok {x : Except ε α} {f : α → Except ε β} {b : β} :
    (x >>= f) = .ok b ↔ ∃ a, x = .ok a ∧ f a = .ok b := by
  cases x with
  | error e => exact ⟨fun h => (nomatch h), fun ⟨_, h, _⟩ => (nomatch h)⟩
  | ok a =>
      rw [ok_bind]
      exact ⟨fun h => ⟨a, rfl, h⟩, fun ⟨_, ha, h⟩ => by cases ha; exact h⟩

theorem exists_of_mem_forall₂ {R : α → β → Prop} {l : List α} {m : List β}
    (h : List.Forall₂ R l m) {b : β} (hb : b ∈ m) : ∃ a ∈ l, R a b := by
  induction h with
  | nil => cases hb
  | @cons a c l m hac _ ih =>
      rcases List.mem_cons.mp hb with rfl | hb
      · exact ⟨a, List.mem_cons_self, hac⟩
      · obtain ⟨a', ha', hab⟩ := ih hb
        exact ⟨a', List.mem_cons_of_mem _ ha', hab⟩

theorem forall₂_imp_mem {R S : α → β → Prop} {l : List α} {m : List β} (h : List.Forall₂ R l m)
    (himp : ∀ a ∈ l, ∀ b, R a b → S a b) : List.Forall₂ S l m := by
  induction h with
  | nil => exact .nil
  | @cons a b l m hab _ ih =>
      exact .cons (himp a List.mem_cons_self b hab) (ih fun a ha => himp a (List.mem_cons_of_mem _ ha))

section

variable {f : α → Except ε β} {l : List α}

theorem mapM_eq_ok_map {g : α → β} (h : ∀ a ∈ l, f a = .ok (g a)) : l.mapM f = .ok (l.map g) := by
  induction l with
  | nil => rfl
  | cons a l ih =>
      rw [List.mapM_cons, h a List.mem_cons_self, ok_bind,
        ih fun b hb => h b (List.mem_cons_of_mem _ hb)]
      rfl

theorem mapM_map_congr {γ : Type} {g : γ → α} {k : γ → Except ε β} {l : List γ}
    (h : ∀ c ∈ l, f (g c) = k c) : (l.map g).mapM f = l.mapM k := by
  induction l with
  | nil => rfl
  | cons c l ih =>
      rw [List.map_cons, List.mapM_cons, List.mapM_cons, h c List.mem_cons_self,
        ih fun d hd => h d (List.mem_cons_of_mem _ hd)]

/-- A mapping that succeeds has succeeded everywhere. -/
theorem forall₂_of_mapM {bs : List β} (h : l.mapM f = .ok bs) :
    List.Forall₂ (fun a b => f a = .ok b) l bs := by
  induction l generalizing bs with
  | nil =>
      cases h
      exact .nil
  | cons a l ih =>
      rw [List.mapM_cons] at h
      cases ha : f a with
      | error e =>
          rw [ha] at h
          cases h
      | ok b =>
          rw [ha, ok_bind] at h
          cases hl : l.mapM f with
          | error e =>
              rw [hl] at h
              cases h
          | ok bs =>
              rw [hl] at h
              cases h
              exact .cons ha (ih hl)

/-- A mapping that fails has failed somewhere. -/
theorem exists_of_mapM_error {e : ε} (h : l.mapM f = .error e) : ∃ a ∈ l, f a = .error e := by
  induction l with
  | nil => cases h
  | cons a l ih =>
      rw [List.mapM_cons] at h
      cases ha : f a with
      | error e' =>
          rw [ha] at h
          cases h
          exact ⟨a, List.mem_cons_self, ha⟩
      | ok b =>
          rw [ha, ok_bind] at h
          cases hl : l.mapM f with
          | error e' =>
              rw [hl] at h
              cases h
              obtain ⟨a', ha', he⟩ := ih hl
              exact ⟨a', List.mem_cons_of_mem _ ha', he⟩
          | ok bs =>
              rw [hl] at h
              cases h

theorem mapM_error_of_mem {a : α} {e : ε} (ha : a ∈ l) (h : f a = .error e) :
    ∃ e', l.mapM f = .error e' := by
  cases hl : l.mapM f with
  | error e' => exact ⟨e', rfl⟩
  | ok bs =>
      exfalso
      obtain ⟨b, -, hb⟩ := exists_of_mem_forall₂ (forall₂_of_mapM hl).flip ha
      have hb : f a = .ok b := hb
      rw [h] at hb
      cases hb

/-- A loop whose steps all succeed. -/
theorem foldlM_eq_ok_foldl {σ : Type} {step : σ → α → Except ε σ} {g : σ → α → σ}
    (h : ∀ a ∈ l, ∀ s, step s a = .ok (g s a)) (s : σ) : l.foldlM step s = .ok (l.foldl g s) := by
  induction l generalizing s with
  | nil => rfl
  | cons a l ih =>
      rw [List.foldlM_cons, h a List.mem_cons_self, ok_bind, List.foldl_cons]
      exact ih (fun b hb => h b (List.mem_cons_of_mem _ hb)) _

/-- A loop fails on an element that no state gets past. -/
theorem foldlM_error_of_mem {σ : Type} {step : σ → α → Except ε σ} {a : α} (ha : a ∈ l)
    (h : ∀ s, ∃ e, step s a = .error e) (s : σ) : ∃ e, l.foldlM step s = .error e := by
  induction l generalizing s with
  | nil => cases ha
  | cons b l ih =>
      rw [List.foldlM_cons]
      rcases List.mem_cons.mp ha with rfl | ha
      · obtain ⟨e, he⟩ := h s
        exact ⟨e, by rw [he, error_bind]⟩
      · cases hb : step s b with
        | error e => exact ⟨e, rfl⟩
        | ok next => exact ih ha next

/-- What holds of the elements a loop has gone over, and of where it is, step by step. -/
theorem foldlM_induction {σ : Type} {step : σ → α → Except ε σ} {P : List α → σ → Prop}
    (hstep : ∀ done, ∀ a ∈ l, ∀ s t, P done s → step s a = .ok t → P (done ++ [a]) t) {s t : σ}
    (hs : P [] s) (h : l.foldlM step s = .ok t) : P l t := by
  have hrun : ∀ (rest done : List α) (s : σ), (∀ a ∈ rest, a ∈ l) → P done s →
      rest.foldlM step s = .ok t → P (done ++ rest) t := by
    intro rest
    induction rest with
    | nil =>
        intro done s _ hs h
        cases h
        rwa [List.append_nil]
    | cons a rest ih =>
        intro done s hl hs h
        rw [List.foldlM_cons] at h
        obtain ⟨mid, hmid, hrest⟩ := bind_eq_ok.mp h
        rw [List.append_cons]
        exact ih (done ++ [a]) mid (fun b hb => hl b (List.mem_cons_of_mem a hb))
          (hstep done a (hl a List.mem_cons_self) s mid hs hmid) hrest
  exact hrun l [] s (fun _ ha => ha) hs h

/-- What every step keeps holds behind the loop. -/
theorem foldlM_preserves {σ : Type} {step : σ → α → Except ε σ} {P : σ → Prop}
    (hstep : ∀ a ∈ l, ∀ s t, P s → step s a = .ok t → P t) {s t : σ} (hs : P s)
    (h : l.foldlM step s = .ok t) : P t :=
  foldlM_induction (P := fun _ => P) (fun _ => hstep) hs h

/-- A loop succeeds whose steps all do. -/
theorem exists_foldlM_ok {σ : Type} {step : σ → α → Except ε σ}
    (hstep : ∀ a ∈ l, ∀ s, ∃ t, step s a = .ok t) (s : σ) : ∃ t, l.foldlM step s = .ok t := by
  induction l generalizing s with
  | nil => exact ⟨s, rfl⟩
  | cons a l ih =>
      obtain ⟨mid, hmid⟩ := hstep a List.mem_cons_self s
      obtain ⟨t, ht⟩ := ih (fun b hb => hstep b (List.mem_cons_of_mem a hb)) mid
      exact ⟨t, by rw [List.foldlM_cons, hmid, ok_bind, ht]⟩

end

/-! ## Computations that go alike -/

section

variable {α' β' σ σ' : Type}

/-- Both fail in the same way, or the results are related. -/
inductive Alike (R : α → α' → Prop) : Except ε α → Except ε α' → Prop
  | ok {a : α} {a' : α'} (h : R a a') : Alike R (.ok a) (.ok a')
  | error (e : ε) : Alike R (.error e) (.error e)

theorem Alike.refl {R : α → α → Prop} (hR : ∀ a, R a a) (x : Except ε α) : Alike R x x := by
  cases x with
  | ok a => exact .ok (hR a)
  | error e => exact .error e

theorem Alike.bind {R : α → α' → Prop} {S : β → β' → Prop} {x : Except ε α} {x' : Except ε α'}
    {f : α → Except ε β} {f' : α' → Except ε β'} (h : Alike R x x')
    (hf : ∀ a a', R a a' → Alike S (f a) (f' a')) : Alike S (x >>= f) (x' >>= f') := by
  cases h with
  | ok h => exact hf _ _ h
  | error e => exact .error e

theorem Alike.foldlM {R : σ → σ' → Prop} {step : σ → α → Except ε σ} {step' : σ' → α → Except ε σ'}
    (hstep : ∀ s s' a, R s s' → Alike R (step s a) (step' s' a)) (l : List α) {s : σ} {s' : σ'}
    (h : R s s') : Alike R (l.foldlM step s) (l.foldlM step' s') := by
  induction l generalizing s s' with
  | nil => exact .ok h
  | cons a l ih =>
      rw [List.foldlM_cons, List.foldlM_cons]
      exact (hstep s s' a h).bind fun _ _ => ih

theorem Alike.eq {x y : Except ε α} (h : Alike (· = ·) x y) : x = y := by
  cases h with
  | ok h => rw [h]
  | error e => rfl

end

/-! ## Reading ahead -/

section

variable {σ : Type}

/-- Reading all of a batch before any of it is used comes to the same, as long as nothing fails. -/
theorem foldlM_zip_mapM_ok_iff (read : α → Except ε β) (use : σ → α → β → Except ε σ)
    (batch : List α) (s t : σ) :
    (do
      let reads ← batch.mapM read
      (batch.zip reads).foldlM (fun s p => use s p.1 p.2) s) = Except.ok t ↔
    batch.foldlM (fun s a => do
      let b ← read a
      use s a b) s = Except.ok t := by
  cases hreads : batch.mapM read with
  | ok reads =>
      rw [ok_bind]
      have h := forall₂_of_mapM hreads
      clear hreads
      induction h generalizing s with
      | nil => rfl
      | @cons a b batch reads hread _ ih =>
          rw [List.zip_cons_cons, List.foldlM_cons, List.foldlM_cons, hread, ok_bind]
          cases use s a b with
          | error e => rfl
          | ok next => exact ih next
  | error e =>
      obtain ⟨a, ha, hread⟩ := exists_of_mapM_error hreads
      have hfold : ∃ e', batch.foldlM (fun s a => do
          let b ← read a
          use s a b) s = Except.error e' :=
        foldlM_error_of_mem ha (fun s => ⟨e, by simp only [hread, error_bind]⟩) s
      obtain ⟨e', hfold⟩ := hfold
      rw [error_bind, hfold]
      simp

/-- Batches that each come to the same as their elements. -/
theorem foldlM_flatten_ok_iff {step : σ → α → Except ε σ} {batchStep : σ → List α → Except ε σ}
    (h : ∀ s batch t, batchStep s batch = .ok t ↔ batch.foldlM step s = .ok t)
    (batches : List (List α)) (s t : σ) :
    batches.foldlM batchStep s = .ok t ↔ batches.flatten.foldlM step s = .ok t := by
  induction batches generalizing s with
  | nil => rfl
  | cons batch batches ih =>
      rw [List.foldlM_cons, List.flatten_cons, List.foldlM_append]
      cases hbatch : batchStep s batch with
      | ok next =>
          rw [(h s batch next).mp hbatch, ok_bind, ok_bind]
          exact ih next
      | error e =>
          have hnot : ∀ next, batch.foldlM step s ≠ .ok next := by
            intro next hok
            rw [(h s batch next).mpr hok] at hbatch
            cases hbatch
          cases hfold : batch.foldlM step s with
          | ok next => exact absurd hfold (hnot next)
          | error e' =>
              rw [error_bind, error_bind]
              simp

end

/-- An order of the sources is one of the images. -/
theorem pairwise_of_forall₂ {R : α → β → Prop} {S : α → α → Prop} {T : β → β → Prop} {l : List α}
    {m : List β} (h : List.Forall₂ R l m) (hl : l.Pairwise S)
    (hmap : ∀ a a' b b', S a a' → R a b → R a' b' → T b b') : m.Pairwise T := by
  induction h with
  | nil => exact .nil
  | @cons a b l m hab hrest ih =>
      obtain ⟨hhead, htail⟩ := List.pairwise_cons.mp hl
      refine List.pairwise_cons.mpr ⟨fun b' hb' => ?_, ih htail⟩
      clear ih htail hl
      induction hrest with
      | nil => cases hb'
      | @cons a' b'' l m hab' _ ih =>
          rcases List.mem_cons.mp hb' with rfl | hb'
          · exact hmap a a' b b' (hhead a' List.mem_cons_self) hab hab'
          · exact ih (fun x hx => hhead x (List.mem_cons_of_mem _ hx)) hb'

end Lib
