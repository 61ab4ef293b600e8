-- SUMMARY: Threads over one shared state, and invariants that add up what each thread accounts for.
import ForgeANN.Lib.Transition
import Mathlib.Algebra.BigOperators.Group.List.Basic
import Mathlib.Algebra.GroupWithZero.Nat

/-!
# Thread pools

A pool is a shared state and a list of threads. One step is a step of one
thread; it may change the shared state and spawn threads, which join the list at
its end. Quantities the threads hold parts of are sums over the list.
-/
namespace Lib

variable {S L M : Type}

/-- What a thread can do: under a move, the new shared state, its own new
state, and the threads it spawns. -/
abbrev Program (S L M : Type) := S → L → M → Option (S × L × List L)

structure Pool (S L : Type) where
  shared : S
  threads : List L
deriving DecidableEq

/-- The step of thread `a.1` under the move `a.2`. -/
def Pool.step (prog : Program S L M) (p : Pool S L) (a : Nat × M) : Option (Pool S L) :=
  match p.threads[a.1]? with
  | none => none
  | some l =>
      match prog p.shared l a.2 with
      | none => none
      | some (shared, l', new) => some ⟨shared, p.threads.set a.1 l' ++ new⟩

/-- What all threads together account for. -/
def Pool.total (w : L → Nat) (p : Pool S L) : Nat := (p.threads.map w).sum

namespace Pool

variable {prog : Program S L M} {p q : Pool S L} {a : Nat × M}

/-- What a step of the pool is. -/
theorem step_eq_some : step prog p a = some q ↔ ∃ l shared l' new, p.threads[a.1]? = some l ∧
    prog p.shared l a.2 = some (shared, l', new) ∧
    q = ⟨shared, p.threads.set a.1 l' ++ new⟩ := by
  unfold step
  constructor
  · intro h
    split at h
    · cases h
    · split at h
      · cases h
      · rename_i l hl _ shared l' new hprog
        exact ⟨l, shared, l', new, hl, hprog, (Option.some.inj h).symm⟩
  · rintro ⟨l, shared, l', new, hl, hprog, rfl⟩
    simp only [hl, hprog]

theorem sum_map_set {w : L → Nat} {threads : List L} {i : Nat} {l l' : L}
    (h : threads[i]? = some l) :
    ((threads.set i l').map w).sum + w l = (threads.map w).sum + w l' := by
  induction threads generalizing i with
  | nil => simp at h
  | cons first threads ih =>
      cases i with
      | zero =>
          simp only [List.getElem?_cons_zero, Option.some.injEq] at h
          subst h
          simp only [List.set_cons_zero, List.map_cons, List.sum_cons]
          omega
      | succ i =>
          have := ih (by simpa using h)
          simp only [List.set_cons_succ, List.map_cons, List.sum_cons]
          omega

/-- What a step does to a total. -/
theorem total_step {w : L → Nat} {i : Nat} {l l' : L} {shared : S} {new : List L}
    (h : p.threads[i]? = some l) :
    total w ⟨shared, p.threads.set i l' ++ new⟩ + w l = p.total w + w l' + (new.map w).sum := by
  have hset : _ = _ + w l' := sum_map_set h
  simp only [total, List.map_append, List.sum_append]
  omega

theorem le_total {w : L → Nat} {l : L} (h : l ∈ p.threads) : w l ≤ p.total w := by
  have hsum : ∀ threads : List L, l ∈ threads → w l ≤ (threads.map w).sum := by
    intro threads hmem
    induction threads with
    | nil => cases hmem
    | cons first threads ih =>
        rw [List.map_cons, List.sum_cons]
        rcases List.mem_cons.mp hmem with rfl | hmem
        · exact Nat.le_add_right ..
        · exact Nat.le_trans (ih hmem) (Nat.le_add_left ..)
  exact hsum _ h

theorem eq_zero_of_total {w : L → Nat} (h : p.total w = 0) {l : L} (hl : l ∈ p.threads) :
    w l = 0 :=
  Nat.le_zero.mp (h ▸ le_total hl)

theorem total_mono {w v : L → Nat} (h : ∀ l ∈ p.threads, w l ≤ v l) : p.total w ≤ p.total v := by
  have hsum : ∀ threads : List L, (∀ l ∈ threads, w l ≤ v l) →
      (threads.map w).sum ≤ (threads.map v).sum := by
    intro threads hle
    induction threads with
    | nil => exact Nat.le_refl _
    | cons first threads ih =>
        rw [List.map_cons, List.map_cons, List.sum_cons, List.sum_cons]
        exact Nat.add_le_add (hle first List.mem_cons_self)
          (ih fun l hl => hle l (List.mem_cons_of_mem _ hl))
  exact hsum _ h

/-- The books stay balanced: where every thread's step keeps `F = G + w` for its own share `w`,
the pool's steps keep it for the total. -/
theorem balance_step (F G : S → Nat) (w : L → Nat)
    (hprog : ∀ {l m s' l' new}, l ∈ p.threads → prog p.shared l m = some (s', l', new) →
      G p.shared + w l ≤ F p.shared →
      F s' + (G p.shared + w l) = F p.shared + (G s' + w l' + (new.map w).sum))
    (h : F p.shared = G p.shared + p.total w) (hstep : step prog p a = some q) :
    F q.shared = G q.shared + q.total w := by
  obtain ⟨l, shared, l', new, hl, hs, rfl⟩ := step_eq_some.mp hstep
  have hle : w l ≤ p.total w := le_total (List.mem_of_getElem? hl)
  have htotal : total w ⟨shared, p.threads.set a.1 l' ++ new⟩ + w l = _ := total_step hl
  have hlocal := hprog (List.mem_of_getElem? hl) hs (by omega)
  simp only
  omega

/-- A property of every thread, kept by the step's own thread, true of the threads it spawns, and
kept for the others. -/
theorem forall_step {P : S → L → Prop}
    (hown : ∀ {l m s' l' new}, l ∈ p.threads → prog p.shared l m = some (s', l', new) →
      P s' l' ∧ ∀ n ∈ new, P s' n)
    (hother : ∀ {l m s' l' new o}, l ∈ p.threads → o ∈ p.threads →
      prog p.shared l m = some (s', l', new) → P s' o)
    (hstep : step prog p a = some q) : ∀ l ∈ q.threads, P q.shared l := by
  obtain ⟨l, shared, l', new, hl, hs, rfl⟩ := step_eq_some.mp hstep
  have hmem := List.mem_of_getElem? hl
  obtain ⟨hl', hnew⟩ := hown hmem hs
  intro o ho
  rcases List.mem_append.mp ho with ho | ho
  · rcases List.mem_or_eq_of_mem_set ho with ho | rfl
    · exact hother hmem ho hs
    · exact hl'
  · exact hnew o ho

/-- A thread is the one that steps, or is still there after the step. -/
theorem eq_or_mem_set {threads : List L} {i : Nat} {l l' o : L} (h : threads[i]? = some l)
    (ho : o ∈ threads) : o = l ∨ o ∈ threads.set i l' := by
  obtain ⟨j, hj, rfl⟩ := List.mem_iff_getElem.mp ho
  by_cases heq : j = i
  · subst heq
    rw [List.getElem?_eq_getElem hj, Option.some.injEq] at h
    exact .inl h
  · exact .inr (List.mem_of_getElem? (i := j) (by simp [Ne.symm heq, hj]))

theorem mem_set_self {threads : List L} {i : Nat} {l l' : L} (h : threads[i]? = some l) :
    l' ∈ threads.set i l' :=
  List.mem_set (List.getElem?_eq_some_iff.mp h).1 l'

/-- The stepping thread beside the others. -/
theorem exists_rest {threads : List L} {i : Nat} {l : L} (h : threads[i]? = some l) :
    ∃ rest, threads.Perm (l :: rest) ∧ ∀ l', (threads.set i l').Perm (l' :: rest) := by
  obtain ⟨hi, hl⟩ := List.getElem?_eq_some_iff.mp h
  refine ⟨threads.eraseIdx i, ?_, fun l' => ?_⟩
  · rw [← hl]
    exact (List.getElem_cons_eraseIdx_perm hi).symm
  · have hi' : i < (threads.set i l').length := by rwa [List.length_set]
    have hset := List.getElem_cons_eraseIdx_perm hi'
    rw [List.getElem_set_self, List.eraseIdx_set_eq] at hset
    exact hset.symm

/-- What the threads hold together changes by what the stepping thread holds. -/
theorem flatMap_set_perm {β : Type} {threads : List L} {i : Nat} {l l' : L} (f : L → List β)
    (h : threads[i]? = some l) :
    ((threads.set i l').flatMap f ++ f l).Perm (threads.flatMap f ++ f l') := by
  induction threads generalizing i with
  | nil => simp at h
  | cons first threads ih =>
      cases i with
      | zero =>
          have hl : first = l := by simpa using h
          subst hl
          simp only [List.set_cons_zero, List.flatMap_cons, List.append_assoc]
          refine List.perm_append_comm.trans ?_
          rw [List.append_assoc]
          exact List.perm_append_comm_assoc _ _ _
      | succ i =>
          have hrest := ih (i := i) (by simpa using h)
          simp only [List.set_cons_succ, List.flatMap_cons, List.append_assoc]
          exact hrest.append_left _

/-! ## A thread on its own -/

end Pool

/-- One thread with the shared state, as long as it spawns nothing. -/
def soloStep (prog : Program S L M) (x : S × L) (m : M) : Option (S × L) :=
  match prog x.1 x.2 m with
  | some (s, l, []) => some (s, l)
  | _ => none

namespace Pool

variable {prog : Program S L M} {p : Pool S L}

/-- What a thread can do on its own it can do in the pool. -/
theorem run_of_solo {i : Nat} {l : L} {ms : List M} {x : S × L}
    (hr : Run (soloStep prog) (p.shared, l) ms x) (hl : p.threads[i]? = some l) :
    Run (step prog) p (ms.map (Prod.mk i)) ⟨x.1, p.threads.set i x.2⟩ := by
  generalize hy : (p.shared, l) = y at hr
  induction hr generalizing p l with
  | nil y =>
      subst hy
      obtain ⟨hlt, rfl⟩ := List.getElem?_eq_some_iff.mp hl
      rw [List.set_getElem_self hlt]
      exact .nil p
  | @cons y u x m ms hm hr ih =>
      subst hy
      unfold soloStep at hm
      split at hm
      · rename_i s' l' hprog
        cases hm
        have hstep : step prog p (i, m) = some ⟨s', p.threads.set i l'⟩ := by
          rw [step_eq_some]
          exact ⟨l, s', l', [], hl, hprog, by rw [List.append_nil]⟩
        have hrest := @ih ⟨s', p.threads.set i l'⟩ l'
          (List.getElem?_set_self (List.getElem?_eq_some_iff.mp hl).1) rfl
        rw [List.set_set] at hrest
        exact .cons hstep hrest
      · cases hm

/-- Where every thread can run to its end on its own, whatever the others have left of the shared
state, they can all do so, one after the other. -/
theorem run_all {C : S → Prop} {E : L → Prop} (hC : C p.shared)
    (hend : ∀ s, C s → ∀ l ∈ p.threads, ∃ ms s' l',
      Run (soloStep prog) (s, l) ms (s', l') ∧ C s' ∧ E l') :
    ∃ as q, Run (step prog) p as q ∧ (∀ a ∈ as, a.1 < p.threads.length) ∧ C q.shared ∧
      q.threads.length = p.threads.length ∧ ∀ l ∈ q.threads, E l := by
  have hfirst : ∀ n ≤ p.threads.length, ∃ as q, Run (step prog) p as q ∧
      (∀ a ∈ as, a.1 < p.threads.length) ∧ C q.shared ∧ q.threads.length = p.threads.length ∧
      (∀ i < n, ∃ l, q.threads[i]? = some l ∧ E l) ∧ ∀ i ≥ n, q.threads[i]? = p.threads[i]? := by
    intro n
    induction n with
    | zero => exact fun _ => ⟨[], p, .nil p, by simp, hC, rfl, by simp, fun _ _ => rfl⟩
    | succ n ih =>
        intro hn
        obtain ⟨as, q, hr, has, hCq, hlen, hdone, hleft⟩ := ih (Nat.le_of_succ_le hn)
        have hget : p.threads[n]? = some p.threads[n] := List.getElem?_eq_getElem hn
        obtain ⟨ms, s', l', hsolo, hCs, hEl⟩ := hend q.shared hCq _ (List.mem_of_getElem? hget)
        have hnext := run_of_solo hsolo ((hleft n (Nat.le_refl n)).trans hget)
        refine ⟨as ++ ms.map (Prod.mk n), _, hr.append hnext, ?_, hCs, ?_, ?_, ?_⟩
        · intro a ha
          rcases List.mem_append.mp ha with ha | ha
          · exact has a ha
          · obtain ⟨m, _, rfl⟩ := List.mem_map.mp ha
            exact hn
        · exact List.length_set.trans hlen
        · intro i hi
          rcases Nat.lt_succ_iff_lt_or_eq.mp hi with hi | rfl
          · obtain ⟨l, hl, hE⟩ := hdone i hi
            exact ⟨l, by rw [List.getElem?_set_ne (Nat.ne_of_gt hi)]; exact hl, hE⟩
          · exact ⟨l', List.getElem?_set_self (hlen ▸ hn), hEl⟩
        · intro i hi
          rw [List.getElem?_set_ne (Nat.ne_of_lt hi)]
          exact hleft i (Nat.le_of_succ_le hi)
  obtain ⟨as, q, hr, has, hCq, hlen, hdone, -⟩ := hfirst _ (Nat.le_refl _)
  refine ⟨as, q, hr, has, hCq, hlen, fun l hl => ?_⟩
  obtain ⟨i, hi, rfl⟩ := List.mem_iff_getElem.mp hl
  obtain ⟨l, hl, hE⟩ := hdone i (hlen ▸ hi)
  rw [List.getElem?_eq_getElem hi, Option.some.injEq] at hl
  rw [hl]
  exact hE

end Pool
end Lib
