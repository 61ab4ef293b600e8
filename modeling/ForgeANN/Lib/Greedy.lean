-- SUMMARY: Cutting a list greedily into runs, each as long as its state lets the next item join.
import Mathlib.Data.List.Basic
import Mathlib.Data.List.Pairwise
import Mathlib.Order.Defs.LinearOrder
import Mathlib.Order.Lattice

/-!
# Greedy runs

A run starts with the first item left and takes items as long as its state can
be extended by them.
-/
namespace Lib

/-- A run of items, and the state it ended in. -/
structure GreedyRun (α σ : Type) where
  first : α
  more : List α
  state : σ
deriving DecidableEq, Repr

namespace GreedyRun

variable {α β σ : Type}

def items (run : GreedyRun α σ) : List α := run.first :: run.more

def last (run : GreedyRun α σ) : α := run.more.getLastD run.first

theorem last_mem (run : GreedyRun α σ) : run.last ∈ run.items := by
  rw [last, items, List.getLastD_eq_getLast?]
  cases hmore : run.more.getLast? with
  | none => exact List.mem_cons_self
  | some a => exact List.mem_cons_of_mem _ (List.mem_of_getLast? hmore)

theorem getLast?_items (run : GreedyRun α σ) : run.items.getLast? = some run.last := by
  rw [items, List.getLast?_cons, last, List.getLastD_eq_getLast?]

/-- The items of an ordered run lie between its first and its last one. -/
theorem between_of_pairwise {R : α → α → Prop} [Std.Refl R] {run : GreedyRun α σ}
    (h : run.items.Pairwise R) {a : α} (ha : a ∈ run.items) : R run.first a ∧ R a run.last := by
  constructor
  · rcases List.mem_cons.mp ha with rfl | ha
    · exact Std.Refl.refl _
    · exact (List.pairwise_cons.mp h).1 a ha
  · have hlast : run.items.getLast (List.cons_ne_nil _ _) = run.last :=
      Option.some.inj ((List.getLast?_eq_some_getLast (List.cons_ne_nil _ _)).symm.trans
        run.getLast?_items)
    rw [← hlast]
    exact h.rel_getLast ha

/-- The run of the items' images. -/
def map (f : α → β) (run : GreedyRun α σ) : GreedyRun β σ := ⟨f run.first, run.more.map f, run.state⟩

@[simp] theorem map_items (f : α → β) (run : GreedyRun α σ) : (run.map f).items = run.items.map f := rfl

@[simp] theorem map_first (f : α → β) (run : GreedyRun α σ) : (run.map f).first = f run.first := rfl

@[simp] theorem map_last (f : α → β) (run : GreedyRun α σ) : (run.map f).last = f run.last := by
  rw [last, last, map, List.getLastD_eq_getLast?, List.getLastD_eq_getLast?, List.getLast?_map]
  cases run.more.getLast? with
  | none => rfl
  | some a => rfl

end GreedyRun

section

variable {α σ : Type}

/-- The items that join, the state then, and the items that are left. -/
def takeRun (extend : σ → α → Option σ) : σ → List α → List α × σ × List α
  | state, [] => ([], state, [])
  | state, a :: l =>
      match extend state a with
      | none => ([], state, a :: l)
      | some next =>
          let rest := takeRun extend next l
          (a :: rest.1, rest.2)

variable {extend : σ → α → Option σ}

theorem takeRun_append (state : σ) (l : List α) :
    (takeRun extend state l).1 ++ (takeRun extend state l).2.2 = l := by
  induction l generalizing state with
  | nil => rfl
  | cons a l ih =>
      rw [takeRun]
      cases extend state a with
      | none => rfl
      | some next => exact congrArg (List.cons a) (ih next)

theorem takeRun_length_le (state : σ) (l : List α) :
    (takeRun extend state l).2.2.length ≤ l.length := by
  have happend : (takeRun extend state l).1 ++ (takeRun extend state l).2.2 = l :=
    takeRun_append state l
  rw [← congrArg List.length happend, List.length_append]
  exact Nat.le_add_left ..

/-- What holds of the start and is kept by each item holds in the end. -/
theorem takeRun_rule {P : List α → σ → Prop}
    (hextend : ∀ taken state a next, P taken state → extend state a = some next →
      P (taken ++ [a]) next)
    {taken : List α} {state : σ} (h : P taken state) (l : List α) :
    P (taken ++ (takeRun extend state l).1) (takeRun extend state l).2.1 := by
  induction l generalizing taken state with
  | nil => simpa [takeRun] using h
  | cons a l ih =>
      rw [takeRun]
      cases hjoin : extend state a with
      | none => simpa using h
      | some next => simpa using ih (hextend taken state a next h hjoin)

/-- The runs of a list. -/
def greedyRuns (start : α → σ) (extend : σ → α → Option σ) : List α → List (GreedyRun α σ)
  | [] => []
  | a :: l =>
      let taken := takeRun extend (start a) l
      ⟨a, taken.1, taken.2.1⟩ :: greedyRuns start extend taken.2.2
termination_by l => l.length
decreasing_by exact Nat.lt_succ_of_le (takeRun_length_le ..)

variable {start : α → σ}

theorem greedyRuns_cons {a : α} {l more left : List α} {state : σ}
    (h : takeRun extend (start a) l = (more, state, left)) :
    greedyRuns start extend (a :: l) = ⟨a, more, state⟩ :: greedyRuns start extend left := by
  rw [greedyRuns, h]

theorem greedyRuns_singleton {a : α} {l more : List α} {state : σ}
    (h : takeRun extend (start a) l = (more, state, [])) :
    greedyRuns start extend (a :: l) = [⟨a, more, state⟩] := by
  rw [greedyRuns_cons h, greedyRuns]

/-- The runs are the list, in order. -/
theorem flatMap_greedyRuns (l : List α) : (greedyRuns start extend l).flatMap GreedyRun.items = l := by
  induction l using greedyRuns.induct start extend with
  | case1 => rw [greedyRuns, List.flatMap_nil]
  | case2 a l taken ih =>
      rw [greedyRuns, List.flatMap_cons, ih, GreedyRun.items, List.cons_append]
      exact congrArg (List.cons a) (takeRun_append (start a) l)

/-- What holds of a run of one item and is kept by each item that joins holds of all runs. -/
theorem greedyRuns_rule {P : List α → σ → Prop} (hstart : ∀ a, P [a] (start a))
    (hextend : ∀ taken state a next, P taken state → extend state a = some next →
      P (taken ++ [a]) next)
    {l : List α} {run : GreedyRun α σ} (h : run ∈ greedyRuns start extend l) : P run.items run.state := by
  induction l using greedyRuns.induct start extend with
  | case1 =>
      rw [greedyRuns] at h
      cases h
  | case2 a l taken ih =>
      rw [greedyRuns] at h
      rcases List.mem_cons.mp h with rfl | h
      · exact takeRun_rule hextend (hstart a) l
      · exact ih h

/-- Whether an item joins may depend on its image only. -/
theorem greedyRuns_map {β : Type} (f : β → α) (l : List β) :
    greedyRuns start extend (l.map f) =
      (greedyRuns (fun b => start (f b)) (fun state b => extend state (f b)) l).map (GreedyRun.map f) := by
  have htake : ∀ (l : List β) (state : σ), takeRun extend state (l.map f) =
      ((takeRun (fun state b => extend state (f b)) state l).1.map f,
        (takeRun (fun state b => extend state (f b)) state l).2.1,
        (takeRun (fun state b => extend state (f b)) state l).2.2.map f) := by
    intro l
    induction l with
    | nil => exact fun _ => rfl
    | cons b l ih =>
        intro state
        rw [List.map_cons, takeRun, takeRun]
        cases extend state (f b) with
        | none => rfl
        | some next => simp only [ih next, List.map_cons]
  induction l using greedyRuns.induct (fun b => start (f b)) (fun state b => extend state (f b)) with
  | case1 =>
      rw [List.map_nil, greedyRuns, greedyRuns]
      rfl
  | case2 b l taken ih =>
      rw [List.map_cons, greedyRuns, greedyRuns, htake, ih]
      rfl

theorem items_sublist {l : List α} {run : GreedyRun α σ} (h : run ∈ greedyRuns start extend l) :
    run.items.Sublist l := by
  have hsub := List.sublist_flatten_of_mem (List.mem_map_of_mem (f := GreedyRun.items) h)
  rwa [← List.flatMap_def, flatMap_greedyRuns] at hsub

end

/-! ## Runs of one key -/

section

variable {α κ : Type} {key : α → κ}

/-- A run goes on as long as the key stays what it was. -/
def keyRuns [DecidableEq κ] (key : α → κ) (l : List α) : List (GreedyRun α κ) :=
  greedyRuns key (fun k a => if key a = k then some k else none) l

theorem flatMap_keyRuns [DecidableEq κ] (l : List α) : (keyRuns key l).flatMap GreedyRun.items = l :=
  flatMap_greedyRuns l

theorem key_of_mem_keyRuns [DecidableEq κ] {l : List α} {run : GreedyRun α κ} (h : run ∈ keyRuns key l)
    {a : α} (ha : a ∈ run.items) : key a = run.state := by
  refine greedyRuns_rule (P := fun taken k => ∀ a ∈ taken, key a = k) ?_ ?_ h a ha
  · intro a b hb
    rw [List.mem_singleton.mp hb]
  · intro taken k a next htaken hjoin b hb
    obtain ⟨hkey, rfl⟩ : key a = k ∧ k = next := by simpa using hjoin
    rcases List.mem_append.mp hb with hb | hb
    · exact htaken b hb
    · rwa [List.mem_singleton.mp hb]

/-- The first item left behind has another key. -/
theorem takeRun_key_ne [DecidableEq κ] {k : κ} {l left : List α} {a : α}
    (h : (takeRun (fun k a => if key a = k then some k else none) k l).2.2 = a :: left) :
    key a ≠ k := by
  induction l with
  | nil => cases h
  | cons b l ih =>
      rw [takeRun] at h
      by_cases hb : key b = k
      · rw [if_pos hb] at h
        exact ih h
      · rw [if_neg hb] at h
        obtain ⟨rfl, -⟩ := List.cons.inj h
        exact hb

/-- The keys of a sorted list's runs go up. -/
theorem keyRuns_pairwise [LinearOrder κ] {l : List α} (h : l.Pairwise fun a b => key a ≤ key b) :
    (keyRuns key l).Pairwise fun a b => a.state < b.state := by
  unfold keyRuns
  induction l using greedyRuns.induct key (fun k a => if key a = k then some k else none) with
  | case1 =>
      rw [greedyRuns]
      exact .nil
  | case2 a l taken ih =>
      obtain ⟨hfirst, hsorted⟩ := List.pairwise_cons.mp h
      have happend : taken.1 ++ taken.2.2 = l := takeRun_append (key a) l
      rw [← happend] at hfirst hsorted
      have hleft := (List.pairwise_append.mp hsorted).2.1
      rw [greedyRuns]
      refine List.pairwise_cons.mpr ⟨fun run hrun => ?_, ih hleft⟩
      have hstate : taken.2.1 = key a := by
        have hmem : (⟨a, taken.1, taken.2.1⟩ : GreedyRun α κ) ∈ keyRuns key (a :: l) := by
          rw [keyRuns, greedyRuns]
          exact List.mem_cons_self
        exact (key_of_mem_keyRuns hmem List.mem_cons_self).symm
      have hkey : key run.first = run.state := key_of_mem_keyRuns hrun List.mem_cons_self
      have hmem : run.first ∈ taken.2.2 := (items_sublist hrun).subset List.mem_cons_self
      -- What is left starts behind the run, and only goes up from there.
      obtain ⟨b, left, hcons⟩ := List.exists_cons_of_ne_nil (List.ne_nil_of_mem hmem)
      have hb : key a < key b :=
        lt_of_le_of_ne (hfirst b (by simp [hcons])) (takeRun_key_ne hcons).symm
      rw [hcons] at hleft hmem
      rw [hstate, ← hkey]
      rcases List.mem_cons.mp hmem with heq | hmem
      · rwa [heq]
      · exact lt_of_lt_of_le hb ((List.pairwise_cons.mp hleft).1 _ hmem)

end
end Lib
