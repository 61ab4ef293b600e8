-- SUMMARY: What holds of a pass and of all rounds of RobustPrune, given that every selection preserves it; and their end.
import ForgeANN.Prune.RobustPrune

/-!
# Passes and rounds

A pass visits the candidates once. Behind it, all factors are above its bound,
unless the result is full. The rounds end with the first bound above `alpha`.
-/
namespace ForgeANN

open Lib

variable {D F : Type} {A : PruneArith D F} {getDistance : UInt32 → UInt32 → AnnResult D}
  {prune : RobustPrune F} {location : UInt32} {curAlpha : F}
  {slots slots' done rest : List (PruneSlot D F)} {result result' : List UInt32}

namespace RobustPrune

/-- What a pass does with the candidate it is at. -/
theorem pass_cases {n : Nat} {neighbor : Neighbor D} {factor : F}
    {passed : List (PruneSlot D F) × List UInt32}
    (h : prune.pass A getDistance location curAlpha (n + 1) ((neighbor, factor) :: rest) result =
      .ok passed) :
    (prune.maxDegree ≤ result.length ∧ passed = ((neighbor, factor) :: rest, result)) ∨
    (A.gt factor curAlpha = true ∧ ∃ behind : List (PruneSlot D F) × List UInt32,
      prune.pass A getDistance location curAlpha n rest result = .ok behind ∧
      passed = ((neighbor, factor) :: behind.1, behind.2)) ∨
    (result.length < prune.maxDegree ∧ A.gt factor curAlpha = false ∧
      ∃ (occluded : List (PruneSlot D F)) (behind : List (PruneSlot D F) × List UInt32),
      rest.mapM (prune.occlude A getDistance neighbor) = .ok occluded ∧
      prune.pass A getDistance location curAlpha n occluded (select location neighbor result) =
        .ok behind ∧ passed = ((neighbor, A.maxValue) :: behind.1, behind.2)) := by
  rw [pass] at h
  split_ifs at h with hfull habove
  · cases h
    exact .inl ⟨hfull, rfl⟩
  · cases hbehind : prune.pass A getDistance location curAlpha n rest result with
    | error err =>
        rw [hbehind] at h
        cases h
    | ok behind =>
        rw [hbehind] at h
        cases h
        exact .inr (.inl ⟨habove, behind, rfl, rfl⟩)
  · rw [Bool.not_eq_true] at habove
    refine .inr (.inr ⟨Nat.lt_of_not_le hfull, habove, ?_⟩)
    cases hoccluded : rest.mapM (prune.occlude A getDistance neighbor) with
    | error err =>
        rw [hoccluded] at h
        cases h
    | ok occluded =>
        rw [hoccluded, ok_bind] at h
        cases hbehind : prune.pass A getDistance location curAlpha n occluded
            (select location neighbor result) with
        | error err =>
            rw [hbehind] at h
            cases h
        | ok behind =>
            rw [hbehind] at h
            cases h
            exact ⟨occluded, behind, rfl, hbehind, rfl⟩

/-- What selecting a neighbour preserves, whatever came before it in the pass. -/
def SelectPreserves (A : PruneArith D F) (getDistance : UInt32 → UInt32 → AnnResult D)
    (prune : RobustPrune F) (location : UInt32) (curAlpha : F)
    (P : List (PruneSlot D F) → List UInt32 → Prop) : Prop :=
  ∀ done neighbor factor rest occluded result, P (done ++ (neighbor, factor) :: rest) result →
    (∀ slot ∈ done, A.gt slot.2 curAlpha = true) → A.gt factor curAlpha = false →
    result.length < prune.maxDegree →
    rest.mapM (prune.occlude A getDistance neighbor) = .ok occluded →
    P (done ++ (neighbor, A.maxValue) :: occluded) (select location neighbor result)

theorem length_of_mapM {α β ε : Type} {f : α → Except ε β} {l : List α} {m : List β}
    (h : l.mapM f = .ok m) : m.length = l.length :=
  (forall₂_of_mapM h).length_eq.symm

theorem forall_mem_concat {α : Type} {p : α → Prop} {l : List α} {a : α} (h : ∀ b ∈ l, p b)
    (ha : p a) : ∀ b ∈ l ++ [a], p b := by
  intro b hb
  rcases List.mem_append.mp hb with hb | hb
  · exact h b hb
  · rwa [List.mem_singleton.mp hb]

/-- One pass keeps what selections preserve, and gets all factors above its bound unless the result
is full. -/
theorem pass_invariant {P : List (PruneSlot D F) → List UInt32 → Prop}
    (hP : SelectPreserves A getDistance prune location curAlpha P)
    (hmax : A.gt A.maxValue curAlpha = true) {n : Nat} (hn : slots.length ≤ n)
    (h : prune.pass A getDistance location curAlpha n slots result = .ok (slots', result'))
    (hP₀ : P (done ++ slots) result) (hdone : ∀ slot ∈ done, A.gt slot.2 curAlpha = true) :
    P (done ++ slots') result' ∧
      (prune.maxDegree ≤ result'.length ∨ ∀ slot ∈ slots', A.gt slot.2 curAlpha = true) := by
  induction n generalizing slots slots' done result result' with
  | zero =>
      obtain rfl := List.length_eq_zero_iff.mp (Nat.le_zero.mp hn)
      cases h
      exact ⟨hP₀, .inr fun slot hslot => absurd hslot List.not_mem_nil⟩
  | succ n ih =>
      cases slots with
      | nil =>
          cases h
          exact ⟨hP₀, .inr fun slot hslot => absurd hslot List.not_mem_nil⟩
      | cons slot rest =>
          obtain ⟨neighbor, factor⟩ := slot
          rw [List.length_cons] at hn
          rcases pass_cases h with ⟨hfull, heq⟩ | ⟨habove, behind, hbehind, heq⟩ |
            ⟨hroom, hbelow, occluded, behind, hoccluded, hbehind, heq⟩
          · cases heq
            exact ⟨hP₀, .inl hfull⟩
          · -- the candidate is passed over
            cases heq
            have hstart : P ((done ++ [(neighbor, factor)]) ++ rest) result := by
              rwa [List.append_assoc]
            obtain ⟨hkept, hend⟩ := ih (by omega) hbehind hstart (forall_mem_concat hdone habove)
            rw [List.append_assoc] at hkept
            exact ⟨hkept, hend.imp_right fun hall => List.forall_mem_cons.mpr ⟨habove, hall⟩⟩
          · -- it is selected
            cases heq
            have hstart : P ((done ++ [(neighbor, A.maxValue)]) ++ occluded)
                (select location neighbor result) := by
              rw [List.append_assoc]
              exact hP done neighbor factor rest occluded result hP₀ hdone hbelow hroom hoccluded
            have hlength := length_of_mapM hoccluded
            obtain ⟨hkept, hend⟩ := ih (by omega) hbehind hstart (forall_mem_concat hdone hmax)
            rw [List.append_assoc] at hkept
            exact ⟨hkept, hend.imp_right fun hall => List.forall_mem_cons.mpr ⟨hmax, hall⟩⟩

/-! ## Rounds -/

/-- The result is full, or all factors are above the bound before the `k`th. -/
def Swept (A : PruneArith D F) (prune : RobustPrune F) (k : Nat) (slots : List (PruneSlot D F))
    (result : List UInt32) : Prop :=
  prune.maxDegree ≤ result.length ∨
    ∀ i, i + 1 = k → ∀ slot ∈ slots, A.gt slot.2 (A.bound i) = true

/-- The rounds keep what selections under all their bounds preserve. They end full, or swept up to the
first bound above `alpha`. -/
theorem rounds_invariant {P : List (PruneSlot D F) → List UInt32 → Prop}
    (hP : ∀ k, A.le (A.bound k) prune.alpha = true →
      SelectPreserves A getDistance prune location (A.bound k) P)
    (hmax : ∀ k, A.le (A.bound k) prune.alpha = true → A.gt A.maxValue (A.bound k) = true)
    {fuel k : Nat} {outcome : List (PruneSlot D F) × List UInt32}
    (h : prune.rounds A getDistance location fuel (A.bound k) slots result = some (.ok outcome))
    (hP₀ : P slots result) (hswept : Swept A prune k slots result) :
    P outcome.1 outcome.2 ∧ (prune.maxDegree ≤ outcome.2.length ∨
      ∃ m, k ≤ m ∧ A.le (A.bound m) prune.alpha = false ∧
        (∀ i, k ≤ i → i < m → A.le (A.bound i) prune.alpha = true) ∧
        Swept A prune m outcome.1 outcome.2) := by
  induction fuel generalizing k slots result with
  | zero => cases h
  | succ fuel ih =>
      rw [rounds] at h
      split_ifs at h with hgo
      · cases hpass : prune.pass A getDistance location (A.bound k) slots.length slots result with
        | error err =>
            rw [hpass] at h
            cases h
        | ok passed =>
            rw [hpass] at h
            have hstart : P ([] ++ slots) result := hP₀
            obtain ⟨hkept, hend⟩ := pass_invariant (hP k hgo.1) (hmax k hgo.1) (Nat.le_refl _) hpass
              hstart (fun slot hslot => absurd hslot List.not_mem_nil)
            have hswept' : Swept A prune (k + 1) passed.1 passed.2 :=
              hend.imp_right fun hall i hi => by
                obtain rfl : i = k := by omega
                exact hall
            have hrest : prune.rounds A getDistance location fuel (A.bound (k + 1)) passed.1 passed.2 =
                some (.ok outcome) := h
            obtain ⟨hkept', hend'⟩ := ih hrest hkept hswept'
            refine ⟨hkept', hend'.imp_right ?_⟩
            rintro ⟨m, hm, hlast, hbelow, hsweptm⟩
            refine ⟨m, by omega, hlast, fun i hi hlt => ?_, hsweptm⟩
            rcases Nat.eq_or_lt_of_le hi with rfl | hi
            · exact hgo.1
            · exact hbelow i hi hlt
      · cases h
        refine ⟨hP₀, ?_⟩
        rw [not_and_or, Bool.not_eq_true] at hgo
        rcases hgo with hle | hfull
        · exact .inr ⟨k, Nat.le_refl k, hle, fun i hi hlt => absurd hlt (by omega), hswept⟩
        · exact .inl (Nat.le_of_not_lt hfull)

/-- With one more unit of fuel for every bound up to the first above `alpha`, the rounds end. -/
theorem rounds_ne_none {m k fuel : Nat} (hm : A.le (A.bound m) prune.alpha = false) (hk : k ≤ m)
    (hfuel : m < k + fuel) :
    prune.rounds A getDistance location fuel (A.bound k) slots result ≠ none := by
  induction fuel generalizing k slots result with
  | zero => omega
  | succ fuel ih =>
      rw [rounds]
      split_ifs with hgo
      · cases prune.pass A getDistance location (A.bound k) slots.length slots result with
        | error err => simp
        | ok passed =>
            have hne : k ≠ m := by
              rintro rfl
              rw [hm] at hgo
              exact absurd hgo.1 (by simp)
            exact ih (k := k + 1) (by omega) (by omega)
      · simp

/-- More fuel changes nothing. -/
theorem rounds_mono {fuel more : Nat} {curAlpha : F}
    {outcome : Except PruneError (List (PruneSlot D F) × List UInt32)} (hle : fuel ≤ more)
    (h : prune.rounds A getDistance location fuel curAlpha slots result = some outcome) :
    prune.rounds A getDistance location more curAlpha slots result = some outcome := by
  induction fuel generalizing more curAlpha slots result with
  | zero => cases h
  | succ fuel ih =>
      obtain ⟨more, rfl⟩ : ∃ n, more = n + 1 := ⟨more - 1, by omega⟩
      rw [rounds] at h ⊢
      split_ifs at h ⊢ with hgo
      · cases hpass : prune.pass A getDistance location curAlpha slots.length slots result with
        | error err =>
            rw [hpass] at h
            exact h
        | ok passed =>
            rw [hpass] at h
            exact ih (by omega) h
      · exact h

/-- The rounds come to an end, and more fuel changes nothing. -/
theorem exists_settled (hends : ∃ m, A.le (A.bound m) prune.alpha = false)
    (getDistance : UInt32 → UInt32 → AnnResult D) (location : UInt32)
    (slots : List (PruneSlot D F)) (result : List UInt32) : ∃ fuel ended, ∀ more, fuel ≤ more →
      prune.rounds A getDistance location more (A.bound 0) slots result = some ended := by
  obtain ⟨m, hm⟩ := hends
  have hne : prune.rounds A getDistance location (m + 1) (A.bound 0) slots result ≠ none :=
    rounds_ne_none hm (Nat.zero_le m) (by omega)
  obtain ⟨ended, hended⟩ := Option.ne_none_iff_exists'.mp hne
  exact ⟨m + 1, ended, fun more hmore => rounds_mono hmore hended⟩

/-! ## Candidates stay -/

/-- What a selection does to a candidate behind it. -/
theorem occlude_cases {neighbor : Neighbor D} {slot slot' : PruneSlot D F}
    (h : prune.occlude A getDistance neighbor slot = .ok slot') :
    (A.gt slot.2 prune.alpha = true ∧ slot' = slot) ∨
    (A.gt slot.2 prune.alpha = false ∧ ∃ djk, getDistance slot.1.id neighbor.id = .ok djk ∧
      slot' = (slot.1,
        if A.isZero djk then A.maxValue else A.max slot.2 (A.div slot.1.distance djk))) := by
  rw [occlude] at h
  split_ifs at h with hout
  · cases h
    exact .inl ⟨hout, rfl⟩
  · cases hd : getDistance slot.1.id neighbor.id with
    | error err =>
        rw [hd] at h
        cases h
    | ok djk =>
        rw [hd] at h
        refine .inr ⟨Bool.not_eq_true _ ▸ hout, djk, rfl, ?_⟩
        dsimp only at h
        split at h
        · cases h
        · exact (Except.ok.inj h).symm

theorem fst_of_occlude {neighbor : Neighbor D} {slot slot' : PruneSlot D F}
    (h : prune.occlude A getDistance neighbor slot = .ok slot') : slot'.1 = slot.1 := by
  rcases occlude_cases h with ⟨-, rfl⟩ | ⟨-, djk, -, rfl⟩ <;> rfl

theorem map_fst_of_mapM {neighbor : Neighbor D} {occluded : List (PruneSlot D F)}
    (h : rest.mapM (prune.occlude A getDistance neighbor) = .ok occluded) :
    occluded.map Prod.fst = rest.map Prod.fst := by
  have hall := forall₂_of_mapM h
  clear h
  induction hall with
  | nil => rfl
  | cons hhead _ ih => rw [List.map_cons, List.map_cons, ih, fst_of_occlude hhead]

theorem map_fst_selected {neighbor : Neighbor D} {occluded : List (PruneSlot D F)}
    (h : rest.mapM (prune.occlude A getDistance neighbor) = .ok occluded)
    (done : List (PruneSlot D F)) (factor factor' : F) :
    (done ++ (neighbor, factor') :: occluded).map Prod.fst =
      (done ++ (neighbor, factor) :: rest).map Prod.fst := by
  rw [List.map_append, List.map_append, List.map_cons, List.map_cons, map_fst_of_mapM h]

/-- The candidates are the same all the way. -/
theorem selectPreserves_candidates (pool : List (Neighbor D)) (curAlpha : F) :
    SelectPreserves A getDistance prune location curAlpha fun slots _ =>
      slots.map Prod.fst = pool := by
  rintro done neighbor factor rest occluded result rfl - - - hoccluded
  exact map_fst_selected hoccluded done factor A.maxValue

/-- With the distances at hand, nothing goes wrong. -/
structure DistancesKnown (getDistance : UInt32 → UInt32 → AnnResult D) (prune : RobustPrune F)
    (pool : List (Neighbor D)) : Prop where
  metric : prune.metric ≠ .ip
  known : ∀ m ∈ pool, ∀ n ∈ pool, ∃ djk, getDistance m.id n.id = .ok djk

theorem exists_occluded {pool : List (Neighbor D)} (h : DistancesKnown getDistance prune pool)
    {neighbor : Neighbor D} (hneighbor : neighbor ∈ pool) (hrest : ∀ slot ∈ rest, slot.1 ∈ pool) :
    ∃ occluded, rest.mapM (prune.occlude A getDistance neighbor) = .ok occluded := by
  cases hall : rest.mapM (prune.occlude A getDistance neighbor) with
  | ok occluded => exact ⟨occluded, rfl⟩
  | error err =>
      obtain ⟨slot, hslot, herr⟩ := exists_of_mapM_error hall
      obtain ⟨djk, hdjk⟩ := h.known slot.1 (hrest slot hslot) neighbor hneighbor
      rw [occlude, hdjk] at herr
      split_ifs at herr
      dsimp only at herr
      split at herr
      · rename_i hip
        exact absurd hip h.metric
      · cases herr

theorem exists_passed {pool : List (Neighbor D)} (h : DistancesKnown getDistance prune pool)
    (n : Nat) (hslots : ∀ slot ∈ slots, slot.1 ∈ pool) :
    ∃ passed, prune.pass A getDistance location curAlpha n slots result = .ok passed := by
  induction n generalizing slots result with
  | zero => cases slots <;> exact ⟨_, rfl⟩
  | succ n ih =>
      cases slots with
      | nil => exact ⟨_, rfl⟩
      | cons slot rest =>
          obtain ⟨neighbor, factor⟩ := slot
          obtain ⟨hneighbor, hrest⟩ := List.forall_mem_cons.mp hslots
          rw [pass]
          split_ifs
          · exact ⟨_, rfl⟩
          · obtain ⟨behind, hbehind⟩ :
                ∃ behind, prune.pass A getDistance location curAlpha n rest result = .ok behind :=
              ih hrest
            exact ⟨_, by rw [hbehind]; rfl⟩
          · obtain ⟨occluded, hoccluded⟩ := exists_occluded (A := A) h hneighbor hrest
            have hmem : ∀ slot ∈ occluded, slot.1 ∈ pool := by
              intro slot hslot
              have hfst := List.mem_map_of_mem (f := Prod.fst) hslot
              rw [map_fst_of_mapM hoccluded] at hfst
              obtain ⟨before, hbefore, heq⟩ := List.mem_map.mp hfst
              exact heq ▸ hrest before hbefore
            obtain ⟨behind, hbehind⟩ : ∃ behind, prune.pass A getDistance location curAlpha n occluded
                (select location neighbor result) = .ok behind := ih hmem
            exact ⟨_, by rw [hoccluded, ok_bind, hbehind]; rfl⟩

theorem rounds_ok {pool : List (Neighbor D)} (h : DistancesKnown getDistance prune pool)
    (hmax : ∀ k, A.le (A.bound k) prune.alpha = true → A.gt A.maxValue (A.bound k) = true)
    {fuel k : Nat} {outcome : Except PruneError (List (PruneSlot D F) × List UInt32)}
    (hslots : slots.map Prod.fst = pool)
    (hr : prune.rounds A getDistance location fuel (A.bound k) slots result = some outcome) :
    ∃ ended, outcome = .ok ended := by
  induction fuel generalizing k slots result with
  | zero => cases hr
  | succ fuel ih =>
      rw [rounds] at hr
      split_ifs at hr with hgo
      · obtain ⟨passed, hpass⟩ : ∃ passed, prune.pass A getDistance location (A.bound k) slots.length
            slots result = .ok passed :=
          exists_passed h _ fun slot hslot => hslots ▸ List.mem_map_of_mem hslot
        rw [hpass] at hr
        have hstart : ([] ++ slots).map Prod.fst = pool := hslots
        have hkept := (pass_invariant (selectPreserves_candidates pool (A.bound k)) (hmax k hgo.1)
          (Nat.le_refl _) hpass hstart fun slot hslot => absurd hslot List.not_mem_nil).1
        exact ih (k := k + 1) hkept hr
      · exact ⟨_, (Option.some.inj hr).symm⟩

end RobustPrune

end ForgeANN
