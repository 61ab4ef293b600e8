-- SUMMARY: A spine overlay row: the base spine, overlay ids up to a budget, and the rest of the base as refill.
import ForgeANN.Common.Basic
import Mathlib.Data.List.Dedup
import Mathlib.Data.List.Nodup
import Mathlib.Data.Finset.Card
import Mathlib.Data.Finset.Lattice.Lemmas

/-!
# Selecting a spine overlay row

A row is put together in three passes over a shared list of ids that are already
in it: a prefix of the base row, overlay ids as long as the budget lasts, and
base ids again while there is room.
-/
namespace ForgeANN

/-- The options that the selection reads. -/
structure SpineOverlayPruneOptions where
  maxDegree : Nat
  overlayBudget : Nat
deriving DecidableEq, Repr

/-! ## The passes -/

/-- Whether the id was new, with it appended if it was. -/
def pushUniqueId (dst : UInt32) (selected : List UInt32) : List UInt32 × Bool :=
  if dst ∈ selected then (selected, false) else (selected ++ [dst], true)

/-- A pass over a row: ids are pushed until it is time to stop, and those that were new counted. -/
def pushPass (stop : List UInt32 → Nat → Bool) :
    List UInt32 → List UInt32 → Nat → List UInt32 × Nat
  | [], selected, added => (selected, added)
  | dst :: row, selected, added =>
      if stop selected added then (selected, added)
      else
        let pushed := pushUniqueId dst selected
        pushPass stop row pushed.1 (if pushed.2 then added + 1 else added)

namespace SpineOverlayPruneOptions

variable (options : SpineOverlayPruneOptions)

def budget : Nat := min options.overlayBudget options.maxDegree

/-- How much of the base row is the spine. -/
def baseKeep : Nat := options.maxDegree - options.budget

/-- `select_spine_overlay_row_with_stats`: the row, with the numbers of overlay and refill ids. -/
def selectSpineOverlayRow (baseRow overlayRow : List UInt32) : List UInt32 × Nat × Nat :=
  let kept := (pushPass (fun _ _ => false) (baseRow.take options.baseKeep) [] 0).1
  let overlaid := pushPass (fun selected added =>
    decide (options.maxDegree ≤ selected.length) || decide (options.budget ≤ added)) overlayRow kept 0
  let refilled := pushPass (fun selected _ => decide (options.maxDegree ≤ selected.length))
    (baseRow.drop options.baseKeep) overlaid.1 0
  (refilled.1, overlaid.2, refilled.2)

end SpineOverlayPruneOptions

/-! ## What a pass does -/

variable {stop : List UInt32 → Nat → Bool} {row passed left selected new : List UInt32}
  {added : Nat}

/-- A pass got through `passed`, with `left` not looked at, and pushed `new`. -/
structure Pushed (stop : List UInt32 → Nat → Bool) (selected : List UInt32) (added : Nat)
    (passed left new : List UInt32) : Prop where
  sublist : new.Sublist passed
  fresh : ∀ x ∈ new, x ∉ selected
  distinct : new.Nodup
  /-- Nothing that was passed is missing. -/
  complete : ∀ x ∈ passed, x ∈ selected ++ new
  /-- The pass ends with the row, or when it is time to. -/
  ended : left = [] ∨ stop (selected ++ new) (added + new.length) = true
  /-- It was not yet time before the last id was pushed. -/
  going : new = [] ∨ stop (selected ++ new.dropLast) (added + new.dropLast.length) = false

theorem Pushed.append (h : Pushed stop selected added passed left new) (hdistinct : selected.Nodup) :
    (selected ++ new).Nodup :=
  List.nodup_append.mpr ⟨hdistinct, h.distinct, fun _ hx y hy heq => h.fresh y hy (heq ▸ hx)⟩

/-- An id that is there already is passed over. -/
theorem Pushed.skip {dst : UInt32} (hmem : dst ∈ selected)
    (h : Pushed stop selected added passed left new) :
    Pushed stop selected added (dst :: passed) left new where
  sublist := h.sublist.cons dst
  fresh := h.fresh
  distinct := h.distinct
  complete x hx := by
    rcases List.mem_cons.mp hx with rfl | hx
    · exact List.mem_append_left new hmem
    · exact h.complete x hx
  ended := h.ended
  going := h.going

/-- A new id goes in front of those that the rest of the pass pushes. -/
theorem Pushed.push {dst : UInt32} (hmem : dst ∉ selected) (hstop : stop selected added = false)
    (h : Pushed stop (selected ++ [dst]) (added + 1) passed left new) :
    Pushed stop selected added (dst :: passed) left (dst :: new) where
  sublist := h.sublist.cons_cons dst
  fresh x hx := by
    rcases List.mem_cons.mp hx with rfl | hx
    · exact hmem
    · exact fun hin => h.fresh x hx (List.mem_append_left _ hin)
  distinct := List.nodup_cons.mpr
    ⟨fun hin => h.fresh dst hin (List.mem_append_right _ (List.mem_singleton_self dst)), h.distinct⟩
  complete x hx := by
    rw [List.append_cons]
    rcases List.mem_cons.mp hx with rfl | hx
    · exact List.mem_append_left _ (List.mem_append_right _ (List.mem_singleton_self _))
    · exact h.complete x hx
  ended := by
    rw [List.append_cons, List.length_cons, ← Nat.add_assoc, Nat.add_right_comm]
    exact h.ended
  going := by
    right
    rcases h.going with rfl | hgoing
    · rwa [List.dropLast_singleton, List.append_nil, List.length_nil, Nat.add_zero]
    · cases hnew : new with
      | nil => rwa [List.dropLast_singleton, List.append_nil, List.length_nil, Nat.add_zero]
      | cons next more =>
          rw [hnew] at hgoing
          rw [List.dropLast_cons_cons, List.append_cons, List.length_cons, ← Nat.add_assoc,
            Nat.add_right_comm]
          exact hgoing

theorem pushPass_spec (stop : List UInt32 → Nat → Bool) (row selected : List UInt32) (added : Nat) :
    ∃ passed left new, row = passed ++ left ∧ Pushed stop selected added passed left new ∧
      pushPass stop row selected added = (selected ++ new, added + new.length) := by
  induction row generalizing selected added with
  | nil =>
      refine ⟨[], [], [], rfl, ⟨.slnil, ?_, .nil, ?_, .inl rfl, .inl rfl⟩, ?_⟩
      · exact fun x hx => absurd hx List.not_mem_nil
      · exact fun x hx => absurd hx List.not_mem_nil
      · rw [pushPass, List.append_nil, List.length_nil, Nat.add_zero]
  | cons dst row ih =>
      rw [pushPass]
      split_ifs with hstop
      · refine ⟨[], dst :: row, [], rfl, ⟨.slnil, ?_, .nil, ?_, .inr ?_, .inl rfl⟩, ?_⟩
        · exact fun x hx => absurd hx List.not_mem_nil
        · exact fun x hx => absurd hx List.not_mem_nil
        · rwa [List.append_nil, List.length_nil, Nat.add_zero]
        · rw [List.append_nil, List.length_nil, Nat.add_zero]
      · rw [Bool.not_eq_true] at hstop
        by_cases hmem : dst ∈ selected
        · obtain ⟨passed, left, new, rfl, hpushed, heq⟩ := ih selected added
          refine ⟨dst :: passed, left, new, rfl, hpushed.skip hmem, ?_⟩
          simp only [pushUniqueId, if_pos hmem, Bool.false_eq_true, if_false]
          exact heq
        · obtain ⟨passed, left, new, rfl, hpushed, heq⟩ := ih (selected ++ [dst]) (added + 1)
          refine ⟨dst :: passed, left, dst :: new, rfl, hpushed.push hmem hstop, ?_⟩
          simp only [pushUniqueId, if_neg hmem, if_true]
          rw [heq, List.append_assoc, List.singleton_append, List.length_cons, Nat.add_assoc,
            Nat.add_comm 1]

/-- How far a pass can get that only starts on an id below a bound. -/
theorem Pushed.bound {bound : Nat} (size : List UInt32 → Nat → Nat)
    (h : Pushed stop selected added passed left new) (hstart : size selected added ≤ bound)
    (hstop : ∀ l n, stop l n = false → size l n < bound)
    (hsize : ∀ l n x, size (l ++ [x]) (n + 1) = size l n + 1) :
    size (selected ++ new) (added + new.length) ≤ bound := by
  rcases List.eq_nil_or_concat new with rfl | ⟨before, x, rfl⟩
  · rwa [List.append_nil, List.length_nil, Nat.add_zero]
  · rcases h.going with hnil | hgoing
    · exact absurd hnil (by simp)
    · rw [List.concat_eq_append, List.dropLast_concat] at hgoing
      rw [List.concat_eq_append, ← List.append_assoc, List.length_append, List.length_singleton,
        ← Nat.add_assoc, hsize]
      exact hstop _ _ hgoing

/-- A pass that does not stop pushes a row of distinct ids as it is. -/
theorem pushPass_of_nodup (h : row.Nodup) : (pushPass (fun _ _ => false) row [] 0).1 = row := by
  obtain ⟨passed, left, new, rfl, hpushed, heq⟩ := pushPass_spec (fun _ _ => false) row [] 0
  have hleft : left = [] := hpushed.ended.resolve_right Bool.false_ne_true
  rw [hleft, List.append_nil] at h
  rw [heq, hleft, List.append_nil, List.nil_append]
  apply hpushed.sublist.eq_of_length_le
  exact (h.subperm fun x hx => by simpa using hpushed.complete x hx).length_le

/-! ## The selected row -/

/-- What is selected: the spine, then the overlay ids that were accepted, then the refill. -/
structure SpineOverlayRow (options : SpineOverlayPruneOptions)
    (baseRow overlayRow selected accepted refill : List UInt32) : Prop where
  layout : selected = baseRow.take (options.maxDegree - options.overlayBudget) ++ accepted ++ refill
  accepted_sublist : accepted.Sublist overlayRow
  refill_sublist : refill.Sublist (baseRow.drop (options.maxDegree - options.overlayBudget))
  distinct : selected.Nodup
  length_le : selected.length ≤ options.maxDegree
  accepted_le : accepted.length ≤ options.overlayBudget
  /-- Overlay ids outside the spine, refilled ones included. -/
  overlay_le : (selected.filter fun dst => dst ∈ overlayRow ∧
    dst ∉ baseRow.take (options.maxDegree - options.overlayBudget)).length ≤ options.overlayBudget
  /-- A base id has to make room for an accepted one only. -/
  lost_le : ((baseRow.take options.maxDegree).filter fun dst => dst ∉ selected).length ≤
    accepted.length
  /-- The row is as long as the ids there are allow. -/
  length_eq : selected.length = min options.maxDegree (baseRow ++ accepted).toFinset.card

namespace SpineOverlayPruneOptions

variable {options : SpineOverlayPruneOptions} {baseRow overlayRow accepted refill : List UInt32}

theorem baseKeep_eq (options : SpineOverlayPruneOptions) :
    options.baseKeep = options.maxDegree - options.overlayBudget := by
  rw [baseKeep, budget]
  omega

/-- If the row has been filled, what it takes of the base row is of its first `maxDegree` ids. -/
theorem lost_le_of_full {selected : List UInt32} (hbase : baseRow.Nodup)
    (hpassed : passed ++ left = baseRow.drop options.baseKeep)
    (hcomplete : ∀ x ∈ passed, x ∈ selected) (hrefill : refill.Sublist passed)
    (hlayout : selected = baseRow.take options.baseKeep ++ accepted ++ refill)
    (hlength : selected.length = options.maxDegree) :
    ((baseRow.take options.maxDegree).filter fun dst => dst ∉ selected).length ≤
      accepted.length := by
  have hsplit : baseRow.take options.baseKeep ++ passed ++ left = baseRow := by
    rw [List.append_assoc, hpassed, List.take_append_drop]
  have hdistinct : (baseRow.take options.baseKeep ++ passed).Nodup := by
    rw [← hsplit] at hbase
    exact (List.nodup_append.mp hbase).1
  -- the base row is gone through up to a place below `maxDegree`
  have hplace : (baseRow.take options.baseKeep ++ passed).length ≤ options.maxDegree := by
    rw [← hlength]
    refine (hdistinct.subperm fun x hx => ?_).length_le
    rcases List.mem_append.mp hx with hx | hx
    · rw [hlayout]
      exact List.mem_append_left _ (List.mem_append_left _ hx)
    · exact hcomplete x hx
  have hfront : baseRow.take options.baseKeep ++ passed <+: baseRow.take options.maxDegree := by
    rw [List.prefix_take_iff]
    exact ⟨⟨left, hsplit⟩, hplace⟩
  have hsub : (baseRow.take options.baseKeep ++ refill).Sublist
      (baseRow.take options.baseKeep ++ passed) := hrefill.append_left _
  have hin : (baseRow.take options.baseKeep ++ refill).length ≤
      ((baseRow.take options.maxDegree).filter fun dst => dst ∈ selected).length := by
    refine ((hsub.nodup hdistinct).subperm fun x hx => ?_).length_le
    refine List.mem_filter.mpr ⟨hfront.subset (hsub.subset hx), ?_⟩
    rw [decide_eq_true_eq, hlayout, List.append_assoc]
    rcases List.mem_append.mp hx with hx | hx
    · exact List.mem_append_left _ hx
    · exact List.mem_append_right _ (List.mem_append_right _ hx)
  have hparts := List.length_eq_length_filter_add
    (l := baseRow.take options.maxDegree) fun dst => decide (dst ∈ selected)
  have htake : (baseRow.take options.maxDegree).length ≤ options.maxDegree := by
    rw [List.length_take]
    exact Nat.min_le_left _ _
  rw [hlayout, List.length_append, List.length_append] at hlength
  rw [List.length_append] at hin
  simp only [decide_not]
  omega

/-- No overlay id is left for the refill to bring in. -/
theorem overlay_le_of_passed {selected overlay : List UInt32} (hdistinct : selected.Nodup)
    (hlayout : selected = baseRow.take options.baseKeep ++ accepted ++ refill)
    (h : refill = [] ∨ ∀ x ∈ overlay, x ∈ baseRow.take options.baseKeep ++ accepted) :
    (selected.filter fun dst => dst ∈ overlay ∧
      dst ∉ baseRow.take options.baseKeep).length ≤ accepted.length := by
  refine ((hdistinct.filter _).subperm fun x hx => ?_).length_le
  obtain ⟨hx, hoverlay⟩ := List.mem_filter.mp hx
  obtain ⟨hin, hout⟩ := of_decide_eq_true hoverlay
  have hfront : x ∈ baseRow.take options.baseKeep ++ accepted := by
    rcases h with rfl | h
    · rwa [hlayout, List.append_nil] at hx
    · exact h x hin
  exact (List.mem_append.mp hfront).resolve_left hout

/-- The selected row keeps the spine of the base row, whatever the overlay, the degree and the
budget: what it adds is within the budget, and what it loses made room for that. -/
theorem selectSpineOverlayRow_spec (options : SpineOverlayPruneOptions) {baseRow : List UInt32}
    (hbase : baseRow.Nodup) (overlayRow : List UInt32) :
    ∃ accepted refill,
      (options.selectSpineOverlayRow baseRow overlayRow).2 = (accepted.length, refill.length) ∧
      SpineOverlayRow options baseRow overlayRow
        (options.selectSpineOverlayRow baseRow overlayRow).1 accepted refill := by
  have hkept := pushPass_of_nodup ((List.take_sublist options.baseKeep baseRow).nodup hbase)
  obtain ⟨overPassed, overLeft, accepted, hoverlay, hover, hoverEq⟩ := pushPass_spec
    (fun selected added => decide (options.maxDegree ≤ selected.length) ||
      decide (options.budget ≤ added)) overlayRow (baseRow.take options.baseKeep) 0
  obtain ⟨basePassed, baseLeft, refill, hdrop, hrefill, hrefillEq⟩ := pushPass_spec
    (fun selected _ => decide (options.maxDegree ≤ selected.length))
    (baseRow.drop options.baseKeep) (baseRow.take options.baseKeep ++ accepted) 0
  have hselect : options.selectSpineOverlayRow baseRow overlayRow =
      (baseRow.take options.baseKeep ++ accepted ++ refill, accepted.length, refill.length) := by
    simp only [selectSpineOverlayRow, hkept, hoverEq, hrefillEq, Nat.zero_add]
  rw [hselect]
  -- the three parts are within their bounds
  have hbudget : options.budget ≤ options.overlayBudget := Nat.min_le_left _ _
  have hkeptLen : (baseRow.take options.baseKeep).length ≤ options.maxDegree := by
    rw [List.length_take, baseKeep]
    omega
  have hdistinctOver := hover.append ((List.take_sublist options.baseKeep baseRow).nodup hbase)
  have hdistinct := hrefill.append hdistinctOver
  have haccepted : 0 + accepted.length ≤ options.budget := by
    apply hover.bound (fun _ added => added) (Nat.zero_le _)
    · intro l n hstop
      simpa using (Bool.or_eq_false_iff.mp hstop).2
    · exact fun _ _ _ => rfl
  have hoverLen : (baseRow.take options.baseKeep ++ accepted).length ≤ options.maxDegree := by
    apply hover.bound (fun selected _ => selected.length) hkeptLen
    · intro l n hstop
      simpa using (Bool.or_eq_false_iff.mp hstop).1
    · exact fun _ _ _ => List.length_append
  have hlength : (baseRow.take options.baseKeep ++ accepted ++ refill).length ≤
      options.maxDegree := by
    apply hrefill.bound (fun selected _ => selected.length) hoverLen
    · intro l n hstop
      simpa using hstop
    · exact fun _ _ _ => List.length_append
  -- a pass that has stopped has either filled the row or used up the budget
  have hdone : refill = [] ∨
      ∀ x ∈ overlayRow, x ∈ baseRow.take options.baseKeep ++ accepted := by
    rcases hover.ended with hleft | hstop
    · right
      rw [hleft, List.append_nil] at hoverlay
      exact hoverlay ▸ hover.complete
    · left
      rw [← List.length_eq_zero_iff]
      rw [Bool.or_eq_true, decide_eq_true_eq, decide_eq_true_eq] at hstop
      rw [List.length_append] at hlength
      rcases hstop with hfull | hspent
      · omega
      · have hrest := (hrefill.sublist.trans (List.sublist_append_left _ baseLeft)).length_le
        rw [← hdrop, List.length_drop] at hrest
        rw [List.length_append, List.length_take] at hlength hoverLen
        have hkeep : options.baseKeep = options.maxDegree - options.budget := rfl
        have hle : options.budget ≤ options.maxDegree := Nat.min_le_right _ _
        omega
  -- a full row, or all of the base row in it
  have hfill : baseLeft = [] ∨
      (baseRow.take options.baseKeep ++ accepted ++ refill).length = options.maxDegree := by
    rcases hrefill.ended with hleft | hstop
    · exact .inl hleft
    · exact .inr (le_antisymm hlength (of_decide_eq_true hstop))
  have hall : baseLeft = [] →
      ∀ x ∈ baseRow, x ∈ baseRow.take options.baseKeep ++ accepted ++ refill := by
    intro hleft x hx
    rw [hleft, List.append_nil] at hdrop
    rw [← List.take_append_drop options.baseKeep baseRow, hdrop, List.mem_append] at hx
    rcases hx with hx | hx
    · exact List.mem_append_left _ (List.mem_append_left _ hx)
    · exact hrefill.complete x hx
  have hbaseRefill : refill.Sublist (baseRow.drop options.baseKeep) := by
    rw [hdrop]
    exact hrefill.sublist.trans (List.sublist_append_left _ _)
  refine ⟨accepted, refill, rfl, ?_⟩
  exact {
    layout := by rw [← baseKeep_eq]
    accepted_sublist := by
      rw [hoverlay]
      exact hover.sublist.trans (List.sublist_append_left _ _)
    refill_sublist := by rwa [← baseKeep_eq]
    distinct := hdistinct
    length_le := hlength
    accepted_le := by omega
    overlay_le := by
      rw [← baseKeep_eq]
      have hle := overlay_le_of_passed hdistinct rfl hdone
      exact hle.trans (by omega)
    lost_le := by
      rcases hfill with hleft | hfull
      · rw [List.filter_eq_nil_iff.mpr]
        · exact Nat.zero_le _
        · intro x hx
          rw [decide_eq_true_eq, not_not]
          exact hall hleft x (List.mem_of_mem_take hx)
      · exact lost_le_of_full hbase hdrop.symm hrefill.complete hrefill.sublist rfl hfull
    length_eq := by
      have hsub : (baseRow.take options.baseKeep ++ accepted ++ refill).toFinset ⊆
          (baseRow ++ accepted).toFinset := by
        intro x hx
        rw [List.mem_toFinset, List.append_assoc, List.mem_append, List.mem_append] at hx
        rw [List.mem_toFinset, List.mem_append]
        rcases hx with hx | hx | hx
        · exact .inl (List.mem_of_mem_take hx)
        · exact .inr hx
        · exact .inl (List.mem_of_mem_drop (hbaseRefill.subset hx))
      have hcard := Finset.card_le_card hsub
      rw [List.toFinset_card_of_nodup hdistinct] at hcard
      rcases hfill with hleft | hfull
      · have hback : (baseRow ++ accepted).toFinset ⊆
            (baseRow.take options.baseKeep ++ accepted ++ refill).toFinset := by
          intro x hx
          rw [List.mem_toFinset, List.mem_append] at hx
          rw [List.mem_toFinset]
          rcases hx with hx | hx
          · exact hall hleft x hx
          · exact List.mem_append_left _ (List.mem_append_right _ hx)
        have hcard' := Finset.card_le_card hback
        rw [List.toFinset_card_of_nodup hdistinct] at hcard'
        simp only
        omega
      · simp only
        omega }

/-- A duplicate of the spine in the overlay is made up for by the refill. -/
theorem selectSpineOverlayRow_refills : ([1, 2, 3, 4, 5] : List UInt32).Nodup ∧
    ∃ accepted refill, SpineOverlayRow ⟨5, 2⟩ [1, 2, 3, 4, 5] [1, 2, 9] [1, 2, 3, 9, 4]
      accepted refill := by
  have hbase : ([1, 2, 3, 4, 5] : List UInt32).Nodup := by decide
  obtain ⟨accepted, refill, -, hrow⟩ :=
    selectSpineOverlayRow_spec ⟨5, 2⟩ hbase [1, 2, 9]
  exact ⟨hbase, accepted, refill, hrow⟩

end SpineOverlayPruneOptions

end ForgeANN
