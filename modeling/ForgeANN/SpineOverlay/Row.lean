-- SUMMARY: A spine overlay row of bounded width: each of its records has all votes for its destination since it was let in.
import ForgeANN.SpineOverlay.Votes

/-!
# Spine overlay rows

A vote goes to the record of its destination. Where there is none it makes a new
one, which takes a free slot or the place of the worst record, if it beats that.
A destination can so lose its record and come back with a new one, which knows
nothing of the earlier votes; with no more destinations than slots that never
happens.
-/
namespace ForgeANN

open RuntimeOverlayCandidate

def RUNTIME_OVERLAY_MAX_SLOTS : Nat := 16

/-- `partial_cmp`, where what cannot be compared counts as equal. -/
def F32.cmpOrEqual (a b : F32) : Ordering := if a.lt b then .lt else if b.lt a then .gt else .eq

def runtimeRetentionCmp (a b : RuntimeOverlayCandidate) : Ordering :=
  (compare b.familySupport a.familySupport).then <|
    (compare b.rankMass a.rankMass).then <|
    (compare a.bestRank b.bestRank).then <|
    (compare b.reciprocalSupport a.reciprocalSupport).then <|
    (a.dist2.cmpOrEqual b.dist2).then (compare a.dst b.dst)

/-- The slots in use. -/
abbrev RuntimeSpineOverlayRow := List RuntimeOverlayCandidate

namespace RuntimeSpineOverlayRow

/-- The vote is applied to the first record of its destination, if there is one. -/
def applyFirst (update : RuntimeOverlayUpdate) :
    RuntimeSpineOverlayRow → Option RuntimeSpineOverlayRow
  | [] => none
  | candidate :: row =>
      if candidate.dst = update.dst then some (candidate.apply update :: row)
      else (applyFirst update row).map (candidate :: ·)

/-- Of several that are the worst, the last. -/
def worst (row : RuntimeSpineOverlayRow) : Option (RuntimeOverlayCandidate × Nat) :=
  row.zipIdx.foldl (fun found slot =>
    match found with
    | none => some slot
    | some best => if runtimeRetentionCmp best.1 slot.1 = .gt then some best else some slot) none

def insert (row : RuntimeSpineOverlayRow) (update : RuntimeOverlayUpdate) (capacity : Nat) :
    RuntimeSpineOverlayRow :=
  let capacity := min capacity RUNTIME_OVERLAY_MAX_SLOTS
  if capacity = 0 then row
  else
    match row.applyFirst update with
    | some row => row
    | none =>
        let candidate := new update
        if row.length < capacity then row ++ [candidate]
        else
          match row.worst with
          | none => row
          | some (worst, worstIdx) =>
              if runtimeRetentionCmp candidate worst = .lt then row.set worstIdx candidate else row

/-- The row after the votes. -/
def after (capacity : Nat) (votes : List RuntimeOverlayUpdate) : RuntimeSpineOverlayRow :=
  votes.foldl (fun row vote => row.insert vote capacity) []

end RuntimeSpineOverlayRow

open RuntimeSpineOverlayRow

variable {capacity : Nat} {votes : List RuntimeOverlayUpdate} {vote : RuntimeOverlayUpdate}
  {row row' : RuntimeSpineOverlayRow} {candidate : RuntimeOverlayCandidate}

/-! ## What a vote does to a row -/

@[simp] theorem dst_applyDirect : (candidate.applyDirect vote).dst = candidate.dst := by
  unfold applyDirect
  split_ifs <;> rfl

@[simp] theorem dst_applyReciprocal : (candidate.applyReciprocal vote).dst = candidate.dst := by
  unfold applyReciprocal
  split_ifs <;> rfl

@[simp] theorem dst_apply : (candidate.apply vote).dst = candidate.dst := by
  rw [apply, dst_applyReciprocal, dst_applyDirect]

@[simp] theorem dst_new : (new vote).dst = vote.dst := dst_apply

theorem applyFirst_eq_none :
    row.applyFirst vote = none ↔ vote.dst ∉ row.map RuntimeOverlayCandidate.dst := by
  induction row with
  | nil => simp [applyFirst]
  | cons candidate row ih =>
      rw [applyFirst]
      by_cases h : candidate.dst = vote.dst
      · simp [h]
      · rw [if_neg h, Option.map_eq_none_iff, ih, List.map_cons, List.mem_cons, not_or]
        exact ⟨fun hrow => ⟨fun heq => h heq.symm, hrow⟩, fun hboth => hboth.2⟩

/-- The destinations stay, and of the records only the one of the vote's changes. -/
theorem applyFirst_eq_some (hdistinct : (row.map RuntimeOverlayCandidate.dst).Nodup)
    (h : row.applyFirst vote = some row') :
    vote.dst ∈ row.map RuntimeOverlayCandidate.dst ∧
      row' = row.map fun candidate =>
        if vote.dst = candidate.dst then candidate.apply vote else candidate := by
  induction row generalizing row' with
  | nil => simp [applyFirst] at h
  | cons candidate row ih =>
      rw [List.map_cons, List.nodup_cons] at hdistinct
      rw [applyFirst] at h
      by_cases heq : candidate.dst = vote.dst
      · rw [if_pos heq] at h
        cases h
        refine ⟨by simp [heq], ?_⟩
        rw [List.map_cons, if_pos heq.symm]
        congr 1
        -- none of the others has the destination
        refine ((List.map_congr_left fun other hother => if_neg fun hdst => ?_).trans
          (List.map_id row)).symm
        exact hdistinct.1 (heq ▸ hdst ▸ List.mem_map_of_mem hother)
      · rw [if_neg heq] at h
        obtain ⟨rest, hrest, rfl⟩ := Option.map_eq_some_iff.mp h
        obtain ⟨hmem, hmap⟩ := ih hdistinct.2 hrest
        refine ⟨List.mem_cons_of_mem _ hmem, ?_⟩
        rw [List.map_cons, if_neg fun h => heq h.symm, hmap]

theorem insert_cases (hdistinct : (row.map RuntimeOverlayCandidate.dst).Nodup)
    (hwidth : row.length ≤ min capacity RUNTIME_OVERLAY_MAX_SLOTS) (vote : RuntimeOverlayUpdate) :
    (vote.dst ∈ row.map RuntimeOverlayCandidate.dst ∧
      row.insert vote capacity = row.map fun candidate =>
        if vote.dst = candidate.dst then candidate.apply vote else candidate) ∨
    (vote.dst ∉ row.map RuntimeOverlayCandidate.dst ∧
      ((row.length < min capacity RUNTIME_OVERLAY_MAX_SLOTS ∧
        row.insert vote capacity = row ++ [new vote]) ∨
      (row.length = min capacity RUNTIME_OVERLAY_MAX_SLOTS ∧
        (row.insert vote capacity = row ∨ ∃ i, row.insert vote capacity = row.set i (new vote))))) := by
  unfold RuntimeSpineOverlayRow.insert
  by_cases hzero : min capacity RUNTIME_OVERLAY_MAX_SLOTS = 0
  · have hnil : row = [] := List.length_eq_zero_iff.mp (by omega)
    subst hnil
    exact .inr ⟨List.not_mem_nil, .inr ⟨hzero.symm, .inl (if_pos hzero)⟩⟩
  · simp only [if_neg hzero]
    cases hfirst : row.applyFirst vote with
    | some row' => exact .inl (applyFirst_eq_some hdistinct hfirst)
    | none =>
        refine .inr ⟨applyFirst_eq_none.mp hfirst, ?_⟩
        by_cases hroom : row.length < min capacity RUNTIME_OVERLAY_MAX_SLOTS
        · exact .inl ⟨hroom, if_pos hroom⟩
        · refine .inr ⟨by omega, ?_⟩
          simp only [if_neg hroom]
          cases row.worst with
          | none => exact .inl rfl
          | some found =>
              by_cases hbeats : runtimeRetentionCmp (new vote) found.1 = .lt
              · exact .inr ⟨found.2, if_pos hbeats⟩
              · exact .inl (if_neg hbeats)

/-! ## Since a record was let in -/

theorem after_concat : after capacity (votes ++ [vote]) =
    (after capacity votes).insert vote capacity := by
  rw [after, List.foldl_append]
  rfl

theorem recorded_cons (dst : UInt32) (votes : List RuntimeOverlayUpdate) :
    recorded dst (vote :: votes) =
      if vote.dst = dst then
        (votes.filter fun vote => vote.dst = dst).foldl apply (new vote)
      else recorded dst votes := by
  unfold recorded
  by_cases h : vote.dst = dst
  · subst h
    rw [if_pos rfl, List.filter_cons_of_pos (by simp), List.foldl_cons]
    rfl
  · rw [if_neg h, List.filter_cons_of_neg (by simpa using h)]

/-- A record has all votes for its destination since one that found none in the row. -/
def SinceLetIn (capacity : Nat) (votes : List RuntimeOverlayUpdate)
    (candidate : RuntimeOverlayCandidate) : Prop :=
  ∃ earlier vote later, votes = earlier ++ vote :: later ∧ vote.dst = candidate.dst ∧
    candidate.dst ∉ (after capacity earlier).map RuntimeOverlayCandidate.dst ∧
    candidate = recorded candidate.dst (vote :: later)

theorem SinceLetIn.pass (h : SinceLetIn capacity votes candidate) (hne : vote.dst ≠ candidate.dst) :
    SinceLetIn capacity (votes ++ [vote]) candidate := by
  obtain ⟨earlier, first, later, rfl, hdst, hnone, heq⟩ := h
  refine ⟨earlier, first, later ++ [vote], by simp, hdst, hnone, ?_⟩
  rw [← List.cons_append, recorded_concat, if_neg hne]
  exact heq

theorem SinceLetIn.apply (h : SinceLetIn capacity votes candidate) (hdst : vote.dst = candidate.dst) :
    SinceLetIn capacity (votes ++ [vote]) (candidate.apply vote) := by
  obtain ⟨earlier, first, later, rfl, hfirst, hnone, heq⟩ := h
  refine ⟨earlier, first, later ++ [vote], by simp, ?_, ?_, ?_⟩
  · rw [hfirst, dst_apply]
  · rwa [dst_apply]
  · rw [dst_apply, ← List.cons_append, recorded_concat, if_pos hdst, ← heq]

theorem SinceLetIn.new (hnone : vote.dst ∉ (after capacity votes).map RuntimeOverlayCandidate.dst) :
    SinceLetIn capacity (votes ++ [vote]) (RuntimeOverlayCandidate.new vote) := by
  refine ⟨votes, vote, [], rfl, dst_new.symm, ?_, ?_⟩
  · rwa [dst_new]
  · rw [dst_new, recorded_cons, if_pos rfl]
    rfl

/-- What holds of a row after any votes. -/
structure KeepsRecords (capacity : Nat) (votes : List RuntimeOverlayUpdate)
    (row : RuntimeSpineOverlayRow) : Prop where
  distinct : (row.map RuntimeOverlayCandidate.dst).Nodup
  width : row.length ≤ min capacity RUNTIME_OVERLAY_MAX_SLOTS
  since : ∀ candidate ∈ row, SinceLetIn capacity votes candidate

theorem dst_map_apply (row : RuntimeSpineOverlayRow) :
    (row.map fun candidate => if vote.dst = candidate.dst then candidate.apply vote else candidate).map
      RuntimeOverlayCandidate.dst = row.map RuntimeOverlayCandidate.dst := by
  rw [List.map_map]
  refine List.map_congr_left fun candidate _ => ?_
  simp only [Function.comp_apply]
  split_ifs <;> simp

theorem keepsRecords_after (capacity : Nat) (votes : List RuntimeOverlayUpdate) :
    KeepsRecords capacity votes (after capacity votes) := by
  induction votes using List.reverseRecOn with
  | nil => exact ⟨List.nodup_nil, Nat.zero_le _, fun _ h => absurd h List.not_mem_nil⟩
  | append_singleton votes vote ih =>
      have hpass : vote.dst ∉ (after capacity votes).map RuntimeOverlayCandidate.dst →
          ∀ candidate ∈ after capacity votes, SinceLetIn capacity (votes ++ [vote]) candidate :=
        fun hnone candidate hcandidate => (ih.since candidate hcandidate).pass fun heq =>
          hnone (heq ▸ List.mem_map_of_mem hcandidate)
      rw [after_concat]
      rcases insert_cases ih.distinct ih.width vote with
        ⟨-, heq⟩ | ⟨hnone, ⟨hroom, heq⟩ | ⟨hfull, heq | ⟨i, heq⟩⟩⟩ <;> rw [heq]
      · refine ⟨(dst_map_apply _).symm ▸ ih.distinct, by rw [List.length_map]; exact ih.width,
          fun candidate hcandidate => ?_⟩
        obtain ⟨before, hbefore, rfl⟩ := List.mem_map.mp hcandidate
        by_cases hdst : vote.dst = before.dst
        · rw [if_pos hdst]
          exact (ih.since before hbefore).apply hdst
        · rw [if_neg hdst]
          exact (ih.since before hbefore).pass hdst
      · refine ⟨?_, by rw [List.length_append]; exact hroom, fun candidate hcandidate => ?_⟩
        · rw [List.map_append, List.map_singleton, dst_new]
          exact List.nodup_append.mpr ⟨ih.distinct, List.nodup_singleton _, fun dst hdst dst' hdst' heq =>
            hnone (List.mem_singleton.mp hdst' ▸ heq ▸ hdst)⟩
        · rcases List.mem_append.mp hcandidate with hcandidate | hcandidate
          · exact hpass hnone candidate hcandidate
          · rw [List.mem_singleton.mp hcandidate]
            exact .new hnone
      · exact ⟨ih.distinct, ih.width, hpass hnone⟩
      · refine ⟨?_, by rw [List.length_set]; exact ih.width, fun candidate hcandidate => ?_⟩
        · rw [List.map_set, dst_new]
          exact ih.distinct.set hnone
        · rcases List.mem_or_eq_of_mem_set hcandidate with hcandidate | rfl
          · exact hpass hnone candidate hcandidate
          · exact .new hnone

/-! ## No more destinations than slots -/

def destinations (votes : List RuntimeOverlayUpdate) : Finset UInt32 :=
  (votes.map RuntimeOverlayUpdate.dst).toFinset

theorem destinations_append (votes more : List RuntimeOverlayUpdate) :
    destinations (votes ++ more) = destinations votes ∪ destinations more := by
  rw [destinations, List.map_append, List.toFinset_append]
  rfl

/-- Every destination has its record then. -/
theorem dsts_after (h : (destinations votes).card ≤ min capacity RUNTIME_OVERLAY_MAX_SLOTS) :
    ((after capacity votes).map RuntimeOverlayCandidate.dst).toFinset = destinations votes := by
  induction votes using List.reverseRecOn with
  | nil => rfl
  | append_singleton votes vote ih =>
      have hsplit : destinations (votes ++ [vote]) = insert vote.dst (destinations votes) := by
        rw [destinations_append, Finset.union_comm]
        rfl
      rw [hsplit] at h ⊢
      have hearlier := ih ((Finset.card_le_card (Finset.subset_insert _ _)).trans h)
      have hkeeps := keepsRecords_after capacity votes
      have hcard : (after capacity votes).length = (destinations votes).card := by
        rw [← hearlier, List.toFinset_card_of_nodup hkeeps.distinct, List.length_map]
      rw [after_concat]
      rcases insert_cases hkeeps.distinct hkeeps.width vote with
        ⟨hmem, heq⟩ | ⟨hnone, ⟨-, heq⟩ | ⟨hfull, -⟩⟩
      · rw [heq, dst_map_apply, hearlier, Finset.insert_eq_self.mpr]
        rw [← hearlier]
        exact List.mem_toFinset.mpr hmem
      · rw [heq, List.map_append, List.toFinset_append, hearlier, Finset.union_comm,
          List.map_singleton, dst_new]
        rfl
      · have hfresh : vote.dst ∉ destinations votes := fun hmem =>
          hnone (List.mem_toFinset.mp (hearlier ▸ hmem))
        rw [Finset.card_insert_of_notMem hfresh] at h
        omega

/-- Every record has all votes for its destination then. -/
theorem record_of_few (h : (destinations votes).card ≤ min capacity RUNTIME_OVERLAY_MAX_SLOTS)
    (hcandidate : candidate ∈ after capacity votes) : candidate = recorded candidate.dst votes := by
  obtain ⟨earlier, first, later, rfl, -, hnone, heq⟩ :=
    (keepsRecords_after capacity votes).since candidate hcandidate
  have hfew : (destinations earlier).card ≤ min capacity RUNTIME_OVERLAY_MAX_SLOTS := by
    refine (Finset.card_le_card ?_).trans h
    rw [destinations_append]
    exact Finset.subset_union_left
  -- no earlier vote was for it, or it would have had its record
  have hother : ∀ vote ∈ earlier, vote.dst ≠ candidate.dst := by
    intro vote hvote hdst
    have hmem : candidate.dst ∈ destinations earlier :=
      List.mem_toFinset.mpr (hdst ▸ List.mem_map_of_mem hvote)
    rw [← dsts_after hfew] at hmem
    exact hnone (List.mem_toFinset.mp hmem)
  have hfilter : earlier.filter (fun vote => vote.dst = candidate.dst) = [] :=
    List.filter_eq_nil_iff.mpr fun vote hvote => by simpa using hother vote hvote
  rw [recorded, List.filter_append, hfilter]
  exact heq

end ForgeANN
