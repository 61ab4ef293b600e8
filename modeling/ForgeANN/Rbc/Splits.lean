-- SUMMARY: A forced split loses no point, and each of its parts is smaller than the leaf.
import ForgeANN.Lib.Except
import ForgeANN.Rbc.ForcedSplit

/-!
# What a forced split leaves

Whatever the assignment, the parts of a split are nonempty, smaller than the
leaf, and have the points of the leaf among them: an attempt that does not split
the leaf is dropped, and chunks are smaller than the leaf.
-/
namespace ForgeANN

open Lib

/-- The parts the points of a leaf end up in. -/
structure Splits (leaf : List UInt32) (parts : List (List UInt32)) : Prop where
  nonempty : ∀ part ∈ parts, part ≠ []
  shorter : ∀ part ∈ parts, part.length < leaf.length
  covers : ∀ id, id ∈ leaf ↔ id ∈ parts.flatten

/-! ## Sampled leaders -/

theorem uniquePositions_ne_nil {ids : List UInt32} (h : ids ≠ []) : uniquePositions ids ≠ [] := by
  obtain ⟨id, hid⟩ := List.exists_mem_of_ne_nil ids h
  obtain ⟨i, hi⟩ := List.getElem?_of_mem hid
  have hmem : (id, i) ∈ ids.zipIdx.mergeSort fun a b =>
      decide (a.1 < b.1 ∨ a.1 = b.1 ∧ a.2 ≤ b.2) := by
    rw [List.mem_mergeSort, List.mk_mem_zipIdx_iff_getElem?]
    exact hi
  have hkept : ∃ p ∈ uniquePositions ids, p.1 = id := exists_key_dedupByKey hmem
  obtain ⟨p, hp, _⟩ := hkept
  exact List.ne_nil_of_mem hp

theorem samplePositionsBottomk_length (ids : List UInt32) (k : Nat) (seed : UInt64) :
    (samplePositionsBottomk ids k seed).length ≤ k := by
  simp only [samplePositionsBottomk]
  split_ifs
  · exact Nat.zero_le k
  · rwa [List.length_map]
  · rw [List.length_map, List.length_take]
    exact Nat.min_le_left ..

theorem samplePositionsBottomk_ne_nil {ids : List UInt32} {k : Nat} (hids : ids ≠ []) (hk : 0 < k)
    (seed : UInt64) : samplePositionsBottomk ids k seed ≠ [] := by
  have hunique := List.length_pos_iff.mpr (uniquePositions_ne_nil hids)
  rw [← List.length_pos_iff]
  simp only [samplePositionsBottomk, hids, Nat.ne_of_gt hk, or_self, if_false]
  split_ifs with hle
  · rwa [List.length_map]
  · rw [List.length_map, List.length_take, List.length_mergeSort, List.length_map]
    omega

theorem sampleSetBottomk_length (ids : List UInt32) (k : Nat) (seed : UInt64) :
    (sampleSetBottomk ids k seed).length ≤ k := by
  rw [sampleSetBottomk, List.length_map]
  exact samplePositionsBottomk_length ids k seed

theorem sampleSetBottomk_length_pos {ids : List UInt32} {k : Nat} (hids : ids ≠ []) (hk : 0 < k)
    (seed : UInt64) : 0 < (sampleSetBottomk ids k seed).length := by
  rw [sampleSetBottomk, List.length_map]
  exact List.length_pos_iff.mpr (samplePositionsBottomk_ne_nil hids hk seed)

/-! ## The nearest leaders -/

namespace StackTopK

variable {topK : StackTopK} {e entry : F32 × Nat} {n : Nat}

@[simp] theorem mem_sift {buf : List (F32 × Nat)} : e ∈ sift entry buf ↔ e = entry ∨ e ∈ buf := by
  induction buf with
  | nil => simp [sift]
  | cons last buf ih =>
      rw [sift]
      split_ifs
      · rw [List.mem_cons, ih, List.mem_cons]
        exact or_left_comm
      · simp

/-- Room for one at least, and only known leaders held. -/
structure Holds (n : Nat) (topK : StackTopK) : Prop where
  room : 0 < topK.k
  known : ∀ e ∈ topK.buf, e.2 < n

theorem holds_new {k : Nat} (hk : 0 < k) : (new k).Holds n where
  room := Nat.lt_min.mpr ⟨hk, Nat.succ_pos 31⟩
  known := by simp [new]

theorem Holds.push (h : topK.Holds n) (dist : F32) {id : Nat} (hid : id < n) :
    (topK.push dist id).Holds n ∧ (topK.push dist id).buf ≠ [] := by
  obtain ⟨buf, k⟩ := topK
  obtain ⟨hroom, hknown⟩ := h
  simp only at hroom hknown
  have hsift : ∀ rest : List (F32 × Nat), (∀ e ∈ rest, e ∈ buf) →
      Holds n ⟨sift (dist, id) rest, k⟩ ∧ sift (dist, id) rest ≠ [] := by
    intro rest hrest
    refine ⟨⟨hroom, fun e he => ?_⟩, List.ne_nil_of_mem (mem_sift.mpr (.inl rfl))⟩
    rcases mem_sift.mp he with rfl | he
    · exact hid
    · exact hknown e (hrest e he)
  simp only [StackTopK.push]
  split_ifs with hlen
  · exact hsift buf fun _ he => he
  · cases buf with
    | nil => exact absurd hroom hlen
    | cons last buf =>
        simp only
        split_ifs
        · exact hsift buf fun _ he => List.mem_cons_of_mem last he
        · exact ⟨⟨hroom, hknown⟩, List.cons_ne_nil last buf⟩

theorem ids_ne_nil (h : topK.buf ≠ []) : topK.ids ≠ [] := by
  simpa [ids] using h

theorem Holds.ids_lt (h : topK.Holds n) : ∀ lid ∈ topK.ids, lid < n := by
  intro lid hlid
  obtain ⟨e, he, rfl⟩ := List.mem_map.mp hlid
  exact h.known e (List.mem_reverse.mp he)

end StackTopK

/-! ## Assigning the points -/

/-- What a point is assigned to: a leader, or several. -/
def Leads (leaders : Nat) (lids : List Nat) : Prop := lids ≠ [] ∧ ∀ lid ∈ lids, lid < leaders

theorem assigns_of_forall₂ {α : Type} {R : α → List Nat → Prop} {points : List α}
    {assignment : List (List Nat)} {leaders : Nat} (h : List.Forall₂ R points assignment)
    (hleads : ∀ a lids, R a lids → Leads leaders lids) :
    Assigns points.length leaders assignment := by
  have hall : ∀ lids ∈ assignment, Leads leaders lids := by
    intro lids hlids
    obtain ⟨a, _, ha⟩ := exists_of_mem_forall₂ h hlids
    exact hleads a lids ha
  exact ⟨h.length_eq.symm, fun lids hlids => (hall lids hlids).1,
    fun lids hlids => (hall lids hlids).2⟩

namespace ForcedSplitContext

variable {ctx : ForcedSplitContext} {leaders : List UInt32} {fanout : Nat}

theorem leads_of_pushes {n : Nat} (hn : 0 < n) (hfanout : 0 < fanout) (dist : Nat → F32) :
    Leads n ((List.range n).foldl (fun topK lid => StackTopK.push topK (dist lid) lid)
      (StackTopK.new fanout)).ids := by
  have hrun : ∀ (lids : List Nat) (topK : StackTopK), (∀ lid ∈ lids, lid < n) → topK.Holds n →
      lids ≠ [] ∨ topK.buf ≠ [] →
        Leads n (lids.foldl (fun topK lid => StackTopK.push topK (dist lid) lid) topK).ids := by
    intro lids
    induction lids with
    | nil =>
        intro topK _ hholds hne
        exact ⟨StackTopK.ids_ne_nil (hne.resolve_left (by simp)), hholds.ids_lt⟩
    | cons lid lids ih =>
        intro topK hlt hholds _
        obtain ⟨hpush, hbuf⟩ := hholds.push (dist lid) (hlt lid List.mem_cons_self)
        exact ih _ (fun l hl => hlt l (List.mem_cons_of_mem lid hl)) hpush (.inr hbuf)
  apply hrun _ _ (fun lid hlid => List.mem_range.mp hlid) (StackTopK.holds_new hfanout)
  left
  rw [ne_eq, List.range_eq_nil]
  exact Nat.ne_of_gt hn

theorem gramBest_lt {n : Nat} (hn : 0 < n) (dist : Nat → F32) : gramBest dist n < n := by
  have hrun : ∀ (lids : List Nat) (best : F32 × Nat), (∀ lid ∈ lids, lid < n) → best.2 < n →
      (lids.foldl (fun best lid => if (dist lid).lt best.1 then (dist lid, lid) else best)
        best).2 < n := by
    intro lids
    induction lids with
    | nil => exact fun _ _ hbest => hbest
    | cons lid lids ih =>
        intro best hlt hbest
        rw [List.foldl_cons]
        apply ih _ fun l hl => hlt l (List.mem_cons_of_mem lid hl)
        split_ifs
        · exact hlt lid List.mem_cons_self
        · exact hbest
  exact hrun _ _ (fun lid hlid => List.mem_range.mp hlid) hn

theorem gramLeaders_leads {n : Nat} (hn : 0 < n) (hfanout : 0 < fanout) (dist : Nat → F32) :
    Leads n (gramLeaders dist n fanout) := by
  rw [gramLeaders]
  split_ifs
  · refine ⟨List.cons_ne_nil _ _, fun lid hlid => ?_⟩
    rw [List.mem_singleton.mp hlid]
    exact gramBest_lt hn dist
  · exact leads_of_pushes hn hfanout dist

/-- Distances that were all computed, pushed one leader after another. -/
theorem scalarLeaders_leads (hleaders : 0 < leaders.length) (hfanout : 0 < fanout) {idx : UInt32}
    {lids : List Nat} (h : ctx.scalarLeaders leaders fanout idx = .ok lids) :
    Leads leaders.length lids := by
  unfold scalarLeaders at h
  obtain ⟨topK, hfold, hids⟩ := bind_eq_ok.mp h
  cases hids
  have hpush : ∀ (topK topK' : StackTopK) (entry : UInt32 × Nat), entry ∈ leaders.zipIdx →
      topK.Holds leaders.length → (ctx.getDistance idx entry.1 >>= fun d =>
        (.ok (topK.push d entry.2) : AnnResult StackTopK)) = .ok topK' →
      topK'.Holds leaders.length ∧ topK'.buf ≠ [] := by
    intro topK topK' entry hentry hholds hstep
    obtain ⟨d, -, hpushed⟩ := bind_eq_ok.mp hstep
    cases hpushed
    have hi := List.mk_mem_zipIdx_iff_getElem?.mp hentry
    exact hholds.push d (List.getElem?_eq_some_iff.mp hi).1
  have hempty : (StackTopK.new fanout).Holds leaders.length := StackTopK.holds_new hfanout
  have hend : topK.Holds leaders.length ∧ topK.buf ≠ [] := by
    cases hentries : leaders.zipIdx with
    | nil => exact absurd (List.zipIdx_eq_nil_iff.mp hentries) (List.ne_nil_of_length_pos hleaders)
    | cons entry entries =>
        rw [hentries] at hfold hpush
        rw [List.foldlM_cons] at hfold
        obtain ⟨first, hfirst, hrest⟩ := bind_eq_ok.mp hfold
        refine foldlM_preserves (P := fun topK : StackTopK =>
          topK.Holds leaders.length ∧ topK.buf ≠ []) ?_
          (hpush _ _ entry List.mem_cons_self hempty hfirst) hrest
        exact fun e he topK topK' hholds =>
          hpush topK topK' e (List.mem_cons_of_mem entry he) hholds.1
  exact ⟨StackTopK.ids_ne_nil hend.2, hend.1.ids_lt⟩

/-- Every path gives each point a leader. -/
theorem assignLeaders_assigns (hleaders : 0 < leaders.length) (hfanout : 0 < fanout) {depth : Nat}
    {leaf : List UInt32} {assignment : List (List Nat)}
    (h : ctx.assignLeaders depth leaf leaders fanout = .ok assignment) :
    Assigns leaf.length leaders.length assignment := by
  have hgemm : ∀ {assignment}, ctx.computeClustersGemm leaf leaders fanout = .ok assignment →
      Assigns leaf.length leaders.length assignment := by
    intro assignment h
    unfold computeClustersGemm at h
    cases hdist : ctx.gramDistances leaf leaders with
    | error e =>
        rw [hdist] at h
        cases h
    | ok dist =>
        rw [hdist] at h
        cases h
        refine ⟨by simp, ?_, ?_⟩
        · intro lids hlids
          obtain ⟨i, _, rfl⟩ := List.mem_map.mp hlids
          exact (gramLeaders_leads hleaders hfanout (dist i)).1
        · intro lids hlids
          obtain ⟨i, _, rfl⟩ := List.mem_map.mp hlids
          exact (gramLeaders_leads hleaders hfanout (dist i)).2
  unfold assignLeaders computeClustersGemmBudgetedWithContext at h
  split_ifs at h
  · cases hads : ctx.adsampling depth leaf leaders fanout with
    | none =>
        rw [hads] at h
        exact hgemm h
    | some result =>
        rw [hads] at h
        cases result with
        | error e => cases h
        | ok assignment =>
            cases h
            exact assignment.property
  · exact hgemm h
  · exact assigns_of_forall₂ (forall₂_of_mapM h) fun _ _ hlids =>
      scalarLeaders_leads hleaders hfanout hlids

end ForcedSplitContext

/-! ## The clusters hold the points -/

theorem mem_flatten_modify {clusters : List (List UInt32)} {lid : Nat} (h : lid < clusters.length)
    (idx id : UInt32) :
    id ∈ (clusters.modify lid (· ++ [idx])).flatten ↔ id = idx ∨ id ∈ clusters.flatten := by
  have hsplit : clusters = clusters.take lid ++ clusters[lid] :: clusters.drop (lid + 1) := by
    rw [← List.drop_eq_getElem_cons h, List.take_append_drop]
  rw [List.modify_eq_take_cons_drop h]
  nth_rewrite 4 [hsplit]
  simp only [List.flatten_append, List.flatten_cons, List.mem_append, List.mem_singleton]
  tauto

theorem pushToLeaders_length (clusters : List (List UInt32)) (idx : UInt32) (lids : List Nat) :
    (pushToLeaders clusters idx lids).length = clusters.length := by
  unfold pushToLeaders
  induction lids generalizing clusters with
  | nil => rfl
  | cons lid lids ih => rw [List.foldl_cons, ih, List.length_modify]

theorem mem_pushToLeaders {clusters : List (List UInt32)} {lids : List Nat}
    (h : ∀ lid ∈ lids, lid < clusters.length) (idx id : UInt32) :
    id ∈ (pushToLeaders clusters idx lids).flatten ↔
      (lids ≠ [] ∧ id = idx) ∨ id ∈ clusters.flatten := by
  unfold pushToLeaders
  induction lids generalizing clusters with
  | nil => simp
  | cons lid lids ih =>
      have hlid := h lid List.mem_cons_self
      rw [List.foldl_cons, ih, mem_flatten_modify hlid]
      · by_cases hid : id = idx
        · simp [hid]
        · simp [hid]
      · intro l hl
        rw [List.length_modify]
        exact h l (List.mem_cons_of_mem lid hl)

/-- Clusters for all the leaders hold the points of the leaf, and no others. -/
theorem mem_gatherClusters {leaf : List UInt32} {assignment : List (List Nat)}
    {leaders numLeaders : Nat} (h : Assigns leaf.length leaders assignment)
    (hle : leaders ≤ numLeaders) (id : UInt32) :
    id ∈ (gatherClusters numLeaders leaf assignment).flatten ↔ id ∈ leaf := by
  have hrun : ∀ (points : List (UInt32 × List Nat)) (clusters : List (List UInt32)),
      (∀ p ∈ points, p.2 ≠ [] ∧ ∀ lid ∈ p.2, lid < clusters.length) →
        (id ∈ (points.foldl (fun clusters p => pushToLeaders clusters p.1 p.2) clusters).flatten ↔
          id ∈ points.map Prod.fst ∨ id ∈ clusters.flatten) := by
    intro points
    induction points with
    | nil => simp
    | cons p points ih =>
        intro clusters hpoints
        obtain ⟨hne, hlt⟩ := hpoints p List.mem_cons_self
        rw [List.foldl_cons, ih, mem_pushToLeaders hlt, List.map_cons, List.mem_cons]
        · simp only [hne, ne_eq, not_false_eq_true, true_and]
          exact or_left_comm.trans or_assoc.symm
        · intro q hq
          rw [pushToLeaders_length]
          exact hpoints q (List.mem_cons_of_mem p hq)
  have hmap : (leaf.zip assignment).map Prod.fst = leaf :=
    List.map_fst_zip (Nat.le_of_eq h.length.symm)
  rw [gatherClusters, hrun, hmap]
  · simp
  · intro p hp
    have hmem := (List.of_mem_zip hp).2
    refine ⟨h.nonempty _ hmem, fun lid hlid => ?_⟩
    rw [List.length_replicate]
    exact Nat.lt_of_lt_of_le (h.inRange _ hmem lid hlid) hle

/-! ## The split -/

theorem length_le_maxChild {parts : List (List UInt32)} {part : List UInt32} (h : part ∈ parts) :
    part.length ≤ maxChild parts := List.le_max?_getD_of_mem (List.mem_map_of_mem h)

theorem mem_mergedAttempt (ctx : ForcedSplitContext) (depth hardCap localFanout : Nat)
    (clusters : List (List UInt32)) (id : UInt32) :
    id ∈ (mergedAttempt ctx depth hardCap localFanout clusters).flatten ↔ id ∈ clusters.flatten := by
  have hmerged := (mergeClusters_points clusters (min ctx.cMin hardCap) hardCap).mem_iff (a := id)
  rw [← hmerged, mergedAttempt, List.flatten_filter_ne_nil]
  split_ifs
  · simp [List.mem_flatten]
  · rfl

theorem mergedAttempt_nonempty {ctx : ForcedSplitContext} {depth hardCap localFanout : Nat}
    {clusters : List (List UInt32)} :
    ∀ part ∈ mergedAttempt ctx depth hardCap localFanout clusters, part ≠ [] := by
  intro part hpart
  simpa using (List.mem_filter.mp hpart).2

theorem chunks_splits {leaf : List UInt32} {hardCap : Nat} (hpos : 0 < hardCap)
    (hlt : hardCap < leaf.length) : Splits leaf (chunks hardCap leaf) where
  nonempty part hpart := (mem_chunks hpart).1
  shorter part hpart := Nat.lt_of_le_of_lt (mem_chunks hpart).2 hlt
  covers id := by rw [chunks_flatten hpos]

/-- The best split so far is one. -/
def SplitFound (leaf : List UInt32) (best : Option (Nat × List (List UInt32))) : Prop :=
  ∀ b ∈ best, Splits leaf b.2

theorem settleSplit_splits {leaf : List UInt32} {hardCap : Nat}
    {best : Option (Nat × List (List UInt32))} (hpos : 0 < hardCap) (hlt : hardCap < leaf.length)
    (h : SplitFound leaf best) : Splits leaf (settleSplit leaf hardCap best) := by
  cases best with
  | none => exact chunks_splits hpos hlt
  | some b => exact h b rfl

theorem SplitFound.keepBetter {leaf : List UInt32} {merged : List (List UInt32)}
    {best : Option (Nat × List (List UInt32))} (h : SplitFound leaf best)
    (hmerged : Splits leaf merged) : SplitFound leaf (keepBetter best merged) := by
  intro b hb
  cases best with
  | none =>
      cases hb
      exact hmerged
  | some old =>
      simp only [ForgeANN.keepBetter] at hb
      split_ifs at hb
      · cases hb
        exact hmerged
      · cases hb
        exact h old rfl

/-- What an attempt comes to is a split where no part is as large as the leaf. -/
theorem attempt_splits {ctx : ForcedSplitContext} {leaf : List UInt32} {assignment : List (List Nat)}
    {depth hardCap localFanout leaders numLeaders : Nat} (h : Assigns leaf.length leaders assignment)
    (hle : leaders ≤ numLeaders)
    (hmax : maxChild (mergedAttempt ctx depth hardCap localFanout
      (gatherClusters numLeaders leaf assignment)) < leaf.length) :
    Splits leaf (mergedAttempt ctx depth hardCap localFanout
      (gatherClusters numLeaders leaf assignment)) where
  nonempty := mergedAttempt_nonempty
  shorter _ hpart := Nat.lt_of_le_of_lt (length_le_maxChild hpart) hmax
  covers id := by rw [mem_mergedAttempt, mem_gatherClusters h hle]

/-- By induction on the attempts left, carrying that the best split so far is one. -/
theorem trySplits_splits {ctx : ForcedSplitContext} {leaf : List UInt32} {depth hardCap maxLeaders : Nat}
    {seed : UInt64} (hpos : 0 < hardCap) (hlt : hardCap < leaf.length) {tries numLeaders : Nat}
    {best : Option (Nat × List (List UInt32))} {parts : List (List UInt32)} (hleaders : 0 < numLeaders)
    (hbest : SplitFound leaf best)
    (h : trySplits ctx leaf depth hardCap maxLeaders seed tries numLeaders best = .ok parts) :
    Splits leaf parts := by
  induction tries generalizing numLeaders best with
  | zero =>
      cases h
      exact settleSplit_splits hpos hlt hbest
  | succ tries ih =>
      have hne : leaf ≠ [] := List.ne_nil_of_length_pos (Nat.lt_trans hpos hlt)
      rw [trySplits] at h
      simp only at h
      generalize hsample : sampleSetBottomk leaf numLeaders _ = leaders at h
      have hsome : 0 < leaders.length := hsample ▸ sampleSetBottomk_length_pos hne hleaders _
      have hle : leaders.length ≤ numLeaders := hsample ▸ sampleSetBottomk_length leaf numLeaders _
      generalize hfanout : max (min (max (ctx.adaptiveFanout depth) 1) leaders.length) 1 = localFanout
        at h
      have hfanout : 0 < localFanout := by omega
      cases hassign : ctx.assignLeaders depth leaf leaders localFanout with
      | error e =>
          rw [hassign] at h
          cases h
      | ok assignment =>
          rw [hassign, ok_bind] at h
          have hassigns := ForcedSplitContext.assignLeaders_assigns hsome hfanout hassign
          generalize hmerged : mergedAttempt ctx depth hardCap localFanout
            (gatherClusters numLeaders leaf assignment) = merged at h
          have hsplits : maxChild merged < leaf.length → Splits leaf merged := by
            rw [← hmerged]
            exact attempt_splits hassigns hle
          have hkept : SplitFound leaf (if 1 < merged.length ∧ maxChild merged < leaf.length then
              keepBetter best merged else best) := by
            split_ifs with hsplit
            · exact hbest.keepBetter (hsplits hsplit.2)
            · exact hbest
          by_cases hfits : (1 < merged.length ∧ maxChild merged < leaf.length) ∧
              maxChild merged ≤ hardCap
          · rw [if_pos hfits] at h
            cases h
            exact hsplits hfits.1.2
          · rw [if_neg hfits] at h
            generalize hnext : max (min (numLeaders * 2) maxLeaders) (numLeaders + 1) = nextLeaders
              at h
            by_cases hlast : maxLeaders ≤ numLeaders ∨ nextLeaders = numLeaders
            · rw [if_pos hlast] at h
              cases h
              exact settleSplit_splits hpos hlt hkept
            · rw [if_neg hlast] at h
              have hnextLeaders : 0 < nextLeaders := by omega
              exact ih hnextLeaders hkept h

/-- A forced split takes a leaf above the cap apart. -/
theorem forcedSplitOversizedLeaf_splits {ctx : ForcedSplitContext} {leaf : List UInt32}
    {depth hardCap : Nat} {seed : UInt64} {parts : List (List UInt32)} (hpos : 0 < hardCap)
    (hlt : hardCap < leaf.length)
    (h : forcedSplitOversizedLeaf ctx leaf depth hardCap seed = .ok parts) : Splits leaf parts := by
  simp only [forcedSplitOversizedLeaf] at h
  rw [if_neg (Nat.not_le_of_lt hlt)] at h
  refine trySplits_splits hpos hlt ?_ (fun b hb => ?_) h
  · omega
  · cases hb

/-! ## When nothing fails -/

/-- Every distance is computed, and no assignment fails. -/
structure ForcedSplitContext.Succeeds (ctx : ForcedSplitContext) : Prop where
  getDistance : ∀ idx leader, ∃ d, ctx.getDistance idx leader = .ok d
  gramDistances : ∀ leaf leaders, ∃ dist, ctx.gramDistances leaf leaders = .ok dist
  adsampling : ∀ depth leaf leaders fanout,
    ∀ result ∈ ctx.adsampling depth leaf leaders fanout, ∃ assignment, result = .ok assignment

section

variable {ctx : ForcedSplitContext} (h : ctx.Succeeds) (leaf : List UInt32) (depth : Nat)
include h

theorem ForcedSplitContext.Succeeds.scalarLeaders (leaders : List UInt32) (fanout : Nat)
    (idx : UInt32) : ∃ lids, ctx.scalarLeaders leaders fanout idx = .ok lids := by
  have hrun : ∃ topK, leaders.zipIdx.foldlM (fun topK entry =>
      ctx.getDistance idx entry.1 >>= fun d => .ok (StackTopK.push topK d entry.2))
      (StackTopK.new fanout) = Except.ok topK := by
    refine exists_foldlM_ok (fun entry _ topK => ?_) _
    obtain ⟨d, hd⟩ := h.getDistance idx entry.1
    exact ⟨topK.push d entry.2, bind_eq_ok.mpr ⟨d, hd, rfl⟩⟩
  obtain ⟨topK, hfold⟩ := hrun
  exact ⟨topK.ids, bind_eq_ok.mpr ⟨topK, hfold, rfl⟩⟩

theorem ForcedSplitContext.Succeeds.assignLeaders (leaders : List UInt32) (fanout : Nat) :
    ∃ assignment, ctx.assignLeaders depth leaf leaders fanout = .ok assignment := by
  have hgemm : ∃ assignment, ctx.computeClustersGemm leaf leaders fanout = .ok assignment := by
    obtain ⟨dist, hdist⟩ := h.gramDistances leaf leaders
    unfold computeClustersGemm
    rw [hdist]
    exact ⟨_, rfl⟩
  unfold ForcedSplitContext.assignLeaders computeClustersGemmBudgetedWithContext
  split_ifs
  · cases hads : ctx.adsampling depth leaf leaders fanout with
    | none => exact hgemm
    | some result =>
        obtain ⟨assignment, rfl⟩ := h.adsampling depth leaf leaders fanout result hads
        exact ⟨assignment.val, rfl⟩
  · exact hgemm
  · cases hmap : leaf.mapM (ctx.scalarLeaders leaders fanout) with
    | ok assignment => exact ⟨assignment, rfl⟩
    | error e =>
        obtain ⟨idx, _, hidx⟩ := exists_of_mapM_error hmap
        obtain ⟨lids, hlids⟩ := h.scalarLeaders leaders fanout idx
        rw [hlids] at hidx
        cases hidx

theorem trySplits_ok (hardCap maxLeaders : Nat) (seed : UInt64) (tries numLeaders : Nat)
    (best : Option (Nat × List (List UInt32))) :
    ∃ parts, trySplits ctx leaf depth hardCap maxLeaders seed tries numLeaders best = .ok parts := by
  induction tries generalizing numLeaders best with
  | zero => exact ⟨_, rfl⟩
  | succ tries ih =>
      rw [trySplits]
      simp only
      generalize sampleSetBottomk leaf numLeaders _ = leaders
      generalize max (min (max (ctx.adaptiveFanout depth) 1) leaders.length) 1 = localFanout
      obtain ⟨assignment, hassign⟩ := h.assignLeaders leaf depth leaders localFanout
      rw [hassign, ok_bind]
      split
      · exact ⟨_, rfl⟩
      · split
        · exact ⟨_, rfl⟩
        · exact ih _ _

theorem forcedSplitOversizedLeaf_ok (hardCap : Nat) (seed : UInt64) :
    ∃ parts, forcedSplitOversizedLeaf ctx leaf depth hardCap seed = .ok parts := by
  simp only [forcedSplitOversizedLeaf]
  split_ifs
  · exact ⟨_, rfl⟩
  · exact trySplits_ok h ..

end

end ForgeANN
