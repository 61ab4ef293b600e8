-- SUMMARY: What a beam search leaves behind: the least of the visited nodes, with all their neighbors visited.
import ForgeANN.Lib.StableTop
import ForgeANN.Search.BeamSearch

/-!
# Beam search ends in a local optimum

Every visited node is expanded or waits among the candidates, and the best heap
holds the least of the visited ones. A search that stops early leaves candidates
that are all farther than a full best heap, so none of its nodes is among them.
-/
namespace ForgeANN

open Lib

/-! ## Distances -/

/-- The distance of a node. -/
def nodeDistance (query : List F32) (data : MmapF32Data) (v : Nat) : F32 :=
  l2Distance query (data.values v)

/-- The entry of a node in the heaps. -/
def nodeEntry (query : List F32) (data : MmapF32Data) (v : UInt32) : F32 × UInt32 :=
  (nodeDistance query data v.toNat, v)

/-- By distance, and of two nodes as far as each other by id. -/
def beamKey (e : F32 × UInt32) : Int ×ₗ UInt32 := toLex (e.1.key, e.2)

section

variable {a b : F32} {e f : F32 × UInt32}

theorem orderedCmp_eq (ha : a.isNaN = false) (hb : b.isNaN = false) :
    orderedCmp a b = compare a.key b.key := by
  have hlt : a.lt b = decide (a.key < b.key) := by simp [F32.lt, ha, hb]
  have hgt : b.lt a = decide (b.key < a.key) := by simp [F32.lt, ha, hb]
  rw [orderedCmp, hlt, hgt]
  rcases lt_trichotomy a.key b.key with h | h | h
  · rw [compare_lt_iff_lt.mpr h, decide_eq_true h]
    rfl
  · rw [compare_eq_iff_eq.mpr h, h]
    simp
  · rw [compare_gt_iff_gt.mpr h, decide_eq_true h, decide_eq_false (not_lt.mpr h.le)]
    rfl

theorem entryCmp_eq (he : e.1.isNaN = false) (hf : f.1.isNaN = false) :
    entryCmp e f = compare (beamKey e) (beamKey f) := by
  rw [entryCmp, orderedCmp_eq he hf]
  rcases lt_trichotomy e.1.key f.1.key with h | h | h
  · have hlt : beamKey e < beamKey f := Prod.Lex.toLex_lt_toLex.mpr (.inl h)
    rw [compare_lt_iff_lt.mpr h, compare_lt_iff_lt.mpr hlt]
  · rw [compare_eq_iff_eq.mpr h]
    dsimp only
    rcases lt_trichotomy e.2 f.2 with hid | hid | hid
    · have hlt : beamKey e < beamKey f := Prod.Lex.toLex_lt_toLex.mpr (.inr ⟨h, hid⟩)
      rw [if_pos hid, compare_lt_iff_lt.mpr hlt]
    · have heq : beamKey e = beamKey f := by rw [beamKey, beamKey, h, hid]
      rw [compare_eq_iff_eq.mpr heq, hid, if_neg (lt_irrefl _), if_neg (lt_irrefl _)]
    · have hgt : beamKey f < beamKey e := Prod.Lex.toLex_lt_toLex.mpr (.inr ⟨h.symm, hid⟩)
      rw [if_neg (not_lt.mpr hid.le), if_pos hid, compare_gt_iff_gt.mpr hgt]
  · have hgt : beamKey f < beamKey e := Prod.Lex.toLex_lt_toLex.mpr (.inl h)
    rw [compare_gt_iff_gt.mpr h, compare_gt_iff_gt.mpr hgt]

theorem key_le_of_beamKey_le (h : beamKey e ≤ beamKey f) : e.1.key ≤ f.1.key := by
  rcases Prod.Lex.toLex_le_toLex.mp h with hlt | ⟨heq, -⟩
  · exact hlt.le
  · exact heq.le

end

/-! ## The books of a search -/

section

variable {heaps : SearchHeaps} {query : List F32} {data : MmapF32Data}
  {graph : List (List UInt32)} {lEff : Nat} {pushed expanded : List UInt32}
  {state next : SearchState heaps} {nbr v : UInt32}

variable (query data graph lEff) in
/-- `pushed` are the nodes visited so far, and `expanded` those that are no candidates any more. -/
structure Explored (pushed expanded : List UInt32) (state : SearchState heaps) : Prop where
  marks : state.visited.marks.length = graph.length
  nodup : pushed.Nodup
  inRange : ∀ v ∈ pushed, v.toNat < graph.length
  seen : ∀ i, state.visited.Seen i ↔ ∃ v ∈ pushed, v.toNat = i
  candidates : ∃ waiting, pushed.Perm (expanded ++ waiting) ∧
    (heaps.candidates.intoIter state.candidates).Perm (waiting.map (nodeEntry query data))
  best : LeastOf beamKey lEff (pushed.map (nodeEntry query data)) (heaps.best.intoIter state.best)

variable (query data lEff) in
/-- The state with one more node visited. -/
def SearchState.withNode (state : SearchState heaps) (nbr : UInt32) : SearchState heaps where
  candidates := heaps.candidates.push state.candidates (nodeEntry query data nbr)
  best := heaps.best.trim lEff (heaps.best.push state.best (nodeEntry query data nbr))
  visited := state.visited.marked nbr.toNat

variable (graph) in
/-- All neighbors of a node are visited, as far as there are such nodes. -/
def NeighborsIn (pushed : List UInt32) (v : UInt32) : Prop :=
  ∀ nbr ∈ graph.getD v.toNat [], nbr.toNat < graph.length → nbr ∈ pushed

/-- Distances are numbers. -/
def NoNaN (query : List F32) (data : MmapF32Data) : Prop :=
  ∀ v < data.rows, (nodeDistance query data v).isNaN = false

theorem NeighborsIn.mono {more : List UInt32} (h : NeighborsIn graph pushed v)
    (hsub : pushed ⊆ more) : NeighborsIn graph more v :=
  fun nbr hnbr hlt => hsub (h nbr hnbr hlt)

theorem Explored.mem_iff (h : Explored query data graph lEff pushed expanded state) :
    state.visited.Seen v.toNat ↔ v ∈ pushed := by
  rw [h.seen]
  constructor
  · rintro ⟨w, hw, heq⟩
    rwa [← UInt32.toNat_inj.mp heq]
  · exact fun hv => ⟨v, hv, rfl⟩

/-- The entries of nodes are compared by their keys. -/
theorem cmp_of_nodes (hnan : NoNaN query data) (hrows : graph.length = data.rows)
    {nodes : List UInt32} (hnodes : ∀ v ∈ nodes, v.toNat < graph.length) :
    ∀ e ∈ nodes.map (nodeEntry query data), ∀ f ∈ nodes.map (nodeEntry query data),
      entryCmp e f = compare (beamKey e) (beamKey f) := by
  intro e he f hf
  obtain ⟨v, hv, rfl⟩ := List.mem_map.mp he
  obtain ⟨w, hw, rfl⟩ := List.mem_map.mp hf
  exact entryCmp_eq (hnan _ (hrows ▸ hnodes v hv)) (hnan _ (hrows ▸ hnodes w hw))

theorem Explored.withNode (hnan : NoNaN query data) (hrows : graph.length = data.rows)
    (h : Explored query data graph lEff pushed expanded state) (hlt : nbr.toNat < graph.length)
    (hnew : nbr ∉ pushed) :
    Explored query data graph lEff (nbr :: pushed) expanded (state.withNode query data lEff nbr) := by
  have hnodes : ∀ v ∈ nbr :: pushed, v.toNat < graph.length := by
    intro v hv
    rcases List.mem_cons.mp hv with rfl | hv
    · exact hlt
    · exact h.inRange v hv
  obtain ⟨waiting, hperm, hcandidates⟩ := h.candidates
  exact {
    marks := (VisitTracker.marked_length _ _).trans h.marks
    nodup := List.nodup_cons.mpr ⟨hnew, h.nodup⟩
    inRange := hnodes
    seen := by
      intro i
      rw [SearchState.withNode, VisitTracker.seen_marked (h.marks ▸ hlt), h.seen,
        List.exists_mem_cons_iff, eq_comm]
    candidates := ⟨nbr :: waiting, (hperm.cons nbr).trans List.perm_middle.symm,
      (heaps.candidates.intoIter_push _ _).trans (hcandidates.cons _)⟩
    best := BinaryHeap.leastOf_trim h.best (cmp_of_nodes hnan hrows hnodes) }

/-- One neighbor: it is visited now, if there is such a node. -/
theorem Explored.visit (hnan : NoNaN query data) (hrows : graph.length = data.rows)
    (h : Explored query data graph lEff pushed expanded state) (nbr : UInt32) :
    ∃ more next, visitNeighbor query data graph lEff state nbr = .ok next ∧
      Explored query data graph lEff more expanded next ∧ pushed ⊆ more ∧
      (nbr.toNat < graph.length → nbr ∈ more) := by
  rcases Nat.lt_or_ge nbr.toNat graph.length with hlt | hge
  · have hmark := VisitTracker.markIfNew_eq (h.marks ▸ hlt : nbr.toNat < state.visited.marks.length)
    by_cases hseen : state.visited.Seen nbr.toNat
    · refine ⟨pushed, state, ?_, h, fun _ hv => hv, fun _ => h.mem_iff.mp hseen⟩
      rw [visitNeighbor, if_neg (Nat.not_le.mpr hlt), hmark, ok_bind,
        VisitTracker.marked_of_seen hseen, decide_eq_true hseen]
      rfl
    · refine ⟨nbr :: pushed, state.withNode query data lEff nbr, ?_,
        h.withNode hnan hrows hlt fun hmem => hseen (h.mem_iff.mpr hmem),
        List.subset_cons_self _ _, fun _ => List.mem_cons_self⟩
      rw [visitNeighbor, if_neg (Nat.not_le.mpr hlt), hmark, ok_bind,
        decide_eq_false hseen]
      simp only [Bool.not_false, if_true]
      rw [MmapF32Data.row_eq (hrows ▸ hlt), ok_bind]
      rfl
  · refine ⟨pushed, state, ?_, h, fun _ hv => hv, fun hlt => absurd hlt (Nat.not_lt.mpr hge)⟩
    rw [visitNeighbor, if_pos hge]

/-- All neighbors of a node: they are visited now. -/
theorem Explored.visitAll (hnan : NoNaN query data) (hrows : graph.length = data.rows)
    (h : Explored query data graph lEff pushed expanded state) (neighbors : List UInt32) :
    ∃ more next, neighbors.foldlM (visitNeighbor query data graph lEff) state = .ok next ∧
      Explored query data graph lEff more expanded next ∧ pushed ⊆ more ∧
      ∀ nbr ∈ neighbors, nbr.toNat < graph.length → nbr ∈ more := by
  induction neighbors generalizing pushed state with
  | nil => exact ⟨pushed, state, rfl, h, fun _ hv => hv, fun _ hnbr => nomatch hnbr⟩
  | cons nbr neighbors ih =>
      obtain ⟨mid, between, hvisit, hmid, hsub, hnbr⟩ := h.visit hnan hrows nbr
      obtain ⟨more, next, hrest, hmore, hsub', hall⟩ := ih hmid
      refine ⟨more, next, ?_, hmore, fun _ hv => hsub' (hsub hv), ?_⟩
      · rw [List.foldlM_cons, hvisit, ok_bind, hrest]
      · intro other hother hlt
        rcases List.mem_cons.mp hother with rfl | hother
        · exact hsub' (hnbr hlt)
        · exact hall other hother hlt

/-- The nearest candidate, and the books with it among the expanded nodes. -/
theorem Explored.pop (hnan : NoNaN query data) (hrows : graph.length = data.rows)
    (h : Explored query data graph lEff pushed expanded state) {e : F32 × UInt32}
    {rest : heaps.candidates.Heap} (hpop : heaps.candidates.pop state.candidates = some (e, rest)) :
    e = nodeEntry query data e.2 ∧ e.2 ∈ pushed ∧
      Explored query data graph lEff pushed (e.2 :: expanded) { state with candidates := rest } ∧
      ∀ v ∈ pushed, v ∉ expanded → beamKey e ≤ beamKey (nodeEntry query data v) := by
  obtain ⟨waiting, hperm, hcandidates⟩ := h.candidates
  have htaken := heaps.candidates.intoIter_of_pop hpop
  have hmem : e ∈ waiting.map (nodeEntry query data) :=
    hcandidates.mem_iff.mp (htaken.mem_iff.mpr List.mem_cons_self)
  obtain ⟨c, hc, rfl⟩ := List.mem_map.mp hmem
  have hwaiting : ∀ v ∈ waiting, v ∈ pushed := fun v hv =>
    hperm.mem_iff.mpr (List.mem_append_right _ hv)
  have hkey : ∀ f ∈ heaps.candidates.intoIter state.candidates,
      ∀ g ∈ heaps.candidates.intoIter state.candidates, entryCmp g f =
        compare (OrderDual.toDual (beamKey f)) (OrderDual.toDual (beamKey g)) := by
    intro f hf g hg
    exact cmp_of_nodes hnan hrows (fun v hv => h.inRange v (hwaiting v hv)) g
      (hcandidates.mem_iff.mp hg) f (hcandidates.mem_iff.mp hf)
  refine ⟨rfl, hwaiting c hc, ⟨h.marks, h.nodup, h.inRange, h.seen, ?_, h.best⟩, ?_⟩
  · have herase := List.perm_cons_erase hc
    refine ⟨waiting.erase c, ?_, ?_⟩
    · exact hperm.trans ((herase.append_left expanded).trans List.perm_middle)
    · exact (htaken.symm.trans (hcandidates.trans (herase.map _))).cons_inv
  · intro v hv hnot
    have hvw : v ∈ waiting := (List.mem_append.mp (hperm.mem_iff.mp hv)).resolve_left hnot
    exact BinaryHeap.key_le_of_pop hpop hkey _
      (hcandidates.mem_iff.mpr (List.mem_map_of_mem hvw))

theorem length_le_of_inRange (hnodup : pushed.Nodup) (hrange : ∀ v ∈ pushed, v.toNat < graph.length) :
    pushed.length ≤ graph.length := by
  have hmap : (pushed.map UInt32.toNat).Nodup := hnodup.map fun _ _ => UInt32.toNat_inj.mp
  have hsub : pushed.map UInt32.toNat ⊆ List.range graph.length := by
    intro i hi
    obtain ⟨v, hv, rfl⟩ := List.mem_map.mp hi
    exact List.mem_range.mpr (hrange v hv)
  have hle := (List.subperm_of_subset hmap hsub).length_le
  rwa [List.length_map, List.length_range] at hle

variable (query data graph lEff) in
/-- What a search ends with: a node with few visited nodes nearer has all its neighbors visited. -/
structure SearchSettled (pushed : List UInt32) (state : SearchState heaps) : Prop where
  marks : state.visited.marks.length = graph.length
  nodup : pushed.Nodup
  inRange : ∀ v ∈ pushed, v.toNat < graph.length
  seen : ∀ i, state.visited.Seen i ↔ ∃ v ∈ pushed, v.toNat = i
  best : LeastOf beamKey lEff (pushed.map (nodeEntry query data)) (heaps.best.intoIter state.best)
  optimum : ∀ v ∈ pushed, (pushed.countP fun w => decide ((nodeDistance query data w.toNat).key <
    (nodeDistance query data v.toNat).key)) < lEff → NeighborsIn graph pushed v

/-- Candidates that are farther than a full best heap have too many visited nodes nearer. -/
theorem le_countP_of_farther (hbest : LeastOf beamKey lEff (pushed.map (nodeEntry query data))
      (heaps.best.intoIter state.best)) (hfull : lEff ≤ heaps.best.len state.best)
    (hnan : NoNaN query data) (hrows : graph.length = data.rows)
    (hrange : ∀ v ∈ pushed, v.toNat < graph.length) {cd : F32}
    (hfarther : (heaps.best.peek state.best).any fun worst => worst.1.lt cd)
    (hcd : cd.key ≤ (nodeDistance query data v.toNat).key) :
    lEff ≤ pushed.countP fun w => decide ((nodeDistance query data w.toNat).key <
      (nodeDistance query data v.toNat).key) := by
  cases hpop : heaps.best.pop state.best with
  | none =>
      rw [BinaryHeap.peek, hpop] at hfarther
      cases hfarther
  | some popped =>
      obtain ⟨worst, rest⟩ := popped
      rw [BinaryHeap.peek, hpop] at hfarther
      have hlt := (F32.lt_iff.mp hfarther).2.2
      have hsub := hbest.subset
      obtain ⟨-, dropped, hsplit, -⟩ := hbest
      have hworst := BinaryHeap.key_le_of_pop hpop fun e he f hf =>
        cmp_of_nodes hnan hrows hrange e (hsub he) f (hsub hf)
      have hall : ∀ e ∈ heaps.best.intoIter state.best,
          decide (e.1.key < (nodeDistance query data v.toNat).key) = true := fun e he =>
        decide_eq_true (((key_le_of_beamKey_le (hworst e he)).trans_lt hlt).trans_le hcd)
      calc lEff ≤ (heaps.best.intoIter state.best).length := hfull
        _ = (heaps.best.intoIter state.best).countP
              (fun e => decide (e.1.key < (nodeDistance query data v.toNat).key)) :=
            (List.countP_eq_length.mpr hall).symm
        _ ≤ (pushed.map (nodeEntry query data)).countP
              (fun e => decide (e.1.key < (nodeDistance query data v.toNat).key)) := by
            rw [hsplit.countP_eq, List.countP_append]
            exact Nat.le_add_right _ _
        _ = _ := List.countP_map

/-- The loop ends, with every node among the best expanded. -/
theorem searchLoop_settles (hnan : NoNaN query data) (hrows : graph.length = data.rows) {fuel : Nat}
    (h : Explored query data graph lEff pushed expanded state)
    (hclosed : ∀ v ∈ expanded, NeighborsIn graph pushed v)
    (hfuel : graph.length < fuel + expanded.length) :
    ∃ more final, searchLoop query data graph lEff fuel state = .ok (some final) ∧
      SearchSettled query data graph lEff more final ∧ pushed ⊆ more := by
  induction fuel generalizing pushed expanded state with
  | zero =>
      obtain ⟨waiting, hperm, -⟩ := h.candidates
      have hle := length_le_of_inRange h.nodup h.inRange
      rw [hperm.length_eq, List.length_append] at hle
      omega
  | succ fuel ih =>
      rw [searchLoop]
      cases hpop : heaps.candidates.pop state.candidates with
      | none =>
          refine ⟨pushed, state, rfl, ⟨h.marks, h.nodup, h.inRange, h.seen, h.best, ?_⟩,
            fun _ hv => hv⟩
          intro v hv _
          obtain ⟨waiting, hperm, hcandidates⟩ := h.candidates
          rw [heaps.candidates.intoIter_of_pop_none hpop] at hcandidates
          rw [List.map_eq_nil_iff.mp hcandidates.nil_eq.symm, List.append_nil] at hperm
          exact hclosed v (hperm.mem_iff.mp hv)
      | some popped =>
          obtain ⟨⟨cd, cid⟩, rest⟩ := popped
          obtain ⟨hentry, hmem, hnext, hleast⟩ := h.pop hnan hrows hpop
          dsimp only at hentry hmem hnext ⊢
          split_ifs with hstop
          · refine ⟨pushed, _, rfl, ⟨h.marks, h.nodup, h.inRange, h.seen, h.best, ?_⟩,
              fun _ hv => hv⟩
            intro v hv hfew
            by_cases hexp : v ∈ expanded
            · exact hclosed v hexp
            · have hle := le_countP_of_farther h.best hstop.1 hnan hrows h.inRange hstop.2
                (key_le_of_beamKey_le (hleast v hv hexp))
              exact absurd hfew (Nat.not_lt.mpr hle)
          · have hcid := h.inRange cid hmem
            rw [List.getElem?_eq_getElem hcid]
            obtain ⟨more, next, hvisit, hmore, hsub, hall⟩ :=
              hnext.visitAll hnan hrows graph[cid.toNat]
            have hclosed' : ∀ v ∈ cid :: expanded, NeighborsIn graph more v := by
              intro v hv
              rcases List.mem_cons.mp hv with rfl | hv
              · intro nbr hnbr hlt
                rw [List.getD_eq_getElem?_getD, List.getElem?_eq_getElem hcid, Option.getD_some] at hnbr
                exact hall nbr hnbr hlt
              · exact (hclosed v hv).mono hsub
            obtain ⟨last, final, hloop, hfinal, hsub'⟩ :=
              ih hmore hclosed' (by rw [List.length_cons]; omega)
            refine ⟨last, final, ?_, hfinal, fun _ hv => hsub' (hsub hv)⟩
            dsimp only
            rw [hvisit, ok_bind, hloop]

/-! ## The ids returned -/

/-- Among numbers the final sort is the stable sort by the distance. -/
theorem nearestIds_eq (k : Nat) {items : List (F32 × UInt32)}
    (hnan : ∀ e ∈ items, e.1.isNaN = false) :
    nearestIds k items = ((sortByKey (fun e => e.1.key) items).take k).map Prod.snd := by
  have hsort : (items.mergeSort fun a b => orderedCmp a.1 b.1 != .gt) =
      sortByKey (fun e => e.1.key) items := by
    rw [sortByKey, ← List.map_id (items.mergeSort fun a b => orderedCmp a.1 b.1 != .gt)]
    rw [List.map_mergeSort (s := fun a b => decide (a.1.key ≤ b.1.key)), List.map_id]
    intro a ha b hb
    rw [orderedCmp_eq (hnan a ha) (hnan b hb), Bool.eq_iff_iff, decide_eq_true_iff, bne_iff_ne,
      compare_le_iff_le]
    rfl
  rw [nearestIds, hsort]

/-- What holds of the ids `searchOne` returns and of the nodes it has visited. -/
structure LocalOptimum (query : List F32) (data : MmapF32Data) (graph : List (List UInt32))
    (start : UInt32) (k lEff : Nat) (ids : List UInt32) (after : VisitTracker) : Prop where
  nodup : ids.Nodup
  length : ids.length ≤ k
  visited : ∀ id ∈ ids, after.Seen id.toNat
  start : after.Seen start.toNat
  sorted : ids.Pairwise fun a b =>
    (nodeDistance query data b.toNat).ge (nodeDistance query data a.toNat) = true
  expanded : ∀ v, after.Seen v → ((Finset.range graph.length).filter fun w => after.Seen w ∧
      (nodeDistance query data w).lt (nodeDistance query data v) = true).card < lEff →
    ∀ nbr ∈ graph.getD v [], nbr.toNat < graph.length → after.Seen nbr.toNat
  others : ∀ v, after.Seen v → (∀ id ∈ ids, id.toNat ≠ v) → ∀ id ∈ ids,
    (nodeDistance query data v).ge (nodeDistance query data id.toNat) = true

/-- The nodes visited that are nearer than a node, counted in the list of the visited ones. -/
theorem card_nearer (hnan : NoNaN query data) (hrows : graph.length = data.rows)
    (h : SearchSettled query data graph lEff pushed state) (hv : v ∈ pushed) :
    ((Finset.range graph.length).filter fun w => state.visited.Seen w ∧
      (nodeDistance query data w).lt (nodeDistance query data v.toNat) = true).card =
    pushed.countP fun w => decide ((nodeDistance query data w.toNat).key <
      (nodeDistance query data v.toNat).key) := by
  have hmap : (pushed.filter fun w => decide ((nodeDistance query data w.toNat).key <
      (nodeDistance query data v.toNat).key)).map UInt32.toNat |>.Nodup :=
    (h.nodup.filter _).map fun _ _ => UInt32.toNat_inj.mp
  rw [List.countP_eq_length_filter, ← List.length_map UInt32.toNat, ← List.toFinset_card_of_nodup hmap]
  congr 1
  ext w
  simp only [Finset.mem_filter, Finset.mem_range, List.mem_toFinset, List.mem_map, List.mem_filter,
    decide_eq_true_eq, F32.lt_iff]
  constructor
  · rintro ⟨-, hseen, -, -, hlt⟩
    obtain ⟨u, hu, rfl⟩ := (h.seen w).mp hseen
    exact ⟨u, ⟨hu, hlt⟩, rfl⟩
  · rintro ⟨u, ⟨hu, hlt⟩, rfl⟩
    exact ⟨h.inRange u hu, (h.seen _).mpr ⟨u, hu, rfl⟩, hnan _ (hrows ▸ h.inRange u hu),
      hnan _ (hrows ▸ h.inRange v hv), hlt⟩

theorem SearchSettled.localOptimum (hnan : NoNaN query data) (hrows : graph.length = data.rows)
    (h : SearchSettled query data graph lEff pushed state) {start : UInt32} (hstart : start ∈ pushed)
    (k : Nat) : LocalOptimum query data graph start k lEff
      (nearestIds k (heaps.best.intoIter state.best)) state.visited := by
  have hnumber : ∀ u ∈ pushed, (nodeDistance query data u.toNat).isNaN = false := fun u hu =>
    hnan _ (hrows ▸ h.inRange u hu)
  obtain ⟨dropped, hsplit, hdropped⟩ := h.best.split
  have hentry : ∀ e ∈ heaps.best.intoIter state.best,
      e.2 ∈ pushed ∧ e.1 = nodeDistance query data e.2.toNat := by
    intro e he
    obtain ⟨u, hu, rfl⟩ := List.mem_map.mp (h.best.subset he)
    exact ⟨hu, rfl⟩
  have hitems : ∀ e ∈ heaps.best.intoIter state.best, e.1.isNaN = false := by
    intro e he
    rw [(hentry e he).2]
    exact hnumber _ (hentry e he).1
  have hids := nearestIds_eq k hitems
  generalize hsorted : sortByKey (fun e => e.1.key) (heaps.best.intoIter state.best) = sorted at hids
  have hperm : sorted.Perm (heaps.best.intoIter state.best) := hsorted ▸ sortByKey_perm _ _
  have hpairwise : sorted.Pairwise fun a b => a.1.key ≤ b.1.key := hsorted ▸ sortByKey_pairwise _ _
  have hsnd : pushed.Perm ((sorted.map Prod.snd) ++ dropped.map Prod.snd) := by
    have hmap := (hsplit.trans (hperm.symm.append_right dropped)).map Prod.snd
    have hid : Prod.snd ∘ nodeEntry query data = id := rfl
    rwa [List.map_map, List.map_append, hid, List.map_id] at hmap
  have htake : ∀ id ∈ nearestIds k (heaps.best.intoIter state.best), ∃ e ∈ sorted.take k,
      e.2 = id ∧ e.1 = nodeDistance query data id.toNat ∧ id ∈ pushed := by
    intro id hid
    rw [hids] at hid
    obtain ⟨e, he, rfl⟩ := List.mem_map.mp hid
    obtain ⟨hpushed, hdist⟩ := hentry e (hperm.mem_iff.mp (List.mem_of_mem_take he))
    exact ⟨e, he, rfl, hdist, hpushed⟩
  refine ⟨?_, ?_, ?_, (h.seen _).mpr ⟨start, hstart, rfl⟩, ?_, ?_, ?_⟩
  · rw [hids]
    have hnodup := (List.nodup_append.mp (hsnd.nodup_iff.mp h.nodup)).1
    exact hnodup.sublist ((List.take_sublist k sorted).map _)
  · rw [hids, List.length_map, List.length_take]
    exact Nat.min_le_left _ _
  · intro id hid
    obtain ⟨-, -, -, -, hpushed⟩ := htake id hid
    exact (h.seen _).mpr ⟨id, hpushed, rfl⟩
  · rw [hids, List.pairwise_map]
    refine (hpairwise.sublist (List.take_sublist k sorted)).imp_of_mem fun {a b} ha hb hle => ?_
    obtain ⟨hpa, hda⟩ := hentry a (hperm.mem_iff.mp (List.mem_of_mem_take ha))
    obtain ⟨hpb, hdb⟩ := hentry b (hperm.mem_iff.mp (List.mem_of_mem_take hb))
    rw [hda, hdb] at hle
    exact F32.ge_iff.mpr ⟨hnumber _ hpb, hnumber _ hpa, hle⟩
  · intro v hv hfew nbr hnbr hlt
    obtain ⟨u, hu, rfl⟩ := (h.seen v).mp hv
    rw [card_nearer hnan hrows h hu] at hfew
    exact (h.seen _).mpr ⟨nbr, h.optimum u hu hfew nbr hnbr hlt, rfl⟩
  · intro v hv hout id hid
    obtain ⟨u, hu, rfl⟩ := (h.seen v).mp hv
    obtain ⟨e, he, rfl, hdist, hpushed⟩ := htake id hid
    refine F32.ge_iff.mpr ⟨hnumber u hu, hnumber _ hpushed, ?_⟩
    rw [← hdist]
    have hmem := hsplit.mem_iff.mp (List.mem_map_of_mem hu)
    rcases List.mem_append.mp hmem with hkept | hdrop
    · rw [← List.take_append_drop k sorted] at hpairwise hperm
      rcases List.mem_append.mp (hperm.mem_iff.mpr hkept) with hin | hbehind
      · refine absurd rfl (hout u ?_)
        rw [hids]
        exact List.mem_map_of_mem (f := Prod.snd) hin
      · exact (List.pairwise_append.mp hpairwise).2.2 e he _ hbehind
    · exact key_le_of_beamKey_le
        (hdropped e (hperm.mem_iff.mp (List.mem_of_mem_take he)) _ hdrop)

/-- The state in which the loop starts. -/
theorem explored_start {start : UInt32} {visited : VisitTracker}
    (hmarks : visited.marks.length = graph.length) (hstart : start.toNat < graph.length)
    (hpos : 0 < lEff) :
    Explored query data graph lEff [start] [] {
      candidates := heaps.candidates.push heaps.candidates.new (nodeEntry query data start)
      best := heaps.best.push heaps.best.new (nodeEntry query data start)
      visited := visited.reset.marked start.toNat } where
  marks := by rw [VisitTracker.marked_length, VisitTracker.reset_length, hmarks]
  nodup := List.nodup_singleton start
  inRange v hv := by rwa [List.mem_singleton.mp hv]
  seen i := by
    rw [VisitTracker.seen_marked (by rwa [VisitTracker.reset_length, hmarks])]
    simp [VisitTracker.not_seen_reset, eq_comm]
  candidates := by
    refine ⟨[start], .refl _, ?_⟩
    have hpush := heaps.candidates.intoIter_push heaps.candidates.new (nodeEntry query data start)
    rwa [heaps.candidates.intoIter_new] at hpush
  best := by
    have hpush := heaps.best.intoIter_push heaps.best.new (nodeEntry query data start)
    rw [heaps.best.intoIter_new] at hpush
    exact ((LeastOf.nil beamKey lEff).cons hpos).perm hpush.symm

end

/-- A search returns, and what it returns is a local optimum. -/
theorem searchOne_localOptimum (heaps : SearchHeaps) (query : List F32) (data : MmapF32Data)
    (graph : List (List UInt32)) (hrows : graph.length = data.rows) (hnan : NoNaN query data)
    (start : UInt32) (hstart : start.toNat < data.rows) (k l : Nat) (hcapacity : max l (k + 1) < 2 ^ 60)
    (visited : VisitTracker) (hvisited : visited.marks.length = graph.length) (fuel : Nat)
    (hfuel : graph.length < fuel) :
    ∃ ids after, searchOne heaps fuel query data graph start k l visited = .ok (some (ids, after)) ∧
      LocalOptimum query data graph start k (max l (k + 1)) ids after := by
  have hk : wrap (k + 1) = k + 1 := wrap_of_lt (by omega)
  have hlt : start.toNat < visited.reset.marks.length := by
    rwa [VisitTracker.reset_length, hvisited, hrows]
  have hmark := VisitTracker.mark_eq hlt
  have hinit := @explored_start heaps query data graph (max l (k + 1)) start visited hvisited
    (hrows ▸ hstart) (by omega)
  obtain ⟨more, final, hloop, hsettled, hsub⟩ := searchLoop_settles hnan hrows hinit
    (fun _ hv => nomatch hv) (by simpa using hfuel)
  refine ⟨_, final.visited, ?_,
    hsettled.localOptimum hnan hrows (hsub List.mem_cons_self) k⟩
  rw [searchOne, hk, hmark, ok_bind, MmapF32Data.row_eq hstart, ok_bind, if_neg (by omega)]
  exact congrArg (· >>= _) hloop

/-- Heaps that keep their items in lists. -/
def listHeaps : SearchHeaps := ⟨.ofList _, .ofList _⟩

/-- Points without coordinates. -/
def pointsWithoutValues (rows : Nat) : MmapF32Data where
  mmap := leU32 (UInt32.ofNat rows) ++ leU32 0
  rows := rows
  dim := 0
  fits := by simp

theorem pointsOnLine_fits : 8 + 3 * 1 * 4 ≤
    (leU32 3 ++ leU32 1 ++ leU32 0 ++ leU32 0x3f800000 ++ leU32 0x40400000).length := by
  decide

/-- The points 0, 1 and 3 on a line. -/
def pointsOnLine : MmapF32Data where
  mmap := leU32 3 ++ leU32 1 ++ leU32 0 ++ leU32 0x3f800000 ++ leU32 0x40400000
  rows := 3
  dim := 1
  fits := pointsOnLine_fits

/-- The query 2.5 is at another distance from each of the points. -/
theorem pointsOnLine_distances : (List.range 3).map (nodeDistance [⟨0x40200000⟩] pointsOnLine) =
    [⟨0x40c80000⟩, ⟨0x40100000⟩, ⟨0x3e800000⟩] := by
  decide +kernel

theorem pointsOnLine_noNaN : NoNaN [⟨0x40200000⟩] pointsOnLine := by
  intro v hv
  have hmem := List.mem_map_of_mem (f := nodeDistance [⟨0x40200000⟩] pointsOnLine)
    (List.mem_range.mpr hv)
  have hnone : ∀ d ∈ (List.range 3).map (nodeDistance [⟨0x40200000⟩] pointsOnLine),
      d.isNaN = false := by
    rw [pointsOnLine_distances]
    decide
  exact hnone _ hmem

/-- From the farthest of the points, with a row that names a point there is not. -/
theorem searchOne_localOptimum_pair : ∃ ids after,
    searchOne listHeaps 4 [⟨0x40200000⟩] pointsOnLine [[1], [2], [0, 7]] 0 1 1 (VisitTracker.new 3) =
      .ok (some (ids, after)) ∧
    LocalOptimum [⟨0x40200000⟩] pointsOnLine [[1], [2], [0, 7]] 0 1 (max 1 (1 + 1)) ids after :=
  searchOne_localOptimum listHeaps [⟨0x40200000⟩] pointsOnLine [[1], [2], [0, 7]] rfl
    pointsOnLine_noNaN 0 (by decide) 1 1 (by decide) (VisitTracker.new 3)
    (VisitTracker.new_length 3) 4 (by decide)

/-- For `k` = 2^60 the heaps cannot be allocated. -/
theorem searchOne_capacity : ¬ ∃ fuel ids after,
    searchOne listHeaps fuel [] (pointsWithoutValues 1) [[]] 0 (2 ^ 60) 1 (VisitTracker.new 1) =
      .ok (some (ids, after)) := by
  rintro ⟨fuel, ids, after, h⟩
  have hlt : 0 < (VisitTracker.new 1).reset.marks.length := by
    rw [VisitTracker.reset_length, VisitTracker.new_length]
    decide
  have hmark := VisitTracker.mark_eq hlt
  have hstart : (0 : UInt32).toNat = 0 := rfl
  have hlarge : 2 ^ 63 ≤ max 1 (wrap (2 ^ 60 + 1)) * 8 := by decide
  rw [searchOne, hstart, hmark, ok_bind, MmapF32Data.row_eq (by decide), ok_bind, if_pos hlarge] at h
  cases h

end ForgeANN
