-- SUMMARY: The nearest rows of a row of a leaf, in a buffer of 32 slots, and what pushing into it comes to.
import ForgeANN.Common.Basic
import ForgeANN.Common.Float
import ForgeANN.Lib.Except
import ForgeANN.Lib.StableTop
import Mathlib.Data.List.Perm.Basic
import Mathlib.Data.Prod.Basic

/-!
# The buffer of a row

Every row of a leaf keeps its nearest rows in a buffer of 32 slots, sorted by
insertion. The number of neighbours comes with every push; a debug assertion
compares it with the size of the buffer, and a release build does not.
-/
namespace ForgeANN

open Lib

/-- `RowTopK`: the first `len` of the slots are in use. -/
structure RowTopK where
  buf : Vector (Nat × F32) 32
  len : Nat

namespace RowTopK

def indexOutOfBounds : AnnError := .panic "index out of bounds"

def empty : RowTopK := ⟨Vector.replicate 32 (0, F32.infinity), 0⟩

/-- What earlier leaves left in the slots stays there. -/
def clear (row : RowTopK) : RowTopK := { row with len := 0 }

def readSlot (buf : Vector (Nat × F32) 32) (i : Nat) : AnnResult (Nat × F32) :=
  if h : i < 32 then .ok buf[i] else .error indexOutOfBounds

def writeSlot (buf : Vector (Nat × F32) 32) (i : Nat) (entry : Nat × F32) :
    AnnResult (Vector (Nat × F32) 32) :=
  if h : i < 32 then .ok (buf.set i entry) else .error indexOutOfBounds

/-- The entry goes to slot `i`, or to one before it: those farther away are moved up first. -/
def insertAt (entry : Nat × F32) : Nat → Vector (Nat × F32) 32 → AnnResult (Vector (Nat × F32) 32)
  | 0, buf => writeSlot buf 0 entry
  | i + 1, buf => do
      let before ← readSlot buf i
      if entry.2.lt before.2 then
        let buf ← writeSlot buf (i + 1) before
        insertAt entry i buf
      else writeSlot buf (i + 1) entry

def push (row : RowTopK) (k idx : Nat) (dist : F32) : AnnResult RowTopK :=
  if k = 0 then .ok row
  else if row.len < k then do
    let buf ← insertAt (idx, dist) row.len row.buf
    .ok ⟨buf, row.len + 1⟩
  else do
    let last ← readSlot row.buf (k - 1)
    if dist.ge last.2 then .ok row
    else do
      let buf ← insertAt (idx, dist) (k - 1) row.buf
      .ok { row with buf }

def iter (row : RowTopK) : List (Nat × F32) := row.buf.toList.take row.len

/-! ## One push -/

def nearer (a b : Nat × F32) : Bool := a.2.lt b.2

def notNearer (a b : Nat × F32) : Bool := a.2.ge b.2

variable {buf : Vector (Nat × F32) 32} {entry : Nat × F32} {i : Nat}

theorem readSlot_of_lt (h : i < 32) : readSlot buf i = .ok buf[i] := dif_pos h

theorem writeSlot_of_lt (h : i < 32) : writeSlot buf i entry = .ok (buf.set i entry) := dif_pos h

theorem writeSlot_of_ge (h : 32 ≤ i) : writeSlot buf i entry = .error indexOutOfBounds :=
  dif_neg (not_lt.mpr h)

/-- The slots up to one, with that one's entry. -/
theorem take_succ_slots (buf : Vector (Nat × F32) 32) (h : i < 32) :
    buf.toList.take (i + 1) = buf.toList.take i ++ [buf[i]] := by
  rw [List.take_succ_eq_append_getElem (by rw [Vector.length_toList]; exact h),
    Vector.getElem_toList]

theorem take_set_slots (h : i < 32) :
    (buf.set i entry).toList.take (i + 1) = buf.toList.take i ++ [entry] := by
  rw [take_succ_slots _ h, Vector.getElem_set_self, Vector.toList_set, List.take_set_of_le le_rfl]

/-- In the slots, an entry is moved forward past those it is nearer than. -/
theorem insertAt_eq (entry : Nat × F32) (h : i < 32) (buf : Vector (Nat × F32) 32) :
    ∃ buf', insertAt entry i buf = .ok buf' ∧
      buf'.toList.take (i + 1) =
        (insertFromBack nearer entry (buf.toList.take i).reverse).reverse ∧
      buf'.toList.drop (i + 1) = buf.toList.drop (i + 1) := by
  induction i generalizing buf with
  | zero =>
      refine ⟨_, writeSlot_of_lt h, take_set_slots h, ?_⟩
      rw [Vector.toList_set, List.drop_set_of_lt (Nat.lt_succ_self 0)]
  | succ i ih =>
      have hi : i < 32 := Nat.lt_of_succ_lt h
      rw [insertAt, readSlot_of_lt hi, ok_bind, take_succ_slots buf hi, List.reverse_append,
        List.reverse_singleton, List.singleton_append, insertFromBack]
      by_cases hlt : entry.2.lt buf[i].2 = true
      · -- the entry before moves up, and is behind what the rest of the loop rearranges
        rw [if_pos hlt, if_pos (show nearer entry buf[i] = true from hlt), writeSlot_of_lt h, ok_bind]
        obtain ⟨buf', hrun, hfront, hdrop⟩ := ih hi (buf.set (i + 1) buf[i])
        refine ⟨buf', hrun, ?_, ?_⟩
        · rw [Vector.toList_set, List.take_set_of_le (Nat.le_succ i)] at hfront
          have hmoved : buf'[i + 1] = buf[i] := by
            have hhead := congrArg List.head? hdrop
            rw [List.head?_drop, List.head?_drop, Vector.getElem?_toList, Vector.getElem?_toList,
              Vector.getElem?_eq_getElem h, Vector.getElem?_eq_getElem h,
              Vector.getElem_set_self] at hhead
            exact Option.some.inj hhead
          rw [take_succ_slots buf' h, hmoved, hfront, List.reverse_cons]
        · have hrest := congrArg (List.drop 1) hdrop
          rw [List.drop_drop, List.drop_drop] at hrest
          rw [hrest, Vector.toList_set, List.drop_set_of_lt (Nat.lt_succ_self _)]
      · rw [if_neg hlt, if_neg (show ¬ nearer entry buf[i] = true from hlt)]
        refine ⟨_, writeSlot_of_lt h, ?_, ?_⟩
        · rw [take_set_slots h, take_succ_slots buf hi, List.reverse_cons, List.reverse_cons,
            List.reverse_reverse]
        · rw [Vector.toList_set, List.drop_set_of_lt (Nat.lt_succ_self _)]

theorem insertAt_ok (entry : Nat × F32) (h : i < 32) (buf : Vector (Nat × F32) 32) :
    ∃ buf', insertAt entry i buf = .ok buf' ∧
      (buf'.toList.take (i + 1)).Perm (entry :: buf.toList.take i) := by
  obtain ⟨buf', hrun, hfront, -⟩ := insertAt_eq entry h buf
  refine ⟨buf', hrun, ?_⟩
  rw [hfront]
  exact (List.reverse_perm _).trans
    ((insertFromBack_perm ..).trans ((List.reverse_perm _).cons entry))

/-- Behind the last slot there is nothing to write to. -/
theorem insertAt_overflow (entry : Nat × F32) (buf : Vector (Nat × F32) 32) :
    insertAt entry 32 buf = .error indexOutOfBounds := by
  rw [insertAt, readSlot_of_lt (by decide), ok_bind]
  split_ifs
  · rw [writeSlot_of_ge le_rfl]
    rfl
  · exact writeSlot_of_ge le_rfl

theorem insertAt_error {e : AnnError} (h : insertAt entry i buf = .error e) :
    e = indexOutOfBounds := by
  have hwrite : ∀ {b : Vector (Nat × F32) 32} {j : Nat} {a : Nat × F32},
      writeSlot b j a = .error e → e = indexOutOfBounds := by
    intro b j a hwrite
    rw [writeSlot] at hwrite
    split_ifs at hwrite
    cases hwrite
    rfl
  induction i generalizing buf with
  | zero => exact hwrite h
  | succ i ih =>
      rw [insertAt] at h
      cases hread : readSlot buf i with
      | error e' =>
          rw [hread] at h
          cases h
          rw [readSlot] at hread
          split_ifs at hread
          cases hread
          rfl
      | ok before =>
          rw [hread, ok_bind] at h
          split_ifs at h
          · cases hmove : writeSlot buf (i + 1) before with
            | error e' =>
                rw [hmove] at h
                cases h
                exact hwrite hmove
            | ok moved =>
                rw [hmove, ok_bind] at h
                exact ih h
          · exact hwrite h

variable {row row' : RowTopK} {k idx : Nat} {dist : F32} {ids : List Nat}

/-- After `ids` were pushed: as many of them as there is room for, each once. -/
structure Keeps (k : Nat) (row : RowTopK) (ids : List Nat) : Prop where
  distinct : (row.iter.map Prod.fst).Nodup
  known : ∀ id ∈ row.iter.map Prod.fst, id ∈ ids
  full : row.len = min k ids.length

theorem keeps_clear (k : Nat) (row : RowTopK) : row.clear.Keeps k [] where
  distinct := List.nodup_nil
  known _ hid := nomatch hid
  full := (Nat.min_zero k).symm

theorem Keeps.iter_length (h : row.Keeps k ids) (hk : k ≤ 32) :
    row.iter.length = min k ids.length := by
  have hlen := h.full
  rw [iter, List.length_take, Vector.length_toList]
  omega

/-- With room for `k` entries, a push finds a slot. -/
theorem Keeps.push (h : row.Keeps k ids) (hpos : 0 < k) (hk : k ≤ 32) (dist : F32)
    (hidx : idx ∉ ids) : ∃ row', row.push k idx dist = .ok row' ∧ row'.Keeps k (idx :: ids) := by
  obtain ⟨hdistinct, hknown, hfull⟩ := h
  -- an entry that comes in, next to some of those there were
  have hcame : ∀ {rest out : List (Nat × F32)}, rest.Sublist row.iter →
      out.Perm ((idx, dist) :: rest) → (out.map Prod.fst).Nodup ∧
        ∀ id ∈ out.map Prod.fst, id ∈ idx :: ids := by
    intro rest out hrest hout
    have hperm := hout.map Prod.fst
    have hsub := hrest.map Prod.fst
    constructor
    · rw [hperm.nodup_iff, List.map_cons, List.nodup_cons]
      exact ⟨fun hin => hidx (hknown idx (hsub.mem hin)), hsub.nodup hdistinct⟩
    · intro id hid
      rcases List.mem_cons.mp (hperm.mem_iff.mp hid) with rfl | hid
      · exact List.mem_cons_self
      · exact List.mem_cons_of_mem idx (hknown id (hsub.mem hid))
  rw [RowTopK.push, if_neg hpos.ne']
  by_cases hroom : row.len < k
  · obtain ⟨buf', hrun, hperm⟩ := insertAt_ok (idx, dist) (by omega : row.len < 32) row.buf
    rw [if_pos hroom, hrun, ok_bind]
    obtain ⟨hnodup, hmem⟩ := hcame (.refl row.iter) hperm
    refine ⟨_, rfl, hnodup, hmem, ?_⟩
    simp only [List.length_cons]
    omega
  · have hlen : row.len = k - 1 + 1 := by omega
    have hlast : k - 1 < 32 := by omega
    rw [if_neg hroom, readSlot_of_lt hlast, ok_bind]
    split_ifs
    · refine ⟨row, rfl, hdistinct, fun id hid => List.mem_cons_of_mem idx (hknown id hid), ?_⟩
      rw [List.length_cons]
      omega
    · obtain ⟨buf', hrun, hperm⟩ := insertAt_ok (idx, dist) hlast row.buf
      rw [hrun, ok_bind]
      have hrest : (row.buf.toList.take (k - 1)).Sublist row.iter := by
        rw [iter]
        exact (List.take_prefix_take_left (by omega)).sublist
      rw [← hlen] at hperm
      obtain ⟨hnodup, hmem⟩ := hcame hrest hperm
      refine ⟨_, rfl, hnodup, hmem, ?_⟩
      simp only [List.length_cons]
      omega

/-- With more neighbours to keep than slots, pushes go on to the slot behind the last. -/
theorem push_beyond (hk : 32 < k) (hlen : row.len ≤ 32)
    (h : row.push k idx dist = .ok row') : row.len < 32 ∧ row'.len = row.len + 1 := by
  rw [RowTopK.push, if_neg (by omega), if_pos (by omega)] at h
  rcases Nat.lt_or_eq_of_le hlen with hlt | heq
  · obtain ⟨buf', hrun, -⟩ := insertAt_ok (idx, dist) hlt row.buf
    rw [hrun, ok_bind] at h
    cases h
    exact ⟨hlt, rfl⟩
  · rw [heq, insertAt_overflow] at h
    cases h

theorem push_error {e : AnnError} (h : row.push k idx dist = .error e) : e = indexOutOfBounds := by
  rw [RowTopK.push] at h
  have hinsert : ∀ {j : Nat} {build : Vector (Nat × F32) 32 → RowTopK},
      (insertAt (idx, dist) j row.buf >>= fun buf => Except.ok (build buf)) = .error e →
        e = indexOutOfBounds := by
    intro j build hbuild
    cases hrun : insertAt (idx, dist) j row.buf with
    | error e' =>
        rw [hrun] at hbuild
        cases hbuild
        exact insertAt_error hrun
    | ok buf' =>
        rw [hrun] at hbuild
        cases hbuild
  split_ifs at h
  · exact hinsert h
  · rw [readSlot] at h
    split_ifs at h
    · rw [ok_bind] at h
      split_ifs at h
      exact hinsert h
    · cases h
      rfl

/-! ## All pushes of a row -/

/-- Every row of `js` but `i` itself is pushed, with its distance. -/
def pushOthers (k i : Nat) (dist : Nat → AnnResult F32) (js : List Nat) (row : RowTopK) :
    AnnResult RowTopK :=
  js.foldlM (fun row j =>
    if j = i then .ok row
    else do
      let d ← dist j
      row.push k j d) row

variable {js : List Nat} {dists : Nat → AnnResult F32}

theorem pushOthers_cons_self (k i : Nat) (dists : Nat → AnnResult F32) (js : List Nat)
    (row : RowTopK) : pushOthers k i dists (i :: js) row = pushOthers k i dists js row := by
  rw [pushOthers, List.foldlM_cons, if_pos rfl]
  rfl

theorem pushOthers_cons {j : Nat} (hj : j ≠ i) (k : Nat) (dists : Nat → AnnResult F32)
    (js : List Nat) (row : RowTopK) : pushOthers k i dists (j :: js) row =
      (dists j >>= fun d => row.push k j d) >>= pushOthers k i dists js := by
  rw [pushOthers, List.foldlM_cons, if_neg hj]
  rfl

/-- What fails is a distance, or a push. -/
theorem pushOthers_error {e : AnnError} (h : pushOthers k i dists js row = .error e) :
    (∃ j ∈ js, dists j = .error e) ∨ e = indexOutOfBounds := by
  induction js generalizing row with
  | nil => cases h
  | cons j js ih =>
      by_cases hj : j = i
      · rw [hj, pushOthers_cons_self] at h
        exact (ih h).imp_left fun ⟨j', hj', herr⟩ => ⟨j', List.mem_cons_of_mem j hj', herr⟩
      · rw [pushOthers_cons hj] at h
        cases hd : dists j with
        | error e' =>
            rw [hd] at h
            cases h
            exact .inl ⟨j, List.mem_cons_self, hd⟩
        | ok d =>
            rw [hd, ok_bind] at h
            cases hpush : row.push k j d with
            | error e' =>
                rw [hpush] at h
                cases h
                exact .inr (push_error hpush)
            | ok pushed =>
                rw [hpush, ok_bind] at h
                exact (ih h).imp_left fun ⟨j', hj', herr⟩ => ⟨j', List.mem_cons_of_mem j hj', herr⟩

/-- With room for `k` entries, all pushes find their slots: only a distance can fail. -/
theorem Keeps.pushOthers (h : row.Keeps k ids) (hpos : 0 < k) (hk : k ≤ 32) (i : Nat)
    (dists : Nat → AnnResult F32) (hjs : js.Nodup) (hnew : ∀ j ∈ js, j ∉ ids) :
    (∀ out, RowTopK.pushOthers k i dists js row = .ok out →
      out.Keeps k ((js.filter fun j => j ≠ i).reverse ++ ids)) ∧
    (∀ e, RowTopK.pushOthers k i dists js row = .error e → ∃ j ∈ js, dists j = .error e) := by
  induction js generalizing row ids with
  | nil =>
      refine ⟨fun out hout => ?_, fun e he => nomatch he⟩
      cases hout
      exact h
  | cons j js ih =>
      obtain ⟨hj, hjs⟩ := List.nodup_cons.mp hjs
      have hrest : ∀ j' ∈ js, j' ∉ ids := fun j' hj' => hnew j' (List.mem_cons_of_mem j hj')
      by_cases hself : j = i
      · subst hself
        rw [pushOthers_cons_self, List.filter_cons_of_neg (by simp)]
        obtain ⟨hok, herr⟩ := ih h hjs hrest
        refine ⟨hok, fun e he => ?_⟩
        obtain ⟨j', hj', hfail⟩ := herr e he
        exact ⟨j', List.mem_cons_of_mem _ hj', hfail⟩
      · rw [pushOthers_cons hself, List.filter_cons_of_pos (by simpa using hself),
          List.reverse_cons, List.append_assoc, List.singleton_append]
        cases hd : dists j with
        | error e' =>
            refine ⟨fun out hout => (nomatch hout), fun e he => ?_⟩
            cases he
            exact ⟨j, List.mem_cons_self, hd⟩
        | ok d =>
            obtain ⟨pushed, hpush, hkeeps⟩ := h.push hpos hk d (hnew j List.mem_cons_self)
            rw [ok_bind, hpush, ok_bind]
            obtain ⟨hok, herr⟩ := ih hkeeps hjs fun j' hj' hin =>
              (List.mem_cons.mp hin).elim (fun heq => hj (heq ▸ hj')) (hrest j' hj')
            refine ⟨hok, fun e he => ?_⟩
            obtain ⟨j', hj', hfail⟩ := herr e he
            exact ⟨j', List.mem_cons_of_mem j hj', hfail⟩

/-- With more neighbours to keep than slots, a row of more than 32 others does not get through. -/
theorem pushOthers_beyond {out : RowTopK} (hk : 32 < k) (hlen : row.len ≤ 32)
    (h : pushOthers k i dists js row = .ok out) :
    row.len + (js.filter fun j => j ≠ i).length ≤ 32 := by
  induction js generalizing row with
  | nil => exact hlen
  | cons j js ih =>
      by_cases hself : j = i
      · subst hself
        rw [pushOthers_cons_self] at h
        rw [List.filter_cons_of_neg (by simp)]
        exact ih hlen h
      · rw [pushOthers_cons hself] at h
        rw [List.filter_cons_of_pos (by simpa using hself), List.length_cons]
        cases hd : dists j with
        | error e =>
            rw [hd] at h
            cases h
        | ok d =>
            rw [hd, ok_bind] at h
            cases hpush : row.push k j d with
            | error e =>
                rw [hpush] at h
                cases h
            | ok pushed =>
                rw [hpush, ok_bind] at h
                obtain ⟨hlt, hnext⟩ := push_beyond hk hlen hpush
                have := ih (by omega) h
                omega

/-- The rows of a leaf other than one of them. -/
theorem length_others {n : Nat} (hi : i < n) :
    ((List.range n).filter fun j => j ≠ i).length = n - 1 := by
  have herase := List.nodup_range.erase_eq_filter (l := List.range n) i
  have hlen := List.length_erase_of_mem (List.mem_range.mpr hi)
  rw [herase, List.length_range] at hlen
  rw [← hlen]
  congr 1
  apply List.filter_congr
  intro j _
  rw [Bool.eq_iff_iff]
  simp

end RowTopK

end ForgeANN
