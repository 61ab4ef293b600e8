-- SUMMARY: When the leaf morsel queue is stuck: a full heap and no worker that will take a leaf.
import ForgeANN.Rbc.MorselMoves

/-!
# Progress of the leaf morsel queue

A submitter can return as long as the heap has room or some worker will make
room. A worker that sleeps is only woken by a notification meant for any waiter,
and one that failed keeps its error to itself until it is joined. Once the heap
is full and all workers are of these kinds, no submitter returns.
-/
namespace ForgeANN

open Lib

namespace Morsel

/-- The thread has called `submit`, which has not returned. -/
def InCall (s : State) (i : Nat) : Prop :=
  ∃ submitter, s.submitters[i]? = some submitter ∧ submitter.pc ≠ .idle

/-- The thread is in a call that no sequence of steps lets return. -/
def Stuck (cfg : Config) (s : State) (i : Nat) : Prop :=
  InCall s i ∧ ∀ bs t, Run (step cfg) s bs t → InCall t i

/-- The worker will take the next leaf, if no one else does. -/
def WorkerPc.canTake (cfg : Config) (item : Item) : WorkerPc → Prop
  | .top => True
  | .popping => True
  | .batching batch => grows cfg.policy batch item ∨ ∀ leaf ∈ batch, cfg.fails leaf = none
  | .emitting _ rest => ∀ leaf ∈ rest, cfg.fails leaf = none
  | _ => False

instance (cfg : Config) (item : Item) : DecidablePred (WorkerPc.canTake cfg item)
  | .top => inferInstanceAs (Decidable True)
  | .popping => inferInstanceAs (Decidable True)
  | .batching _ => inferInstanceAs (Decidable (_ ∨ _))
  | .emitting .. => inferInstanceAs (Decidable (∀ _ ∈ _, _))
  | .sleeping => inferInstanceAs (Decidable False)
  | .exited => inferInstanceAs (Decidable False)
  | .failed .. => inferInstanceAs (Decidable False)

/-- The leaf a submitter is about to add. -/
def State.locking (s : State) (i : Nat) : Option Leaf :=
  match s.submitters[i]? with
  | some ⟨_, .locking leaf, _⟩ => some leaf
  | _ => none

def wakesWorker : Option Waiter → Bool
  | some (.worker _) => true
  | _ => false

/-- A submission that fills the heap wakes a worker, or leaves one that will take a leaf. -/
def Relieved (cfg : Config) (s : State) : Action → Prop
  | .lock i notified => ∀ leaf ∈ s.locking i, s.closed = false → s.heap.length + 1 = cfg.capacity →
      wakesWorker notified ∨
        ∀ item ∈ (s.push leaf).heap.head?, ∃ pc ∈ s.workers, pc.canTake cfg item
  | _ => True

instance (cfg : Config) : ∀ s a, Decidable (Relieved cfg s a)
  | s, .lock i _ => inferInstanceAs (Decidable (∀ leaf ∈ s.locking i, _))
  | _, .call _ | _, .check _ | _, .timeout _ | _, .loopTop _ | _, .pop .. | _, .tryPop ..
  | _, .emit _ | _, .close | _, .join => inferInstanceAs (Decidable True)

/-- The heap is full, and no worker will take a leaf. -/
structure Jammed (cfg : Config) (s : State) : Prop where
  isOpen : s.closed = false
  full : s.heap.length = cfg.capacity
  takers : ∀ item ∈ s.heap.head?, ∀ pc ∈ s.workers, ¬ pc.canTake cfg item

/-- What holds whatever the workers do. -/
structure Sound (cfg : Config) (s : State) : Prop where
  error : s.closed = false → s.error = none
  idle : s.closed = true → ∀ i, ¬ InCall s i
  room : s.heap.length ≤ cfg.capacity

section

variable {cfg : Config} {s t : State} {i j : Nat}

theorem capacity_pos (cfg : Config) : 0 < cfg.capacity :=
  Nat.lt_of_lt_of_le Nat.one_pos (Nat.le_max_right ..)

/-! ## Calls -/

theorem inCall_setSubmitter {before after : Submitter} (hi : s.submitters[i]? = some before)
    (k : Nat) : InCall (s.setSubmitter i after) k ↔
      if k = i then after.pc ≠ .idle else InCall s k := by
  have hlt := (List.getElem?_eq_some_iff.mp hi).1
  simp only [InCall, State.setSubmitter]
  split_ifs with hk
  · subst hk
    rw [List.getElem?_set_self hlt]
    exact ⟨fun ⟨_, heq, hne⟩ => Option.some.inj heq ▸ hne, fun hne => ⟨after, rfl, hne⟩⟩
  · rw [List.getElem?_set_ne (Ne.symm hk)]

/-- A notification ends no call and starts none. -/
theorem inCall_notifyOne {notified : Option Waiter} (hs : s.notifyOne notified = some t) (k : Nat) :
    InCall t k ↔ InCall s k := by
  rcases notifyOne_cases hs with rfl | ⟨i, submitter, hi, hwaiting, rfl⟩ | ⟨j, hj, rfl⟩
  · exact Iff.rfl
  · rw [inCall_setSubmitter hi]
    split_ifs with hk
    · subst hk
      obtain ⟨todo, pc, returned⟩ := submitter
      cases pc with
      | waiting leaf =>
          exact ⟨fun _ => ⟨_, hi, fun h => nomatch h⟩, fun _ h => nomatch h⟩
      | idle | checking | locking => cases hwaiting
    · exact Iff.rfl
  · exact Iff.rfl

theorem heap_notifyOne {notified : Option Waiter} (hs : s.notifyOne notified = some t) :
    t.heap = s.heap ∧ t.closed = s.closed ∧ t.error = s.error := by
  rcases notifyOne_cases hs with rfl | ⟨i, submitter, hi, hwaiting, rfl⟩ | ⟨j, hj, rfl⟩ <;>
    exact ⟨rfl, rfl, rfl⟩

theorem length_push (s : State) (leaf : Leaf) : (s.push leaf).heap.length = s.heap.length + 1 :=
  List.orderedInsert_length ..

/-! ## What holds whatever the workers do -/

theorem initial_sound : Sound cfg (initial cfg) where
  error _ := rfl
  idle h := nomatch h
  room := Nat.zero_le _

theorem Sound.step (h : Sound cfg s) {a : Action} (hs : Morsel.step cfg s a = some t) : Sound cfg t := by
  cases move_step hs with
  | @submitter _ i before after hi hbefore hafter ht =>
      subst ht
      refine ⟨h.error, fun hclosed => ?_, h.room⟩
      -- when the queue is closed no submitter is left to move
      have hidle : before.pc = .idle :=
        Classical.not_not.mp fun hne => h.idle hclosed i ⟨before, hi, hne⟩
      have hopen : s.closed = false := hbefore hidle
      rw [show s.closed = true from hclosed] at hopen
      cases hopen
  | @push i before after leaf notified hi hbefore hafter hopen hroom hnotify =>
      obtain ⟨hheap, hclosed, herror⟩ := heap_notifyOne hnotify
      refine ⟨fun _ => herror.trans (h.error hopen), fun hc => ?_, ?_⟩
      · rw [hclosed] at hc
        exact absurd (hopen.symm.trans hc) (by simp)
      · have hlength := length_push s leaf
        rw [hheap]
        exact hlength.trans_le hroom
  | worker hj hmove hworkers hheap hclosed herror hsubmitters =>
      refine ⟨fun hopen => ?_, fun hc k hcall => ?_, hheap.symm ▸ h.room⟩
      · exact herror.trans (h.error (hclosed.symm.trans hopen))
      · rw [InCall, hsubmitters] at hcall
        exact h.idle (hclosed.symm.trans hc) k hcall
  | take hj hpc hheap hs =>
      obtain ⟨hheap', hclosed, herror⟩ := heap_notifyOne hs
      refine ⟨fun hopen => ?_, fun hc k hcall => ?_, ?_⟩
      · exact herror.trans (h.error (hclosed.symm.trans hopen))
      · exact h.idle (hclosed.symm.trans hc) k ((inCall_notifyOne hs k).mp hcall)
      · have hroom := h.room
        rw [hheap, List.length_cons] at hroom
        rw [hheap']
        exact Nat.le_of_succ_le hroom
  | close hidle ht =>
      subst ht
      refine ⟨(fun hopen => nomatch hopen), fun _ k ⟨submitter, hk, hne⟩ => ?_, h.room⟩
      simp only [State.notifyAll, List.getElem?_map, Option.map_eq_some_iff] at hk
      obtain ⟨before, hk, rfl⟩ := hk
      have hbefore := hidle before (List.mem_of_getElem? hk)
      exact hne (by rw [Submitter.awake, hbefore]; rfl)
  | join hclosed ht =>
      subst ht
      refine ⟨fun hopen => ?_, h.idle, h.room⟩
      exact absurd ((show s.closed = false from hopen).symm.trans hclosed) (by simp)

theorem run_sound {as : List Action} (hr : Run (Morsel.step cfg) (initial cfg) as s) :
    Sound cfg s :=
  hr.invariant initial_sound fun _ _ _ h hs => h.step hs

/-! ## Jams -/

/-- A worker that goes on without a leaf will take the next one if and only if it would before. -/
theorem canTake_move {pc pc' : WorkerPc} {item : Item} (herror : s.error = none)
    (hitem : item ∈ s.heap.head?) (hmove : WorkerMove cfg s pc pc') :
    pc'.canTake cfg item ↔ pc.canTake cfg item := by
  cases hmove with
  | loopTop => exact Iff.rfl
  | stop hsome => rw [herror] at hsome; cases hsome
  | leave hheap => rw [hheap] at hitem; cases hitem
  | batch hfull => exact (or_iff_right (hfull item hitem)).symm
  | emit hleaf =>
      refine ⟨fun h => ?_, fun h l hl => h l (List.mem_cons_of_mem _ hl)⟩
      exact List.forall_mem_cons.mpr ⟨hleaf, h⟩
  | fail hleaf =>
      refine ⟨fun h => h.elim, fun h => ?_⟩
      have hnone := h _ List.mem_cons_self
      rw [hleaf] at hnone
      cases hnone
  | drained => exact ⟨fun _ _ hl => absurd hl List.not_mem_nil, fun _ => trivial⟩

/-- A jam lasts until the group is closed. -/
theorem Jammed.step (h : Jammed cfg s) (hsound : Sound cfg s) {a : Action}
    (hs : Morsel.step cfg s a = some t) : t.closed = true ∨ Jammed cfg t := by
  cases move_step hs with
  | submitter hi hbefore hafter ht =>
      subst ht
      exact .inr ⟨h.isOpen, h.full, h.takers⟩
  | push hi hbefore hafter hopen hroom hnotify =>
      rw [h.full] at hroom
      exact absurd hroom (Nat.lt_irrefl _)
  | @worker _ j pc pc' hj hmove hworkers hheap hclosed herror' hsubmitters =>
      refine .inr ⟨hclosed.trans h.isOpen, hheap ▸ h.full, ?_⟩
      intro item hitem o ho
      rw [hheap] at hitem
      rw [hworkers] at ho
      rcases List.mem_or_eq_of_mem_set ho with ho | rfl
      · exact h.takers item hitem o ho
      · rw [canTake_move (hsound.error h.isOpen) hitem hmove]
        exact h.takers item hitem pc (List.mem_of_getElem? hj)
  | @take _ j pc item heap batch notified hj hpc hheap hs =>
      have hitem : item ∈ s.heap.head? := by rw [hheap]; rfl
      refine absurd ?_ (h.takers item hitem pc (List.mem_of_getElem? hj))
      rcases hpc with rfl | ⟨held, rfl, hgrows⟩
      · trivial
      · exact .inl hgrows
  | close hidle ht => exact .inl (ht ▸ rfl)
  | join hclosed ht => exact .inl (ht ▸ hclosed)

/-- No call returns while the queue is jammed. -/
theorem Jammed.inCall_step (h : Jammed cfg s) (hsound : Sound cfg s) {a : Action}
    (hs : Morsel.step cfg s a = some t) {k : Nat} (hcall : InCall s k) : InCall t k := by
  cases move_step hs with
  | submitter hi hbefore hafter ht =>
      subst ht
      rw [inCall_setSubmitter hi]
      split_ifs
      · intro hidle
        rcases hafter hidle with hclosed | hsome
        · rw [h.isOpen] at hclosed
          cases hclosed
        · exact hsome (hsound.error h.isOpen)
      · exact hcall
  | push hi hbefore hafter hopen hroom hnotify =>
      rw [h.full] at hroom
      exact absurd hroom (Nat.lt_irrefl _)
  | worker hj hmove hworkers hheap hclosed herror hsubmitters => rwa [InCall, hsubmitters]
  | take hj hpc hheap hnotify => exact (inCall_notifyOne hnotify k).mpr hcall
  | close hidle ht =>
      obtain ⟨submitter, hk, hne⟩ := hcall
      exact absurd (hidle submitter (List.mem_of_getElem? hk)) hne
  | join hclosed ht =>
      subst ht
      exact hcall

theorem Jammed.stuck (h : Jammed cfg s) (hsound : Sound cfg s) (hcall : InCall s i) :
    Stuck cfg s i := by
  refine ⟨hcall, fun bs t hr => ?_⟩
  have hlast : (Sound cfg t ∧ Jammed cfg t) ∧ InCall t i := by
    refine Run.invariant (P := fun u => (Sound cfg u ∧ Jammed cfg u) ∧ InCall u i) hr
      ⟨⟨hsound, h⟩, hcall⟩ ?_
    rintro u a v ⟨⟨hsound, h⟩, hcall⟩ hs
    have hcall' := h.inCall_step hsound hs hcall
    have hsound' := hsound.step hs
    exact ⟨⟨hsound', (h.step hsound hs).resolve_left fun hc => hsound'.idle hc i hcall'⟩, hcall'⟩
  exact hlast.2

theorem closed_step {a : Action} (hs : Morsel.step cfg s a = some t) (hclosed : s.closed = true) :
    t.closed = true := by
  cases move_step hs with
  | submitter hi hbefore hafter ht => exact ht ▸ hclosed
  | push hi hbefore hafter hopen hroom hnotify =>
      rw [hopen] at hclosed
      cases hclosed
  | worker hj hmove hworkers hheap hclosed' herror hsubmitters => exact hclosed'.trans hclosed
  | take hj hpc hheap hnotify => exact (heap_notifyOne hnotify).2.1.trans hclosed
  | close hidle ht => exact ht ▸ rfl
  | join _ ht => exact ht ▸ hclosed

/-- Whoever is in a call after a jam, or starts one, is stuck in it. -/
theorem Jammed.stuck_after {bs : List Action} (h : Jammed cfg s) (hsound : Sound cfg s)
    (hr : Run (Morsel.step cfg) s bs t) (hcall : InCall t i) : Stuck cfg t i := by
  have hlast : Sound cfg t ∧ (t.closed = true ∨ Jammed cfg t) := by
    refine Run.invariant (P := fun u => Sound cfg u ∧ (u.closed = true ∨ Jammed cfg u)) hr
      ⟨hsound, .inr h⟩ ?_
    rintro u a v ⟨hsound, hclosed | h⟩ hs
    · exact ⟨hsound.step hs, .inl (closed_step hs hclosed)⟩
    · exact ⟨hsound.step hs, h.step hsound hs⟩
  exact (hlast.2.resolve_left fun hclosed => hlast.1.idle hclosed i hcall).stuck hlast.1 hcall

/-- A notification takes no worker's part in the work away. -/
theorem canTake_notifyOne {notified : Option Waiter} (hs : s.notifyOne notified = some t)
    {item : Item} (h : ∃ pc ∈ s.workers, pc.canTake cfg item) :
    ∃ pc ∈ t.workers, pc.canTake cfg item := by
  obtain ⟨pc, hpc, htake⟩ := h
  rcases notifyOne_cases hs with rfl | ⟨i, submitter, hi, hwaiting, rfl⟩ | ⟨j, hj, rfl⟩
  · exact ⟨pc, hpc, htake⟩
  · exact ⟨pc, hpc, htake⟩
  · exact ⟨.popping, Pool.mem_set_self hj, trivial⟩

theorem canTake_of_wakesWorker {notified : Option Waiter} (hs : s.notifyOne notified = some t)
    (hwakes : wakesWorker notified) (item : Item) : ∃ pc ∈ t.workers, pc.canTake cfg item := by
  match notified with
  | some (.worker j) =>
      simp only [State.notifyOne] at hs
      split_ifs at hs with hj
      cases hs
      exact ⟨.popping, Pool.mem_set_self hj, trivial⟩
  | some (.submitter i) => cases hwakes
  | none => cases hwakes

theorem workers_of_not_wakesWorker {notified : Option Waiter} (hs : s.notifyOne notified = some t)
    (hwakes : ¬ wakesWorker notified) : t.workers = s.workers := by
  match notified with
  | some (.worker j) => exact absurd rfl hwakes
  | some (.submitter i) =>
      simp only [State.notifyOne] at hs
      split at hs
      · split_ifs at hs
        cases hs
        rfl
      · cases hs
  | none =>
      simp only [State.notifyOne] at hs
      split_ifs at hs
      cases hs
      rfl

theorem locking_eq {before : Submitter} {leaf : Leaf} (hi : s.submitters[i]? = some before)
    (hbefore : before.pc = .locking leaf) : s.locking i = some leaf := by
  obtain ⟨todo, pc, returned⟩ := before
  simp only at hbefore
  subst hbefore
  simp only [State.locking, hi]

/-- Only a submission jams the queue, one that fills the heap and leaves no one to take a leaf. -/
theorem not_jammed_step (h : ¬ Jammed cfg s) (hsound : Sound cfg s) {a : Action}
    (hrelieved : Relieved cfg s a) (hs : Morsel.step cfg s a = some t) : ¬ Jammed cfg t := by
  intro hjam
  cases move_step hs with
  | submitter hi hbefore hafter ht =>
      subst ht
      exact h ⟨hjam.isOpen, hjam.full, hjam.takers⟩
  | @push i before after leaf notified hi hbefore hafter hopen hroom hnotify =>
      have hheap := (heap_notifyOne hnotify).1
      have hlength := length_push s leaf
      have hfull : s.heap.length + 1 = cfg.capacity := by
        rw [← hlength, ← hjam.full, hheap]
        rfl
      obtain ⟨item, hitem⟩ : ∃ item, item ∈ t.heap.head? := by
        have hne : t.heap ≠ [] := List.ne_nil_of_length_pos (hjam.full ▸ capacity_pos cfg)
        exact ⟨_, List.head?_eq_some_head hne⟩
      obtain ⟨pc, hpc, htake⟩ : ∃ pc ∈ t.workers, pc.canTake cfg item := by
        rcases hrelieved leaf (locking_eq hi hbefore) hopen hfull with hwakes | htakers
        · exact canTake_of_wakesWorker hnotify hwakes item
        · exact canTake_notifyOne hnotify (htakers item (hheap ▸ hitem))
      exact hjam.takers item hitem pc hpc htake
  | @worker _ j pc pc' hj hmove hworkers hheap hclosed herror hsubmitters =>
      refine h ⟨hclosed.symm.trans hjam.isOpen, hheap ▸ hjam.full, fun item hitem o ho => ?_⟩
      have hnone := hsound.error (hclosed.symm.trans hjam.isOpen)
      have htakers := hjam.takers item (hheap.symm ▸ hitem)
      rw [hworkers] at htakers
      rcases Pool.eq_or_mem_set hj ho with rfl | ho
      · rw [← canTake_move hnone hitem hmove]
        exact htakers pc' (Pool.mem_set_self hj)
      · exact htakers o ho
  | take hj hpc hheap hs =>
      have hroom := hsound.room
      have hfull := hjam.full
      rw [(heap_notifyOne hs).1] at hfull
      rw [hheap, List.length_cons, ← hfull] at hroom
      exact Nat.lt_irrefl _ hroom
  | close hidle ht =>
      subst ht
      exact absurd hjam.isOpen (by simp)
  | join hclosed ht =>
      subst ht
      exact absurd (hclosed.symm.trans hjam.isOpen) (by simp)

theorem jammed_of_not_relieved {a : Action} (h : ¬ Relieved cfg s a)
    (hs : Morsel.step cfg s a = some t) : Jammed cfg t := by
  cases a with
  | lock k notified =>
      simp only [Relieved, not_forall, not_or, not_exists, not_and] at h
      obtain ⟨leaf, hlocking, hopen, hfull, hwakes, item, hitem, htakers⟩ := h
      simp only [Morsel.step] at hs
      split at hs
      · rename_i hk
        rw [locking_eq hk rfl, Option.mem_some_iff] at hlocking
        subst hlocking
        rw [State.lockSubmit, hopen, if_neg Bool.false_ne_true,
          if_pos (hfull ▸ Nat.lt_succ_self _)] at hs
        obtain ⟨hheap, hclosed, -⟩ := heap_notifyOne hs
        have hworkers := workers_of_not_wakesWorker hs hwakes
        refine ⟨hclosed.trans hopen, ?_, fun next hnext pc hpc => ?_⟩
        · rw [hheap]
          exact (length_push s _).trans hfull
        · rw [hheap] at hnext
          cases Option.mem_unique hnext hitem
          exact htakers pc (hworkers ▸ hpc)
      · cases hs
  | call | check | timeout | loopTop | pop | tryPop | emit | close | join => exact absurd trivial h

/-! ## Returning -/

theorem returns_locking {todo : List Leaf} {leaf : Leaf} {returned : List (AnnResult Unit)}
    (hopen : s.closed = false) (hroom : s.heap.length < cfg.capacity)
    (hi : s.submitters[i]? = some ⟨todo, .locking leaf, returned⟩) :
    ∃ t, Reaches (Morsel.step cfg) s t ∧ ¬ InCall t i := by
  obtain ⟨notified, t, hnotify⟩ := exists_notifyOne
    ((s.push leaf).setSubmitter i ⟨todo, .idle, returned ++ [.ok ()]⟩)
  have hstep : Morsel.step cfg s (.lock i notified) = some t := by
    simp only [Morsel.step, hi, State.lockSubmit, hopen, Bool.false_eq_true, if_false, hroom,
      if_true, hnotify]
  refine ⟨t, .single hstep, fun hcall => ?_⟩
  rw [inCall_notifyOne hnotify, inCall_setSubmitter (s := s.push leaf) hi, if_pos rfl] at hcall
  exact hcall rfl

theorem getElem?_setSubmitter {before : Submitter} (hi : s.submitters[i]? = some before)
    (after : Submitter) : (s.setSubmitter i after).submitters[i]? = some after :=
  List.getElem?_set_self (List.getElem?_eq_some_iff.mp hi).1

theorem returns_checking {todo : List Leaf} {leaf : Leaf} {returned : List (AnnResult Unit)}
    (hopen : s.closed = false) (herror : s.error = none) (hroom : s.heap.length < cfg.capacity)
    (hi : s.submitters[i]? = some ⟨todo, .checking leaf, returned⟩) :
    ∃ t, Reaches (Morsel.step cfg) s t ∧ ¬ InCall t i := by
  have hstep : Morsel.step cfg s (.check i) =
      some (s.setSubmitter i ⟨todo, .locking leaf, returned⟩) := by
    simp only [Morsel.step, hi, State.checkError, herror]
  obtain ⟨t, ht, hidle⟩ : ∃ t, Reaches (Morsel.step cfg) _ t ∧ ¬ InCall t i :=
    returns_locking (s := s.setSubmitter i ⟨todo, .locking leaf, returned⟩) hopen hroom
      (getElem?_setSubmitter hi _)
  exact ⟨t, .head hstep ht, hidle⟩

/-- Where there is room, a submitter returns; it need not wait for a notification. -/
theorem returns_of_room (hopen : s.closed = false) (herror : s.error = none)
    (hroom : s.heap.length < cfg.capacity) (i : Nat) :
    ∃ t, Reaches (Morsel.step cfg) s t ∧ ¬ InCall t i := by
  by_cases hcall : InCall s i
  · obtain ⟨⟨todo, pc, returned⟩, hi, hbusy⟩ := hcall
    cases pc with
    | idle => exact absurd rfl hbusy
    | checking leaf => exact returns_checking hopen herror hroom hi
    | locking leaf => exact returns_locking hopen hroom hi
    | waiting leaf =>
        have hstep : Morsel.step cfg s (.timeout i) =
            some (s.setSubmitter i ⟨todo, .checking leaf, returned⟩) := by
          simp only [Morsel.step, hi]
        obtain ⟨t, ht, hidle⟩ : ∃ t, Reaches (Morsel.step cfg) _ t ∧ ¬ InCall t i :=
          returns_checking (s := s.setSubmitter i ⟨todo, .checking leaf, returned⟩) hopen herror
            hroom (getElem?_setSubmitter hi _)
        exact ⟨t, .head hstep ht, hidle⟩
  · exact ⟨s, .refl s, hcall⟩

/-- A worker has made room, and nothing else has happened that submitters could see. -/
structure RoomMade (s t : State) : Prop where
  isOpen : t.closed = false
  error : t.error = none
  room : t.heap.length < s.heap.length

theorem RoomMade.of_step {a : Action} (hs : Morsel.step cfg s a = some t)
    (hheap : t.heap = s.heap) (h : ∃ u, Reaches (Morsel.step cfg) t u ∧ RoomMade t u) :
    ∃ u, Reaches (Morsel.step cfg) s u ∧ RoomMade s u := by
  obtain ⟨u, hu, hmade⟩ := h
  exact ⟨u, .head hs hu, hmade.isOpen, hmade.error, hheap ▸ hmade.room⟩

theorem roomMade_notifyOne {item : Item} {heap : List Item} {pc : WorkerPc}
    {notified : Option Waiter} (hopen : s.closed = false) (herror : s.error = none)
    (hheap : s.heap = item :: heap)
    (hs : ({ s with heap }.setWorker j pc).notifyOne notified = some t) : RoomMade s t := by
  obtain ⟨hheap', hclosed, herror'⟩ := heap_notifyOne hs
  refine ⟨hclosed.trans hopen, herror'.trans herror, ?_⟩
  rw [hheap', hheap]
  exact Nat.lt_succ_self _

theorem popping_makesRoom (hopen : s.closed = false) (herror : s.error = none)
    (hheap : s.heap ≠ []) (hj : s.workers[j]? = some .popping) :
    ∃ t, Reaches (Morsel.step cfg) s t ∧ RoomMade s t := by
  cases hcases : s.heap with
  | nil => exact absurd hcases hheap
  | cons item heap =>
      obtain ⟨notified, t, hnotify⟩ :=
        exists_notifyOne ({ s with heap }.setWorker j (.batching [item.leaf]))
      have hstep : Morsel.step cfg s (.pop j notified) = some t := by
        simp only [Morsel.step, hj, State.lockPop, hcases, hnotify]
      exact ⟨t, .single hstep, roomMade_notifyOne hopen herror hcases hnotify⟩

theorem getElem?_setWorker {pc : WorkerPc} (hj : s.workers[j]? = some pc) (pc' : WorkerPc) :
    (s.setWorker j pc').workers[j]? = some pc' :=
  List.getElem?_set_self (List.getElem?_eq_some_iff.mp hj).1

theorem top_makesRoom (hopen : s.closed = false) (herror : s.error = none)
    (hheap : s.heap ≠ []) (hj : s.workers[j]? = some .top) :
    ∃ t, Reaches (Morsel.step cfg) s t ∧ RoomMade s t := by
  have hstep : Morsel.step cfg s (.loopTop j) = some (s.setWorker j .popping) := by
    simp only [Morsel.step, hj, State.checkError, herror]
  exact RoomMade.of_step hstep rfl (popping_makesRoom hopen herror hheap (getElem?_setWorker hj _))

/-- A worker with a batch that does not fail emits it, and pops again. -/
theorem emitting_makesRoom {batch rest : List Leaf} (hopen : s.closed = false)
    (herror : s.error = none) (hheap : s.heap ≠ [])
    (hj : s.workers[j]? = some (.emitting batch rest))
    (hsucceeds : ∀ leaf ∈ rest, cfg.fails leaf = none) :
    ∃ t, Reaches (Morsel.step cfg) s t ∧ RoomMade s t := by
  have hstep : Morsel.step cfg s (.emit j) = some (s.emitNext cfg j batch rest) := by
    simp only [Morsel.step, hj]
  induction rest generalizing s with
  | nil => exact RoomMade.of_step hstep rfl (top_makesRoom hopen herror hheap (getElem?_setWorker hj _))
  | cons leaf rest ih =>
      obtain ⟨hleaf, hrest⟩ := List.forall_mem_cons.mp hsucceeds
      simp only [State.emitNext, hleaf] at hstep
      refine RoomMade.of_step hstep rfl (ih hopen herror hheap (getElem?_setWorker hj _) hrest ?_)
      simp only [Morsel.step, getElem?_setWorker (s := { s with
        emitted := s.emitted ++ [(j, leaf)] }) hj]

theorem canTake_makesRoom {item : Item} {pc : WorkerPc} (hopen : s.closed = false)
    (herror : s.error = none) (hitem : item ∈ s.heap.head?) (hj : s.workers[j]? = some pc)
    (htake : pc.canTake cfg item) : ∃ t, Reaches (Morsel.step cfg) s t ∧ RoomMade s t := by
  obtain ⟨heap, hheap⟩ : ∃ heap, s.heap = item :: heap := List.head?_eq_some_iff.mp hitem
  have hne : s.heap ≠ [] := by simp [hheap]
  cases pc with
  | top => exact top_makesRoom hopen herror hne hj
  | popping => exact popping_makesRoom hopen herror hne hj
  | emitting batch rest => exact emitting_makesRoom hopen herror hne hj htake
  | batching batch =>
      by_cases hgrows : grows cfg.policy batch item
      · obtain ⟨notified, t, hnotify⟩ :=
          exists_notifyOne ({ s with heap }.setWorker j (.batching (batch ++ [item.leaf])))
        have hstep : Morsel.step cfg s (.tryPop j notified) = some t := by
          simp only [Morsel.step, hj, State.lockTryPop, hheap]
          exact (if_pos hgrows).trans hnotify
        exact ⟨t, .single hstep, roomMade_notifyOne hopen herror hheap hnotify⟩
      · have hstep : Morsel.step cfg s (.tryPop j none) =
            some (s.setWorker j (.emitting batch batch)) := by
          simp only [Morsel.step, hj, State.lockTryPop, hheap]
          exact (if_neg hgrows).trans (if_pos trivial)
        exact RoomMade.of_step hstep rfl (emitting_makesRoom hopen herror hne (getElem?_setWorker hj _)
          (htake.resolve_left hgrows))
  | sleeping | exited | failed => exact htake.elim

/-- Unless the queue is jammed, every submitter can return. -/
theorem not_stuck (hsound : Sound cfg s) (h : ¬ Jammed cfg s) (i : Nat) : ¬ Stuck cfg s i := by
  rintro ⟨hcall, hforever⟩
  have hopen : s.closed = false := by
    rw [← Bool.not_eq_true]
    exact fun hclosed => hsound.idle hclosed i hcall
  have herror := hsound.error hopen
  obtain ⟨t, ⟨bs, hbs⟩, hidle⟩ : ∃ t, Reaches (Morsel.step cfg) s t ∧ ¬ InCall t i := by
    by_cases hroom : s.heap.length < cfg.capacity
    · exact returns_of_room hopen herror hroom i
    · have hfull : s.heap.length = cfg.capacity :=
        Nat.le_antisymm hsound.room (Nat.le_of_not_lt hroom)
      obtain ⟨item, hitem, pc, hpc, htake⟩ :
          ∃ item ∈ s.heap.head?, ∃ pc ∈ s.workers, pc.canTake cfg item := by
        refine Classical.not_not.mp fun hnone => h ⟨hopen, hfull, fun item hitem pc hpc htake => ?_⟩
        exact hnone ⟨item, hitem, pc, hpc, htake⟩
      obtain ⟨j, hj⟩ := List.mem_iff_getElem?.mp hpc
      obtain ⟨u, hu, hmade⟩ := canTake_makesRoom hopen herror hitem hj htake
      obtain ⟨t, ht, hidle⟩ := returns_of_room hmade.isOpen hmade.error (hfull ▸ hmade.room) i
      exact ⟨t, hu.trans ht, hidle⟩
  exact hidle (hforever bs t hbs)

theorem run_not_jammed {as : List Action}
    (hr : Run (guarded (Relieved cfg) (Morsel.step cfg)) (initial cfg) as s) :
    Sound cfg s ∧ ¬ Jammed cfg s := by
  refine Run.invariant (P := fun u => Sound cfg u ∧ ¬ Jammed cfg u) hr ⟨initial_sound, ?_⟩ ?_
  · intro hjam
    have hfull : 0 = cfg.capacity := hjam.full
    exact Nat.ne_of_lt (capacity_pos cfg) hfull
  · rintro u a v ⟨hsound, h⟩ hs
    obtain ⟨hrelieved, hs⟩ := guarded_eq_some.mp hs
    exact ⟨hsound.step hs, not_jammed_step h hsound hrelieved hs⟩

/-- As long as every submission that fills the heap wakes a worker or leaves one that will take a
leaf, every submitter can return. After one that does neither, no call returns that is in progress
or still to come. -/
theorem submits_return_while_relieved {as : List Action}
    (hr : Run (guarded (Relieved cfg) (Morsel.step cfg)) (initial cfg) as s) :
    (∀ i, ¬ Stuck cfg s i) ∧
    ∀ a t, Morsel.step cfg s a = some t → ¬ Relieved cfg s a →
      ∀ bs u, Run (Morsel.step cfg) t bs u → ∀ i, InCall u i → Stuck cfg u i := by
  obtain ⟨hsound, hjam⟩ := run_not_jammed hr
  refine ⟨not_stuck hsound hjam, fun a t hs hrelieved bs u hbs i hcall => ?_⟩
  exact (jammed_of_not_relieved hrelieved hs).stuck_after (hsound.step hs) hbs hcall

end

/-- The run of two workers fills the heap twice: a worker is about to pop, and one is woken. -/
theorem submits_return_while_relieved_two :
    ∃ s, Run (guarded (Relieved twoWorkers) (Morsel.step twoWorkers)) (initial twoWorkers)
      twoWorkersRun s ∧ ∀ i, ¬ Stuck twoWorkers s i := by
  have hfollow : (follow (guarded (Relieved twoWorkers) (Morsel.step twoWorkers))
      (initial twoWorkers) twoWorkersRun).map (fun s => s.closed) = some true := by
    decide +kernel
  obtain ⟨s, hr, -⟩ := exists_run_of_follow hfollow
  exact ⟨s, hr, (submits_return_while_relieved hr).1⟩

/-! ## Two ways to get stuck -/

/-- Three leaves of one point each, by two submitters; the heap has room for one. -/
def threeLeaves (fails : Leaf → Option AnnError) : Config where
  policy := ⟨1, 1, 1, 100, 1000, by decide⟩
  submissions := [[[1], [2]], [[3]]]
  fails

/-- The only worker fails on its first leaf. -/
def failingWorker : Config := threeLeaves fun _ => some (.index "leaf cannot be processed")

def failingWorkerRun : List Action :=
  [.call 0, .check 0, .lock 0 none, .loopTop 0, .pop 0 none, .tryPop 0 none, .emit 0,
    .call 0, .check 0, .lock 0 none, .call 1]

def sleepingWorker : Config := threeLeaves fun _ => none

/-- Both submitters wait when the worker makes room for the first of them and goes to sleep; the
notification of that submitter's leaf wakes the other submitter. -/
def sleepingWorkerRun : List Action :=
  [.call 0, .check 0, .lock 0 none, .call 0, .check 0, .lock 0 none, .call 1, .check 1,
    .lock 1 none, .loopTop 0, .pop 0 (some (.submitter 0)), .tryPop 0 none, .emit 0, .emit 0,
    .loopTop 0, .pop 0 none, .check 0, .lock 0 (some (.submitter 1))]

instance (cfg : Config) (s : State) : Decidable (Jammed cfg s) :=
  decidable_of_iff (s.closed = false ∧ s.heap.length = cfg.capacity ∧
    ∀ item ∈ s.heap.head?, ∀ pc ∈ s.workers, ¬ pc.canTake cfg item)
    ⟨fun ⟨hopen, hfull, htakers⟩ => ⟨hopen, hfull, htakers⟩, fun h => ⟨h.isOpen, h.full, h.takers⟩⟩

theorem stuck_of_follow {cfg : Config} {as : List Action} {i : Nat} (leaf : Leaf)
    (hfollow : (follow (Morsel.step cfg) (initial cfg) as).map
      (fun s => (decide (Jammed cfg s), s.submitters[i]?.map Submitter.pc)) =
        some (true, some (.checking leaf))) :
    ∃ s, Run (Morsel.step cfg) (initial cfg) as s ∧ Stuck cfg s i := by
  obtain ⟨s, hr, hs⟩ := exists_run_of_follow hfollow
  rw [Prod.mk.injEq] at hs
  obtain ⟨submitter, hi, hpc⟩ := Option.map_eq_some_iff.mp hs.2
  refine ⟨s, hr, (of_decide_eq_true hs.1).stuck (run_sound hr) ⟨submitter, hi, ?_⟩⟩
  rw [hpc]
  exact fun h => nomatch h

/-- A submitter is stuck once the worker has failed, and, where no leaf fails, once a notification
has gone to the wrong side. -/
theorem submitter_stuck :
    (∃ s, Run (Morsel.step failingWorker) (initial failingWorker) failingWorkerRun s ∧
      Stuck failingWorker s 1) ∧
    ∃ s, Run (Morsel.step sleepingWorker) (initial sleepingWorker) sleepingWorkerRun s ∧
      Stuck sleepingWorker s 1 :=
  ⟨stuck_of_follow [3] (by decide +kernel), stuck_of_follow [3] (by decide +kernel)⟩

end Morsel

end ForgeANN
