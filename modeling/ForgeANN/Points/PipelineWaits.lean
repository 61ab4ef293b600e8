-- SUMMARY: A worker of the point pipeline that waits for budget is not forgotten.
import ForgeANN.Points.PipelineRuns

/-!
# Waiting for budget

A release wakes one of the workers that wait. That is enough: what is taken and
what the woken workers are about to take leave no room for those that sleep on.
It rests on the sizes of the batches, which are all the same but for the last.
-/
namespace ForgeANN

open Lib

namespace PointPipeline

variable {κ ρ : Type} {call : Call} {reader : Reader κ ρ} {s t : State κ ρ} {a : Action}

def WorkerPc.wakes : WorkerPc ρ → List Nat
  | .woken seq => [seq]
  | _ => []

/-- What the woken workers are about to ask for. -/
def State.wokenBytes (call : Call) (s : State κ ρ) : Nat :=
  weigh call.bytes (s.workers.flatMap WorkerPc.wakes)

/-- Nobody sleeps for whom there is room. -/
def Attended (call : Call) (s : State κ ρ) : Prop :=
  ∀ seq, .parked seq ∈ s.workers →
    call.capacity < s.used + s.wokenBytes call + call.bytes seq ∧
      call.capacity < call.capacity / call.fullBytes * call.fullBytes + call.bytes seq

/-! ## The last batch -/

/-- Only the last batch is not full. -/
theorem last_of_bytes_lt {seq : Nat} (h : call.bytes seq < call.fullBytes) :
    call.batchCount ≤ seq + 1 := by
  by_contra hlt
  exact Nat.ne_of_lt h (call.bytes_eq (Nat.lt_of_not_le hlt))

/-- As long as the last batch has no permit, the permits are for full batches. -/
theorem Books.used_eq (h : Books call s) {seq : Nat} (hseq : seq < call.batchCount)
    (hlast : call.bytes seq < call.fullBytes) (hnot : seq ∉ s.permits) :
    s.used = s.permits.length * call.fullBytes := by
  rw [h.used]
  apply weigh_eq_mul
  intro other hother
  apply call.bytes_eq
  have hbelow := h.below other (List.mem_append_right _ hother)
  have hend := last_of_bytes_lt hlast
  have hne : other ≠ seq := fun heq => hnot (heq ▸ hother)
  omega

/-- What waits is a batch of the call without a permit. -/
theorem Books.waits (h : Books call s) {pc : WorkerPc ρ} {seq : Nat} (hpc : pc ∈ s.workers)
    (hseq : seq ∈ pc.waits) : seq < call.batchCount ∧ seq ∉ s.permits :=
  ⟨h.below seq (List.mem_append_left _ (mem_waiting call hpc hseq)), h.first_not_mem hpc hseq⟩

/-- A batch that does not fit now does not fit beside full batches. -/
theorem Books.full (h : Books call s) {pc : WorkerPc ρ} {seq : Nat} (hpc : pc ∈ s.workers)
    (hseq : seq ∈ pc.waits) (hfull : call.capacity < s.used + call.bytes seq) :
    call.capacity < call.capacity / call.fullBytes * call.fullBytes + call.bytes seq := by
  by_cases hlast : call.bytes seq < call.fullBytes
  · obtain ⟨hbelow, hnot⟩ := h.waits hpc hseq
    have hused := h.used_eq hbelow hlast hnot
    have hfits : s.permits.length ≤ call.capacity / call.fullBytes := by
      rw [Nat.le_div_iff_mul_le call.fullBytes_pos, ← hused]
      exact h.fits
    have hmul := Nat.mul_le_mul_right call.fullBytes hfits
    omega
  · have hdiv := Nat.lt_div_mul_add call.fullBytes_pos (a := call.capacity)
    omega

/-- A full batch that does not fit leaves no room for the last one either. -/
theorem Books.full_last (h : Books call s) {pc : WorkerPc ρ} {seq last : Nat} (hpc : pc ∈ s.workers)
    (hseq : last ∈ pc.waits) (hlast : call.bytes last < call.fullBytes)
    (hbeside : call.capacity < call.capacity / call.fullBytes * call.fullBytes + call.bytes last)
    (hfull : call.capacity < s.used + call.bytes seq) :
    call.capacity < s.used + call.bytes last := by
  obtain ⟨hbelow, hnot⟩ := h.waits hpc hseq
  have hused := h.used_eq hbelow hlast hnot
  have hle := call.bytes_le seq
  have hcount : call.capacity / call.fullBytes < s.permits.length + 1 := by
    rw [Nat.div_lt_iff_lt_mul call.fullBytes_pos, Nat.succ_mul, ← hused]
    omega
  have hmul := Nat.mul_le_mul_right call.fullBytes (Nat.le_of_lt_succ hcount)
  omega

/-! ## Steps -/

/-- Nobody goes to sleep, and nothing is given back. -/
theorem Attended.of_le (h : Attended call s)
    (hparked : ∀ seq, .parked seq ∈ t.workers → .parked seq ∈ s.workers)
    (hle : s.used + s.wokenBytes call ≤ t.used + t.wokenBytes call) : Attended call t := by
  intro seq hseq
  obtain ⟨hfull, hbeside⟩ := h seq (hparked seq hseq)
  exact ⟨by omega, hbeside⟩

theorem wokenBytes_set (call : Call) {j : Nat} {pc : WorkerPc ρ} (pc' : WorkerPc ρ)
    (hj : s.workers[j]? = some pc) :
    (s.setWorker j pc').wokenBytes call + weigh call.bytes pc.wakes =
      s.wokenBytes call + weigh call.bytes pc'.wakes := by
  have hperm : ((s.workers.set j pc').flatMap WorkerPc.wakes ++ pc.wakes).Perm
      (s.workers.flatMap WorkerPc.wakes ++ pc'.wakes) := Pool.flatMap_set_perm _ hj
  rw [State.wokenBytes, State.wokenBytes, ← weigh_append, ← weigh_append]
  exact weigh_perm hperm

/-- A worker that neither sleeps nor was woken goes on. -/
theorem Attended.setWorker (h : Attended call s) {j : Nat} {pc pc' : WorkerPc ρ} {jobs : List Nat}
    {cache : κ} {ready : List (AnnResult (Nat × List F32))} (hj : s.workers[j]? = some pc)
    (hwakes : pc.wakes = []) (hne : ∀ seq, .parked seq ≠ pc') :
    Attended call ({ s with jobs, cache, ready }.setWorker j pc') := by
  refine h.of_le (fun seq hseq => mem_setWorker hseq (hne seq)) ?_
  have hset := wokenBytes_set call pc' hj
  rw [hwakes, weigh_nil] at hset
  simp only [State.setWorker, State.wokenBytes] at hset ⊢
  omega

/-- A worker goes to sleep. -/
theorem Attended.park (h : Attended call s) (hbooks : Books call s) {j seq : Nat} {pc : WorkerPc ρ}
    (hj : s.workers[j]? = some pc) (hpc : pc.asks = some seq)
    (hfull : call.capacity < s.used + call.bytes seq) :
    Attended call (s.setWorker j (.parked seq)) := by
  have hmem := List.mem_of_getElem? hj
  have hwaits : seq ∈ pc.waits := by
    rw [(WorkerPc.asks_eq hpc).1]
    exact List.mem_cons_self
  have hused : (s.setWorker j (.parked seq)).used = s.used := rfl
  intro other hother
  rw [hused]
  by_cases heq : other = seq
  · subst heq
    exact ⟨by omega, hbooks.full hmem hwaits hfull⟩
  · have hparked : .parked other ∈ s.workers :=
      mem_setWorker hother fun heq' => heq (WorkerPc.parked.inj heq')
    obtain ⟨-, hbeside⟩ := h other hparked
    refine ⟨?_, hbeside⟩
    -- the worker that sleeps again no longer counts among the woken ones
    by_cases hle : call.bytes seq ≤ call.bytes other
    · omega
    · have hlast : call.bytes other < call.fullBytes :=
        Nat.lt_of_lt_of_le (Nat.lt_of_not_le hle) (call.bytes_le seq)
      have hnow := hbooks.full_last hparked List.mem_cons_self hlast hbeside hfull
      omega

/-- A worker takes its permit. -/
theorem Attended.acquire (h : Attended call s) {j seq : Nat} {pc : WorkerPc ρ} {r : ρ}
    (hj : s.workers[j]? = some pc) (hpc : pc.asks = some seq) :
    Attended call ({ s with used := s.used + call.bytes seq }.setWorker j (.reading seq r)) := by
  refine h.of_le (fun other hother => mem_setWorker hother nofun) ?_
  have hset := wokenBytes_set call (.reading seq r) hj
  have hwakes : weigh call.bytes pc.wakes ≤ call.bytes seq := by
    cases pc with
    | acquiring => exact Nat.zero_le _
    | woken other =>
        cases hpc
        simp only [WorkerPc.wakes, weigh_cons, weigh_nil]
        omega
    | receiving | parked | reading | sending | stopped => cases hpc
  simp only [State.setWorker, State.wokenBytes] at hset ⊢
  omega

/-- Bytes come back, and one of those that wait is woken. -/
theorem Releases.attended {seq : Nat} (h : Releases s (call.bytes seq) t) (hs : Attended call s)
    (hnodup : (s.workers.flatMap WorkerPc.waits).Nodup)
    (hbelow : ∀ seq ∈ s.workers.flatMap WorkerPc.waits, seq < call.batchCount) :
    Attended call t := by
  cases h with
  | alone hnone => exact fun other hother => absurd hother (hnone other)
  | @wakes j woken hj =>
      intro other hother
      have hparked : .parked other ∈ s.workers := mem_setWorker hother nofun
      have hmem := List.mem_of_getElem? hj
      obtain ⟨hfull, hbeside⟩ := hs other hparked
      refine ⟨?_, hbeside⟩
      have hwoken := (hs woken hmem).1
      have hne : other ≠ woken := by
        obtain ⟨rest, hrest, hset⟩ := Pool.exists_rest hj
        have hin : .parked other ∈ rest :=
          (List.mem_cons.mp ((hset (.woken woken)).mem_iff.mp hother)).resolve_left nofun
        have hperm := (hrest.flatMap_right WorkerPc.waits).nodup_iff.mp hnodup
        rw [List.flatMap_cons] at hperm
        rintro rfl
        exact (List.nodup_append.mp hperm).2.2 other List.mem_cons_self other
          (List.mem_flatMap.mpr ⟨_, hin, List.mem_cons_self⟩) rfl
      have hset := wokenBytes_set call (.woken woken) hj
      simp only [State.setWorker, State.wokenBytes, WorkerPc.wakes, weigh_cons, weigh_nil] at hset
      simp only [State.setWorker, State.wokenBytes] at hfull hwoken ⊢
      by_cases hle : call.bytes seq ≤ call.bytes woken
      · omega
      · -- the one woken has the last batch, the other one a full one
        have hlast := last_of_bytes_lt
          (Nat.lt_of_lt_of_le (Nat.lt_of_not_le hle) (call.bytes_le seq))
        have hother := hbelow other (List.mem_flatMap.mpr ⟨_, hparked, List.mem_cons_self⟩)
        have hfullOther : call.bytes other = call.fullBytes := by
          apply call.bytes_eq
          have hlt := hbelow woken (List.mem_flatMap.mpr ⟨_, hmem, List.mem_cons_self⟩)
          omega
        have hseq := call.bytes_le seq
        omega

theorem waits_nodup (h : Books call s) : (s.workers.flatMap WorkerPc.waits).Nodup :=
  (List.nodup_append.mp (List.nodup_append.mp h.waiting_nodup).2.1).2.1

theorem waits_below (h : Books call s) :
    ∀ seq ∈ s.workers.flatMap WorkerPc.waits, seq < call.batchCount :=
  fun seq hseq => h.below seq (List.mem_append_left _
    (List.mem_append_right _ (List.mem_append_right _ hseq)))

theorem Attended.release (h : Attended call s) (hbooks : Books call s) {u : State κ ρ} {seq : Nat}
    (hrelease : Releases u (call.bytes seq) t) (hworkers : u.workers = s.workers)
    (hused : u.used = s.used) : Attended call t := by
  refine hrelease.attended ?_ (hworkers ▸ waits_nodup hbooks) (hworkers ▸ waits_below hbooks)
  rw [Attended, State.wokenBytes, hworkers, hused]
  exact h

theorem Attended.of_move (h : Attended call s) (hbooks : Books call s)
    (hmove : Move call reader s a t) : Attended call t := by
  cases hmove with
  | produce | finish | receive | receiveError | ended | dropped => exact h
  | take hj hjobs => exact h.setWorker hj rfl nofun
  | stop hj hjobs hend => exact h.setWorker hj rfl nofun
  | park hj hpc hfull => exact h.park hbooks hj hpc hfull
  | acquire hj hpc hfits => exact h.acquire hj hpc
  | read hj hread => exact h.setWorker hj rfl nofun
  | loaded hj hread => exact h.setWorker hj rfl nofun
  | send hj hroom => exact h.setWorker hj rfl nofun
  | @fault j seq r err wake t hj hrelease =>
      have hwaits := flatMap_workers_perm WorkerPc.waits (.sending (.error err)) hj rfl
      refine hrelease.attended (h.setWorker hj rfl nofun) (hwaits.nodup_iff.mp (waits_nodup hbooks)) ?_
      exact fun seq hseq => waits_below hbooks seq (hwaits.mem_iff.mpr hseq)
  | consume hc hne htake hrelease => exact h.release hbooks hrelease rfl rfl
  | fails hc htake hrelease => exact h.release hbooks hrelease rfl rfl
  | drop hc hdrop hrelease => exact h.release hbooks hrelease rfl rfl
  | join hc hreturned hall hend =>
      intro seq hseq
      cases hall _ hseq

theorem Attended.of_reaches {cache : κ}
    (h : Reaches (step call reader) (initial call cache) s) : Attended call s := by
  have hboth : Books call s ∧ Attended call s := by
    apply h.invariant (P := fun s => Books call s ∧ Attended call s)
    · refine ⟨Books.initial cache, fun seq hseq => ?_⟩
      cases List.eq_of_mem_replicate hseq
    · rintro s a t ⟨hbooks, hattended⟩ hs
      exact ⟨hbooks.step hs, hattended.of_move hbooks (move_of_step hs)⟩
  exact hboth.2

end PointPipeline

end ForgeANN
