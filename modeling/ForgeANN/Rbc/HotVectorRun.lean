-- SUMMARY: Hot vector runs on worker threads, and the temporary bytes they reserve from the I/O plan budget.
import ForgeANN.Common.Basic
import ForgeANN.Lib.Pool

/-!
# Hot vector runs

A hot vector run reserves temporary bytes by compare and swap, writes its vectors
to a file, works on them and removes the file. The reservation is released by the
caller, behind a `?`: a run that fails ends with its bytes still reserved.
-/
namespace ForgeANN

open Lib

/-! ## The budget -/

/-- The atomics of `IoPlanBudgetState`. -/
structure IoPlanBudgetState where
  tempBudgetBytes : UInt64
  tempReservedBytes : UInt64
  tempWrittenBytes : UInt64
deriving DecidableEq, Repr

namespace IoPlanBudgetState

def new (tempBudgetBytes : UInt64) : IoPlanBudgetState := ⟨tempBudgetBytes, 0, 0⟩

/-- What `try_reserve_temp` would store over `current`, if that is within the budget. -/
def nextReserved (state : IoPlanBudgetState) (current bytes : UInt64) : Option UInt64 :=
  if current.toNat + bytes.toNat < 2 ^ 64 ∧ current + bytes ≤ state.tempBudgetBytes then
    some (current + bytes)
  else none

/-- `fetch_sub`, which wraps. -/
def releaseTemp (state : IoPlanBudgetState) (bytes : UInt64) : IoPlanBudgetState :=
  { state with tempReservedBytes := state.tempReservedBytes - bytes }

def recordTempWritten (state : IoPlanBudgetState) (bytes : UInt64) : IoPlanBudgetState :=
  { state with tempWrittenBytes := state.tempWrittenBytes + bytes }

end IoPlanBudgetState

/-! ## One run -/

/-- What `fs::remove_file` comes to. -/
inductive RemoveFile where
  | removed
  | notFound
  | failed (cleanup : String)
deriving DecidableEq, Repr

/-- What happens to a run on its way: the file is written, the nested work reads it back, and it is
removed. -/
structure VectorRunOutcome where
  path : String
  materialize : AnnResult Nat
  child : AnnResult Unit
  removal : RemoveFile

/-- The first error wins. -/
def cleanupVectorRunFile (path : String) (removal : RemoveFile) (result : AnnResult Nat) :
    AnnResult Nat :=
  match result, removal with
  | .ok value, .removed => .ok value
  | .ok value, .notFound => .ok value
  | .ok _, .failed cleanup =>
      .error (.index s!"Failed to remove vector-run temp file {path}: {cleanup}")
  | .error primary, _ => .error primary

/-- The bytes written. Where the file cannot be written, there is no cleanup. -/
def recurseChildPointsVectorRun (outcome : VectorRunOutcome) : AnnResult Nat := do
  let tempBytes ← outcome.materialize
  cleanupVectorRunFile outcome.path outcome.removal (outcome.child.map fun _ => tempBytes)

/-- Nothing goes wrong. -/
def VectorRunOutcome.Succeeds (outcome : VectorRunOutcome) : Prop :=
  outcome.materialize.isOk ∧ outcome.child.isOk ∧
    (outcome.removal = .removed ∨ outcome.removal = .notFound)

instance (outcome : VectorRunOutcome) : Decidable outcome.Succeeds :=
  inferInstanceAs (Decidable (_ ∧ _ ∧ (_ ∨ _)))

/-- `points.len() * (dim * 4)`, saturating. -/
def tempBytesEstimate (numPoints dim : Nat) : UInt64 :=
  UInt64.ofNat (min (numPoints * min (dim * 4) (2 ^ 64 - 1)) (2 ^ 64 - 1))

/-- Where the thread of a run is. -/
inductive HotRun where
  | start (bytes : UInt64)
  | reserving (bytes current : UInt64)
  /-- The budget was exceeded, and the node goes the external way. -/
  | external
  | running (bytes : UInt64)
  | recording (bytes : UInt64) (tempBytes : Nat)
  | releasing (bytes : UInt64)
  | finished
  /-- The error was passed on, with the bytes still reserved. -/
  | failed (bytes : UInt64) (err : AnnError)
deriving DecidableEq

/-- What a thread can do next. -/
inductive HotRunMove where
  | load
  /-- `compare_exchange_weak`, which may fail for no reason. -/
  | compareExchange (spurious : Bool)
  /-- The nested work comes to hot runs of its own, told by points and dimension. -/
  | nest (nodes : List (Nat × Nat))
  | finish (outcome : VectorRunOutcome)
  | record
  | release

def hotRunStep : Program IoPlanBudgetState HotRun HotRunMove := fun state run move =>
  match run, move with
  | .start bytes, .load =>
      if bytes = 0 then some (state, .running bytes, [])
      else some (state, .reserving bytes state.tempReservedBytes, [])
  | .reserving bytes current, .compareExchange spurious =>
      match state.nextReserved current bytes with
      | none => some (state, .external, [])
      | some next =>
          if state.tempReservedBytes = current ∧ spurious = false then
            some ({ state with tempReservedBytes := next }, .running bytes, [])
          else some (state, .reserving bytes state.tempReservedBytes, [])
  | .running bytes, .nest nodes =>
      some (state, .running bytes, nodes.map fun node => .start (tempBytesEstimate node.1 node.2))
  | .running bytes, .finish outcome =>
      match recurseChildPointsVectorRun outcome with
      | .ok tempBytes => some (state, .recording bytes tempBytes, [])
      | .error err => some (state, .failed bytes err, [])
  | .recording bytes tempBytes, .record =>
      some (state.recordTempWritten (UInt64.ofNat tempBytes), .releasing bytes, [])
  | .releasing bytes, .release => some (state.releaseTemp bytes, .finished, [])
  | _, _ => none

/-- The worker threads before their runs, told by points and dimension. -/
def hotRuns (tempBudgetBytes : UInt64) (nodes : List (Nat × Nat)) :
    Pool IoPlanBudgetState HotRun where
  shared := .new tempBudgetBytes
  threads := nodes.map fun node => .start (tempBytesEstimate node.1 node.2)

/-! ## Reservations -/

namespace HotRun

/-- The live reservation of a run. -/
def live : HotRun → Nat
  | .running bytes => bytes.toNat
  | .recording bytes _ => bytes.toNat
  | .releasing bytes => bytes.toNat
  | _ => 0

/-- What a run that has ended left reserved. -/
def unreleased : HotRun → Nat
  | .failed bytes _ => bytes.toNat
  | _ => 0

def held (run : HotRun) : Nat := run.live + run.unreleased

end HotRun

/-- The reserved bytes are the live reservations, within the budget: whatever an ended run reserved,
it has released. -/
structure Conserved (pool : Pool IoPlanBudgetState HotRun) : Prop where
  reserved_eq : pool.shared.tempReservedBytes.toNat = pool.total HotRun.live
  within : pool.shared.tempReservedBytes ≤ pool.shared.tempBudgetBytes
  released : ∀ run ∈ pool.threads, run.unreleased = 0

/-- The step does not make a run fail that has reserved at least one byte. -/
def KeepsReservation (pool : Pool IoPlanBudgetState HotRun) (a : Nat × HotRunMove) : Prop :=
  match pool.threads[a.1]?, a.2 with
  | some (.running bytes), .finish outcome => bytes = 0 ∨ outcome.Succeeds
  | _, _ => True

instance (pool : Pool IoPlanBudgetState HotRun) (a : Nat × HotRunMove) :
    Decidable (KeepsReservation pool a) := by
  unfold KeepsReservation
  split <;> infer_instance

/-! ## What a step does -/

section

variable {state state' : IoPlanBudgetState} {run run' : HotRun} {move : HotRunMove}
  {new : List HotRun} {outcome : VectorRunOutcome}

theorem recurse_isOk_iff (outcome : VectorRunOutcome) :
    (recurseChildPointsVectorRun outcome).isOk = true ↔ outcome.Succeeds := by
  obtain ⟨path, materialize, child, removal⟩ := outcome
  cases materialize with
  | error err => simp [recurseChildPointsVectorRun, VectorRunOutcome.Succeeds, bind, Except.bind,
      Except.isOk, Except.toBool]
  | ok tempBytes =>
      cases child <;> cases removal <;>
        simp [recurseChildPointsVectorRun, cleanupVectorRunFile, VectorRunOutcome.Succeeds, bind,
          Except.bind, Except.map, Except.isOk, Except.toBool]

theorem held_start (nodes : List (Nat × Nat)) (w : HotRun → Nat) (hw : ∀ bytes, w (.start bytes) = 0) :
    ((nodes.map fun node => HotRun.start (tempBytesEstimate node.1 node.2)).map w).sum = 0 := by
  rw [List.map_map]
  apply List.sum_eq_zero
  intro n hn
  obtain ⟨node, -, rfl⟩ := List.mem_map.mp hn
  exact hw _

theorem nextReserved_eq_some {current bytes next : UInt64}
    (h : state.nextReserved current bytes = some next) :
    next.toNat = current.toNat + bytes.toNat ∧ next ≤ state.tempBudgetBytes := by
  unfold IoPlanBudgetState.nextReserved at h
  split_ifs at h with hroom
  cases h
  refine ⟨?_, hroom.2⟩
  rw [UInt64.toNat_add, Nat.mod_eq_of_lt hroom.1]

/-- A step moves the reserved bytes by what its run holds more or less of, and never lifts them above
the budget. -/
theorem hotRunStep_held (h : hotRunStep state run move = some (state', run', new))
    (hle : run.held ≤ state.tempReservedBytes.toNat) :
    state'.tempReservedBytes.toNat + run.held =
        state.tempReservedBytes.toNat + (run'.held + (new.map HotRun.held).sum) ∧
      state'.tempBudgetBytes = state.tempBudgetBytes ∧
      (state.tempReservedBytes ≤ state.tempBudgetBytes →
        state'.tempReservedBytes ≤ state.tempBudgetBytes) := by
  unfold hotRunStep at h
  split at h
  · -- the load of the counter
    split_ifs at h with hzero
    · cases h
      rw [hzero]
      exact ⟨rfl, rfl, id⟩
    · cases h
      exact ⟨rfl, rfl, id⟩
  · -- a compare and swap
    rename_i bytes current spurious
    cases hnext : state.nextReserved current bytes with
    | none =>
        rw [hnext] at h
        cases h
        exact ⟨rfl, rfl, id⟩
    | some next =>
        rw [hnext] at h
        obtain ⟨hsum, hbudget⟩ := nextReserved_eq_some hnext
        simp only at h
        split_ifs at h with hswap
        · cases h
          refine ⟨?_, rfl, fun _ => hbudget⟩
          simp only [HotRun.held, HotRun.live, HotRun.unreleased, List.map_nil, List.sum_nil]
          rw [hsum, hswap.1]
          omega
        · cases h
          exact ⟨rfl, rfl, id⟩
  · rename_i bytes nodes
    cases h
    refine ⟨?_, rfl, id⟩
    rw [held_start nodes HotRun.held fun _ => rfl]
    rfl
  · rename_i bytes outcome
    cases houtcome : recurseChildPointsVectorRun outcome with
    | ok tempBytes =>
        rw [houtcome] at h
        cases h
        exact ⟨rfl, rfl, id⟩
    | error err =>
        rw [houtcome] at h
        cases h
        refine ⟨?_, rfl, id⟩
        simp only [HotRun.held, HotRun.live, HotRun.unreleased, List.map_nil, List.sum_nil]
        omega
  · cases h
    exact ⟨rfl, rfl, id⟩
  · -- the release
    rename_i bytes
    cases h
    have hbytes : bytes.toNat ≤ state.tempReservedBytes.toNat := hle
    have hsub : (state.tempReservedBytes - bytes).toNat =
        state.tempReservedBytes.toNat - bytes.toNat :=
      UInt64.toNat_sub_of_le _ _ (UInt64.le_iff_toNat_le.mpr hbytes)
    refine ⟨?_, rfl, fun hbudget => ?_⟩
    · simp only [IoPlanBudgetState.releaseTemp, HotRun.held, HotRun.live, HotRun.unreleased,
        List.map_nil, List.sum_nil, hsub]
      omega
    · rw [UInt64.le_iff_toNat_le] at hbudget ⊢
      simp only [IoPlanBudgetState.releaseTemp, hsub]
      omega
  · cases h

/-- A run can only come to leave bytes reserved by failing. -/
theorem hotRunStep_unreleased (h : hotRunStep state run move = some (state', run', new)) :
    run.unreleased = 0 ∧ (new.map HotRun.unreleased).sum = 0 ∧
      (run'.unreleased = 0 ∨ ∃ bytes outcome, run = .running bytes ∧ move = .finish outcome ∧
        ¬ outcome.Succeeds ∧ run'.unreleased = bytes.toNat) := by
  unfold hotRunStep at h
  split at h
  · split_ifs at h <;> cases h <;> exact ⟨rfl, rfl, .inl rfl⟩
  · rename_i bytes current spurious
    cases hnext : state.nextReserved current bytes with
    | none =>
        rw [hnext] at h
        cases h
        exact ⟨rfl, rfl, .inl rfl⟩
    | some next =>
        rw [hnext] at h
        simp only at h
        split_ifs at h <;> cases h <;> exact ⟨rfl, rfl, .inl rfl⟩
  · rename_i bytes nodes
    cases h
    exact ⟨rfl, held_start nodes HotRun.unreleased fun _ => rfl, .inl rfl⟩
  · rename_i bytes outcome
    have hiff := recurse_isOk_iff outcome
    cases houtcome : recurseChildPointsVectorRun outcome with
    | ok tempBytes =>
        rw [houtcome] at h
        cases h
        exact ⟨rfl, rfl, .inl rfl⟩
    | error err =>
        rw [houtcome] at h hiff
        cases h
        exact ⟨rfl, rfl, .inr ⟨bytes, outcome, rfl, rfl, fun hok => absurd (hiff.mpr hok) (by simp
          [Except.isOk, Except.toBool]), rfl⟩⟩
  · cases h
    exact ⟨rfl, rfl, .inl rfl⟩
  · cases h
    exact ⟨rfl, rfl, .inl rfl⟩
  · cases h

end

/-! ## What a pool does -/

section

variable {pool next : Pool IoPlanBudgetState HotRun} {a : Nat × HotRunMove}
  {as : List (Nat × HotRunMove)} {budget : UInt64} {nodes : List (Nat × Nat)}

/-- The books balance, whatever the runs come to. -/
structure Booked (pool : Pool IoPlanBudgetState HotRun) : Prop where
  reserved_eq : pool.shared.tempReservedBytes.toNat = pool.total HotRun.held
  within : pool.shared.tempReservedBytes ≤ pool.shared.tempBudgetBytes

theorem booked_hotRuns (budget : UInt64) (nodes : List (Nat × Nat)) :
    Booked (hotRuns budget nodes) where
  reserved_eq := (held_start nodes HotRun.held fun _ => rfl).symm
  within := UInt64.le_iff_toNat_le.mpr (Nat.zero_le _)

theorem Booked.step (h : Booked pool) (hstep : Pool.step hotRunStep pool a = some next) :
    Booked next := by
  obtain ⟨run, state', run', new, hrun, hprog, rfl⟩ := Pool.step_eq_some.mp hstep
  have hle : run.held ≤ pool.total HotRun.held := Pool.le_total (List.mem_of_getElem? hrun)
  obtain ⟨hheld, hbudget, hwithin⟩ := hotRunStep_held hprog (by rw [h.reserved_eq]; exact hle)
  have htotal : Pool.total HotRun.held ⟨state', pool.threads.set a.1 run' ++ new⟩ + run.held = _ :=
    Pool.total_step hrun
  refine ⟨?_, ?_⟩
  · have heq := h.reserved_eq
    simp only
    omega
  · simp only
    rw [hbudget]
    exact hwithin h.within

theorem keepsReservation_iff : KeepsReservation pool a ↔ ∀ bytes outcome,
    pool.threads[a.1]? = some (.running bytes) → a.2 = .finish outcome →
      bytes = 0 ∨ outcome.Succeeds := by
  unfold KeepsReservation
  split
  · rename_i bytes outcome hrun hmove
    constructor
    · intro h bytes' outcome' hrun' hmove'
      rw [hrun] at hrun'
      rw [hmove] at hmove'
      cases hrun'
      cases hmove'
      exact h
    · exact fun h => h bytes outcome hrun hmove
  · rename_i hother
    exact ⟨fun _ bytes outcome hrun hmove => (hother bytes outcome hrun hmove).elim,
      fun _ => trivial⟩

theorem total_unreleased_step (hstep : Pool.step hotRunStep pool a = some next) :
    pool.total HotRun.unreleased ≤ next.total HotRun.unreleased := by
  obtain ⟨run, state', run', new, hrun, hprog, rfl⟩ := Pool.step_eq_some.mp hstep
  have htotal : Pool.total HotRun.unreleased ⟨state', pool.threads.set a.1 run' ++ new⟩ +
      run.unreleased = _ := Pool.total_step hrun
  have hzero := (hotRunStep_unreleased hprog).1
  omega

/-- A step that keeps to the condition leaves no bytes reserved. -/
theorem total_unreleased_of_keeps (hkeeps : KeepsReservation pool a)
    (hstep : Pool.step hotRunStep pool a = some next) :
    next.total HotRun.unreleased = pool.total HotRun.unreleased := by
  obtain ⟨run, state', run', new, hrun, hprog, rfl⟩ := Pool.step_eq_some.mp hstep
  have htotal : Pool.total HotRun.unreleased ⟨state', pool.threads.set a.1 run' ++ new⟩ +
      run.unreleased = _ := Pool.total_step hrun
  obtain ⟨hzero, hnew, hafter⟩ := hotRunStep_unreleased hprog
  have hrun' : run'.unreleased = 0 := by
    rcases hafter with hafter | ⟨bytes, outcome, rfl, hmove, hfails, hbytes⟩
    · exact hafter
    · rcases keepsReservation_iff.mp hkeeps bytes outcome hrun hmove with rfl | hok
      · exact hbytes
      · exact absurd hok hfails
  omega

/-- A step against it does. -/
theorem total_unreleased_of_not_keeps (hkeeps : ¬ KeepsReservation pool a)
    (hstep : Pool.step hotRunStep pool a = some next) : 0 < next.total HotRun.unreleased := by
  rw [keepsReservation_iff] at hkeeps
  simp only [not_forall] at hkeeps
  obtain ⟨bytes, outcome, hrun, hmove, hnot⟩ := hkeeps
  rw [not_or] at hnot
  obtain ⟨run, state', run', new, hrun', hprog, rfl⟩ := Pool.step_eq_some.mp hstep
  rw [hrun] at hrun'
  cases hrun'
  have hleft : run'.unreleased = bytes.toNat := by
    rw [hmove] at hprog
    simp only [hotRunStep] at hprog
    have hiff := recurse_isOk_iff outcome
    cases houtcome : recurseChildPointsVectorRun outcome with
    | ok tempBytes =>
        rw [houtcome] at hiff
        exact absurd (hiff.mp rfl) hnot.2
    | error err =>
        rw [houtcome] at hprog
        cases hprog
        rfl
  have hpos : 0 < bytes.toNat := Nat.pos_of_ne_zero fun hzero => hnot.1 (UInt64.toNat_inj.mp hzero)
  refine Nat.lt_of_lt_of_le (hleft ▸ hpos) ?_
  exact Pool.le_total (p := ⟨state', pool.threads.set a.1 run' ++ new⟩) (w := HotRun.unreleased)
    (List.mem_append_left _ (Pool.mem_set_self hrun))

/-- What balanced books say beyond the reservations of failed runs. -/
theorem Booked.conserved_iff (h : Booked pool) :
    Conserved pool ↔ pool.total HotRun.unreleased = 0 := by
  have hheld : pool.total HotRun.held = pool.total HotRun.live + pool.total HotRun.unreleased :=
    List.sum_map_add
  constructor
  · intro hconserved
    have hreserved := h.reserved_eq
    have hlive := hconserved.reserved_eq
    omega
  · intro hzero
    refine ⟨?_, h.within, fun run hrun => Pool.eq_zero_of_total hzero hrun⟩
    rw [h.reserved_eq, hheld, hzero, Nat.add_zero]

/-- In every run of the pool, the temporary bytes are conserved if and only if no step has made a hot
run fail that had bytes reserved. -/
theorem hotRuns_conserved_iff
    (hr : Run (Pool.step hotRunStep) (hotRuns budget nodes) as pool) :
    Conserved pool ↔
      Run (guarded KeepsReservation (Pool.step hotRunStep)) (hotRuns budget nodes) as pool := by
  have hbooked : Booked pool :=
    hr.invariant (booked_hotRuns budget nodes) fun _ _ _ h hstep => h.step hstep
  rw [hbooked.conserved_iff]
  constructor
  · intro hzero
    rcases hr.guarded_or (C := KeepsReservation) with hguarded | ⟨u, v, b, bs, cs, -, hnot, hbad, hrest⟩
    · exact hguarded
    · -- what has been lost once is never made good
      have hpos := total_unreleased_of_not_keeps hnot hbad
      have hlost : 0 < pool.total HotRun.unreleased :=
        hrest.invariant (P := fun q => 0 < q.total HotRun.unreleased) hpos
          fun _ _ _ h hstep => Nat.lt_of_lt_of_le h (total_unreleased_step hstep)
      omega
  · intro hguarded
    refine hguarded.invariant (P := fun q => q.total HotRun.unreleased = 0)
      (held_start nodes HotRun.unreleased fun _ => rfl) fun _ _ _ h hstep => ?_
    obtain ⟨hkeeps, hstep⟩ := guarded_eq_some.mp hstep
    rw [total_unreleased_of_keeps hkeeps hstep, h]

end

/-- One run over 64 points of dimension 6: it reserves, comes to `outcome`, and goes on if it can. -/
def oneHotRun (outcome : VectorRunOutcome) : List (Nat × HotRunMove) :=
  [(0, .load), (0, .compareExchange false), (0, .finish outcome)]

def writtenAndRemoved : VectorRunOutcome :=
  ⟨"partition_d01_vectors_00000000.bin", .ok 1536, .ok (), .removed⟩

def vectorsNotRead : VectorRunOutcome :=
  ⟨"partition_d01_vectors_00000000.bin", .error (.io .unexpectedEof), .ok (), .notFound⟩

/-- With one run that reserves its 1536 bytes, writes as many and releases them. -/
theorem hotRuns_conserved_one : ∃ pool,
    Run (Pool.step hotRunStep) (hotRuns 10000 [(64, 6)])
      (oneHotRun writtenAndRemoved ++ [(0, .record), (0, .release)]) pool ∧
    (pool.shared = ⟨10000, 0, 1536⟩ ∧ pool.threads = [.finished]) ∧
    (Conserved pool ↔ Run (guarded KeepsReservation (Pool.step hotRunStep)) (hotRuns 10000 [(64, 6)])
      (oneHotRun writtenAndRemoved ++ [(0, .record), (0, .release)]) pool) := by
  have hfollow : (follow (Pool.step hotRunStep) (hotRuns 10000 [(64, 6)])
      (oneHotRun writtenAndRemoved ++ [(0, .record), (0, .release)])).map
        (fun pool => (pool.shared, pool.threads)) = some (⟨10000, 0, 1536⟩, [.finished]) := by
    decide +kernel
  obtain ⟨pool, hr, hp⟩ := exists_run_of_follow hfollow
  exact ⟨pool, hr, Prod.mk.inj hp, hotRuns_conserved_iff hr⟩

/-- A run whose vectors cannot be read ends, and its 1536 bytes stay reserved. -/
theorem hotRuns_not_conserved : ¬ ∀ budget nodes as pool,
    Run (Pool.step hotRunStep) (hotRuns budget nodes) as pool → Conserved pool := by
  intro h
  have hfollow : (follow (Pool.step hotRunStep) (hotRuns 10000 [(64, 6)])
      (oneHotRun vectorsNotRead)).map (fun pool => pool.total HotRun.unreleased) = some 1536 := by
    decide +kernel
  obtain ⟨pool, hr, hleft⟩ := exists_run_of_follow hfollow
  have hreleased := (h 10000 [(64, 6)] _ pool hr).released
  have hzero : pool.total HotRun.unreleased = 0 := by
    apply List.sum_eq_zero
    intro n hn
    obtain ⟨run, hrun, rfl⟩ := List.mem_map.mp hn
    exact hreleased run hrun
  omega

end ForgeANN
