-- SUMMARY: What the memory budget is spent on: resident reservoirs, leaf workers, and the parts of the plan.
import ForgeANN.Common.Params

/-!
# The memory plan

Every size is computed with saturation. A saturated size is the largest word, so
a budget that has something left after it was taken off has taken off the exact
size.
-/
namespace ForgeANN

open UInt64

/-- `size_of::<HashPruneReservoir>()` and `size_of::<Mutex<HashPruneReservoir>>()`. -/
structure ReservoirLayout where
  reservoirBytes : UInt64
  mutexBytes : UInt64
deriving DecidableEq, Repr

/-- A slot holds a `u32` and two `u16`s. -/
def slotBytes : UInt64 := 4 + 2 + 2

def estimateReservoirBytes (layout : ReservoirLayout) (numPoints lMax : UInt64) : UInt64 :=
  numPoints.saturatingMul (layout.reservoirBytes + layout.mutexBytes + lMax.saturatingMul slotBytes)

/-- A `usize`, a `u32`, a `u16` and an `f32`. -/
def pendingEdgeSize : UInt64 := 8 + 4 + 2 + 4

def estimateLeafScratchBytes (maxLeafSize dim leafKnn : UInt64) : UInt64 :=
  let leafSize := max maxLeafSize 1
  let dmat := (leafSize.saturatingMul leafSize).saturatingMul 4
  let cand := leafSize.saturatingMul 16
  let x := (leafSize.saturatingMul dim).saturatingMul 4
  let edges := (leafSize.saturatingMul ((max leafKnn 1).saturatingMul 2)).saturatingMul pendingEdgeSize
  ((dmat.saturatingAdd cand).saturatingAdd x).saturatingAdd edges

structure ResidentReservoirPlan where
  residentPoints : UInt64
deriving DecidableEq, Repr

/-- What is kept free besides: a tenth of the budget, and at least 512 MiB. -/
def fixedHeadroom (memoryBudgetBytes : UInt64) : UInt64 :=
  max (memoryBudgetBytes / 10) (512 * 1024 * 1024)

def planResidentReservoirPrefix (layout : ReservoirLayout) (numPoints effectiveThreads : UInt64)
    (params : ForgeANNParams) (dim sketchBytes shardPoints reservoirBudgetBytes : UInt64) :
    ResidentReservoirPlan :=
  let memoryBudgetBytes := reservoirBudgetBytes
  let activeScratchBytes :=
    (estimateLeafScratchBytes params.kernelSafeLeafSize dim params.leafKnn).saturatingMul
      (max effectiveThreads 1)
  let shardPoints := max shardPoints 1
  let availableForReservoirs :=
    ((memoryBudgetBytes.saturatingSub activeScratchBytes).saturatingSub sketchBytes).saturatingSub
      (fixedHeadroom memoryBudgetBytes)
  let bytesPerPoint := max (estimateReservoirBytes layout 1 params.lMax) 1
  let residentPointsRaw := availableForReservoirs / bytesPerPoint
  let residentPoints :=
    if numPoints ≤ residentPointsRaw then numPoints
    else min ((residentPointsRaw / shardPoints).saturatingMul shardPoints) numPoints
  { residentPoints }

def planResidentReservoirPrefixFromCap (layout : ReservoirLayout) (numPoints : UInt64)
    (params : ForgeANNParams) (reservoirCapBytes : UInt64) : ResidentReservoirPlan :=
  let bytesPerPoint := max (estimateReservoirBytes layout 1 params.lMax) 1
  { residentPoints := min (reservoirCapBytes / bytesPerPoint) numPoints }

/-- The scratch of a worker and a reserve of 32 MiB. -/
def perWorkerBytes (params : ForgeANNParams) (dim : UInt64) : UInt64 :=
  max ((estimateLeafScratchBytes params.kernelSafeLeafSize dim params.leafKnn).saturatingAdd
    (32 * 1024 * 1024)) 1

def deriveOomWorkerCount (requestedThreads : UInt64) (params : ForgeANNParams) (dim : UInt64) :
    UInt64 :=
  let requestedThreads := max requestedThreads 1
  let memoryBudgetBytes := params.effectiveOomMemoryBudgetBytes
  let sharedReserveBytes := memoryBudgetBytes.saturatingMul 2 / 3
  let workerBudget := max (memoryBudgetBytes.saturatingSub sharedReserveBytes)
    (perWorkerBytes params dim)
  let budgetThreads := max (workerBudget / perWorkerBytes params dim) 1
  min requestedThreads (max budgetThreads 1)

structure OomMemoryPlan where
  totalBudgetBytes : UInt64
  reservoirBudgetBytes : UInt64
  scratchBudgetBytes : UInt64
  ioHeadroomBytes : UInt64
deriving DecidableEq, Repr

def OomMemoryPlan.fromBudget (totalBudgetBytes : UInt64) : OomMemoryPlan :=
  let reservoirBudgetBytes := totalBudgetBytes.saturatingMul 45 / 100
  let scratchBudgetBytes := totalBudgetBytes.saturatingMul 15 / 100
  let allocated := reservoirBudgetBytes.saturatingAdd scratchBudgetBytes
  { totalBudgetBytes
    reservoirBudgetBytes
    scratchBudgetBytes
    ioHeadroomBytes := totalBudgetBytes.saturatingSub allocated }

/-! ## Exact sizes -/

/-- The reservoir of a point. -/
def ReservoirLayout.pointBytes (layout : ReservoirLayout) (lMax : UInt64) : Nat :=
  layout.reservoirBytes.toNat + layout.mutexBytes.toNat + lMax.toNat * 8

/-- The matrix of distances, the candidates, the vectors and the edges of a leaf. -/
def leafScratchBytes (maxLeafSize dim leafKnn : Nat) : Nat :=
  max maxLeafSize 1 * max maxLeafSize 1 * 4 + max maxLeafSize 1 * 16 + max maxLeafSize 1 * dim * 4 +
    max maxLeafSize 1 * (max leafKnn 1 * 2) * 18

theorem estimateLeafScratchBytes_capped (maxLeafSize dim leafKnn : UInt64) :
    (estimateLeafScratchBytes maxLeafSize dim leafKnn).Capped
      (leafScratchBytes maxLeafSize.toNat dim.toNat leafKnn.toNat) := by
  have hleaf : (max maxLeafSize 1).Capped (max maxLeafSize.toNat 1) :=
    (Capped.of_toNat maxLeafSize).max (.of_toNat 1)
  have hknn : (max leafKnn 1).Capped (max leafKnn.toNat 1) :=
    (Capped.of_toNat leafKnn).max (.of_toNat 1)
  have hdmat := (hleaf.mul hleaf).mul (.of_toNat 4)
  have hcand := hleaf.mul (.of_toNat 16)
  have hx := (hleaf.mul (.of_toNat dim)).mul (.of_toNat 4)
  have hedges := (hleaf.mul (hknn.mul (.of_toNat 2))).mul (.of_toNat pendingEdgeSize)
  exact ((hdmat.add hcand).add hx).add hedges

/-- Where the size of a point's reservoir does not overflow, it is estimated exactly. -/
theorem estimateReservoirBytes_one {layout : ReservoirLayout} {lMax : UInt64}
    (h : layout.pointBytes lMax < 2 ^ 64) :
    (max (estimateReservoirBytes layout 1 lMax) 1).toNat = max (layout.pointBytes lMax) 1 := by
  unfold ReservoirLayout.pointBytes at h ⊢
  have hslots : (lMax.saturatingMul slotBytes).toNat = lMax.toNat * 8 := by
    refine (toNat_saturatingMul _ _).trans (Nat.min_eq_left ?_)
    exact Nat.le_sub_one_of_lt (Nat.lt_of_le_of_lt (Nat.le_add_left _ _) h)
  have hsum : (layout.reservoirBytes + layout.mutexBytes + lMax.saturatingMul slotBytes).toNat =
      layout.reservoirBytes.toNat + layout.mutexBytes.toNat + lMax.toNat * 8 := by
    rw [UInt64.toNat_add, UInt64.toNat_add, hslots, Nat.mod_add_mod, Nat.mod_eq_of_lt h]
  have hmax : layout.reservoirBytes.toNat + layout.mutexBytes.toNat + lMax.toNat * 8 ≤ maxNat :=
    Nat.le_sub_one_of_lt h
  rw [UInt64.toNat_max, estimateReservoirBytes, toNat_saturatingMul, hsum, UInt64.toNat_one,
    Nat.one_mul, Nat.min_eq_left hmax]

/-! ## Resident points -/

/-- The points that are resident, of those there is room for. -/
def residentPrefix (numPoints room shardPoints : Nat) : Nat :=
  if numPoints ≤ room then numPoints else room / shardPoints * shardPoints

section

variable {numPoints room room' shardPoints : Nat}

theorem residentPrefix_le_room : residentPrefix numPoints room shardPoints ≤ room := by
  unfold residentPrefix
  split
  · assumption
  · exact Nat.div_mul_le_self _ _

theorem residentPrefix_le : residentPrefix numPoints room shardPoints ≤ numPoints := by
  unfold residentPrefix
  split
  · exact Nat.le_refl _
  case isFalse h => exact Nat.le_trans (Nat.div_mul_le_self _ _) (Nat.le_of_not_le h)

theorem residentPrefix_eq_or_dvd :
    residentPrefix numPoints room shardPoints = numPoints ∨
      shardPoints ∣ residentPrefix numPoints room shardPoints := by
  unfold residentPrefix
  split
  · exact .inl rfl
  · exact .inr (Nat.dvd_mul_left _ _)

theorem residentPrefix_mono (h : room ≤ room') :
    residentPrefix numPoints room shardPoints ≤ residentPrefix numPoints room' shardPoints := by
  by_cases hall : numPoints ≤ room'
  · exact Nat.le_trans residentPrefix_le (Nat.le_of_eq (if_pos hall).symm)
  · rw [residentPrefix, residentPrefix, if_neg hall, if_neg fun h' => hall (Nat.le_trans h' h)]
    exact Nat.mul_le_mul_right _ (Nat.div_le_div_right h)

end

/-- What is left of a budget for reservoirs. -/
def roomForReservoirs (layout : ReservoirLayout) (effectiveThreads : UInt64) (params : ForgeANNParams)
    (dim sketchBytes reservoirBudgetBytes : UInt64) : Nat :=
  (reservoirBudgetBytes.toNat -
    ((estimateLeafScratchBytes params.kernelSafeLeafSize dim params.leafKnn).saturatingMul
      (max effectiveThreads 1)).toNat - sketchBytes.toNat - (fixedHeadroom reservoirBudgetBytes).toNat) /
    max (layout.pointBytes params.lMax) 1

section

variable {layout : ReservoirLayout} {params : ForgeANNParams}

theorem planResidentReservoirPrefix_eq (hpoint : layout.pointBytes params.lMax < 2 ^ 64)
    (numPoints effectiveThreads dim sketchBytes shardPoints reservoirBudgetBytes : UInt64) :
    (planResidentReservoirPrefix layout numPoints effectiveThreads params dim sketchBytes shardPoints
      reservoirBudgetBytes).residentPoints.toNat =
    residentPrefix numPoints.toNat
      (roomForReservoirs layout effectiveThreads params dim sketchBytes reservoirBudgetBytes)
      (max shardPoints.toNat 1) := by
  simp only [planResidentReservoirPrefix]
  set raw := ((reservoirBudgetBytes.saturatingSub _).saturatingSub sketchBytes).saturatingSub
    (fixedHeadroom reservoirBudgetBytes) / max (estimateReservoirBytes layout 1 params.lMax) 1 with hraw
  have hroom : raw.toNat =
      roomForReservoirs layout effectiveThreads params dim sketchBytes reservoirBudgetBytes := by
    rw [hraw, UInt64.toNat_div, estimateReservoirBytes_one hpoint, toNat_saturatingSub,
      toNat_saturatingSub, toNat_saturatingSub]
    rfl
  rw [← hroom, residentPrefix]
  split
  case isTrue h => rw [if_pos (UInt64.le_iff_toNat_le.mp h)]
  case isFalse h =>
    rw [UInt64.le_iff_toNat_le] at h
    have hle : raw.toNat / max shardPoints.toNat 1 * max shardPoints.toNat 1 ≤ raw.toNat :=
      Nat.div_mul_le_self _ _
    rw [if_neg h, UInt64.toNat_min, toNat_saturatingMul, UInt64.toNat_div, UInt64.toNat_max,
      UInt64.toNat_one, Nat.min_eq_left (Nat.le_trans hle raw.toNat_le_maxNat),
      Nat.min_eq_left (Nat.le_trans hle (Nat.le_of_not_le h))]

/-- A larger budget leaves more. -/
theorem roomForReservoirs_mono {budget budget' : UInt64} (h : budget ≤ budget')
    (effectiveThreads dim sketchBytes : UInt64) :
    roomForReservoirs layout effectiveThreads params dim sketchBytes budget ≤
      roomForReservoirs layout effectiveThreads params dim sketchBytes budget' := by
  rw [UInt64.le_iff_toNat_le] at h
  apply Nat.div_le_div_right
  simp only [fixedHeadroom, UInt64.toNat_max, UInt64.toNat_div, UInt64.reduceToNat]
  omega

/-- What is left was left after the exact sizes. -/
theorem roomForReservoirs_spec {effectiveThreads dim sketchBytes budget : UInt64}
    (hpos : 0 < roomForReservoirs layout effectiveThreads params dim sketchBytes budget) :
    roomForReservoirs layout effectiveThreads params dim sketchBytes budget *
        layout.pointBytes params.lMax +
      leafScratchBytes params.kernelSafeLeafSize.toNat dim.toNat params.leafKnn.toNat *
        max effectiveThreads.toNat 1 + sketchBytes.toNat +
      max (budget.toNat / 10) (512 * 1024 * 1024) ≤ budget.toNat := by
  have hscratch :=
    (estimateLeafScratchBytes_capped params.kernelSafeLeafSize dim params.leafKnn).mul
      ((Capped.of_toNat effectiveThreads).max (.of_toNat 1))
  have hhead : (fixedHeadroom budget).toNat = max (budget.toNat / 10) (512 * 1024 * 1024) := by
    rw [fixedHeadroom, UInt64.toNat_max, UInt64.toNat_div]
    rfl
  have hbudget := budget.toNat_le_maxNat
  unfold roomForReservoirs at hpos ⊢
  rw [hhead] at hpos ⊢
  set left := budget.toNat - _ - sketchBytes.toNat - max (budget.toNat / 10) (512 * 1024 * 1024)
    with hleft
  have hleft_pos : 0 < left := by
    rcases Nat.eq_zero_or_pos left with h0 | h0
    · rw [h0, Nat.zero_div] at hpos
      exact absurd hpos (Nat.lt_irrefl 0)
    · exact h0
  -- nothing would be left of the budget had the scratch been capped
  have hexact := hscratch.eq_of_lt (by omega)
  have hused : left / max (layout.pointBytes params.lMax) 1 * layout.pointBytes params.lMax ≤ left :=
    Nat.le_trans (Nat.mul_le_mul_left _ (Nat.le_max_left _ 1)) (Nat.div_mul_le_self _ _)
  rw [UInt64.toNat_one] at hexact
  omega

theorem planResidentReservoirPrefixFromCap_eq (hpoint : layout.pointBytes params.lMax < 2 ^ 64)
    (numPoints reservoirCapBytes : UInt64) :
    (planResidentReservoirPrefixFromCap layout numPoints params reservoirCapBytes).residentPoints.toNat =
      min (reservoirCapBytes.toNat / max (layout.pointBytes params.lMax) 1) numPoints.toNat := by
  rw [planResidentReservoirPrefixFromCap, UInt64.toNat_min, UInt64.toNat_div,
    estimateReservoirBytes_one hpoint]

end

/-! ## Workers -/

theorem perWorkerBytes_capped (params : ForgeANNParams) (dim : UInt64) :
    (perWorkerBytes params dim).Capped
      (max (leafScratchBytes params.kernelSafeLeafSize.toNat dim.toNat params.leafKnn.toNat +
        32 * 1024 * 1024) 1) :=
  ((estimateLeafScratchBytes_capped _ _ _).add (.of_toNat (32 * 1024 * 1024))).max (.of_toNat 1)

theorem perWorkerBytes_pos (params : ForgeANNParams) (dim : UInt64) :
    0 < (perWorkerBytes params dim).toNat := by
  rw [perWorkerBytes, UInt64.toNat_max]
  exact Nat.lt_of_lt_of_le Nat.one_pos (Nat.le_max_right _ _)

theorem deriveOomWorkerCount_bounds (requestedThreads : UInt64) (params : ForgeANNParams)
    (dim : UInt64) :
    1 ≤ (deriveOomWorkerCount requestedThreads params dim).toNat ∧
      (deriveOomWorkerCount requestedThreads params dim).toNat ≤ max requestedThreads.toNat 1 := by
  simp only [deriveOomWorkerCount, UInt64.toNat_min, UInt64.toNat_max, UInt64.toNat_one]
  omega

/-- More than one worker is only for a budget that has room for them all. -/
theorem deriveOomWorkerCount_fits {requestedThreads : UInt64} {params : ForgeANNParams} {dim : UInt64}
    (h : (deriveOomWorkerCount requestedThreads params dim).toNat ≠ 1) :
    (deriveOomWorkerCount requestedThreads params dim).toNat *
      (leafScratchBytes params.kernelSafeLeafSize.toNat dim.toNat params.leafKnn.toNat +
        32 * 1024 * 1024) ≤ params.effectiveOomMemoryBudgetBytes.toNat := by
  have hcapped := perWorkerBytes_capped params dim
  have hpos := perWorkerBytes_pos params dim
  have hone := (deriveOomWorkerCount_bounds requestedThreads params dim).1
  have hbudget := params.effectiveOomMemoryBudgetBytes.toNat_le_maxNat
  set workers := (deriveOomWorkerCount requestedThreads params dim).toNat with hworkers
  have hle : workers ≤ max (max (params.effectiveOomMemoryBudgetBytes.toNat -
      (params.effectiveOomMemoryBudgetBytes.saturatingMul 2 / 3).toNat)
        (perWorkerBytes params dim).toNat / (perWorkerBytes params dim).toNat) 1 := by
    rw [hworkers]
    simp only [deriveOomWorkerCount, UInt64.toNat_min, UInt64.toNat_max, UInt64.toNat_one,
      UInt64.toNat_div, toNat_saturatingSub]
    omega
  set perWorker := (perWorkerBytes params dim).toNat with hper
  set rest := params.effectiveOomMemoryBudgetBytes.toNat - _ with hrest
  rcases Nat.lt_or_ge rest perWorker with hsmall | hroom
  · rw [Nat.max_eq_right (Nat.le_of_lt hsmall), Nat.div_self hpos] at hle
    omega
  · rw [Nat.max_eq_left hroom, Nat.max_eq_left ((Nat.le_div_iff_mul_le hpos).mpr (by omega))] at hle
    have hfits : workers * perWorker ≤ rest := (Nat.le_div_iff_mul_le hpos).mp hle
    -- two workers of a capped size would not fit
    have hexact := hcapped.eq_of_lt (by
      have htwo : 2 * perWorker ≤ workers * perWorker := Nat.mul_le_mul_right _ (by omega)
      omega)
    refine Nat.le_trans (Nat.mul_le_mul_left _ ?_) (Nat.le_trans hfits (Nat.sub_le _ _))
    omega

/-! ## Within the budget -/

theorem fromBudget_parts (totalBudgetBytes : UInt64) :
    (OomMemoryPlan.fromBudget totalBudgetBytes).reservoirBudgetBytes.toNat +
      (OomMemoryPlan.fromBudget totalBudgetBytes).scratchBudgetBytes.toNat +
      (OomMemoryPlan.fromBudget totalBudgetBytes).ioHeadroomBytes.toNat ≤ totalBudgetBytes.toNat := by
  have h := totalBudgetBytes.toNat_le_maxNat
  simp only [OomMemoryPlan.fromBudget, toNat_saturatingSub, toNat_saturatingAdd, UInt64.toNat_div,
    toNat_saturatingMul, UInt64.reduceToNat]
  omega

/-- What the plans hand out, in exact sizes, is within the budgets they were made for. -/
theorem memoryPlans_within_budget (layout : ReservoirLayout) (params : ForgeANNParams)
    (hpoint : layout.pointBytes params.lMax < 2 ^ 64) :
    (∀ numPoints effectiveThreads dim sketchBytes shardPoints budget : UInt64,
      let resident := fun budget => (planResidentReservoirPrefix layout numPoints effectiveThreads
        params dim sketchBytes shardPoints budget).residentPoints.toNat
      resident budget ≤ numPoints.toNat ∧
      (resident budget = numPoints.toNat ∨ max shardPoints.toNat 1 ∣ resident budget) ∧
      (∀ budget', budget ≤ budget' → resident budget ≤ resident budget') ∧
      (0 < resident budget →
        resident budget * layout.pointBytes params.lMax +
          leafScratchBytes params.kernelSafeLeafSize.toNat dim.toNat params.leafKnn.toNat *
            max effectiveThreads.toNat 1 + sketchBytes.toNat +
          max (budget.toNat / 10) (512 * 1024 * 1024) ≤ budget.toNat)) ∧
    (∀ numPoints cap : UInt64,
      let resident :=
        (planResidentReservoirPrefixFromCap layout numPoints params cap).residentPoints.toNat
      resident ≤ numPoints.toNat ∧ resident * layout.pointBytes params.lMax ≤ cap.toNat) ∧
    (∀ requestedThreads dim : UInt64,
      let workers := (deriveOomWorkerCount requestedThreads params dim).toNat
      1 ≤ workers ∧ workers ≤ max requestedThreads.toNat 1 ∧
      (workers = 1 ∨
        workers * (leafScratchBytes params.kernelSafeLeafSize.toNat dim.toNat params.leafKnn.toNat +
          32 * 1024 * 1024) ≤ params.effectiveOomMemoryBudgetBytes.toNat)) ∧
    ∀ total : UInt64,
      (OomMemoryPlan.fromBudget total).reservoirBudgetBytes.toNat +
        (OomMemoryPlan.fromBudget total).scratchBudgetBytes.toNat +
        (OomMemoryPlan.fromBudget total).ioHeadroomBytes.toNat ≤ total.toNat := by
  refine ⟨?_, ?_, ?_, fromBudget_parts⟩
  · intro numPoints effectiveThreads dim sketchBytes shardPoints budget
    simp only [planResidentReservoirPrefix_eq hpoint]
    refine ⟨residentPrefix_le, residentPrefix_eq_or_dvd,
      fun budget' h => residentPrefix_mono (roomForReservoirs_mono h _ _ _), fun hpos => ?_⟩
    have hroom := roomForReservoirs_spec (Nat.lt_of_lt_of_le hpos residentPrefix_le_room)
    refine Nat.le_trans ?_ hroom
    simp only [Nat.add_le_add_iff_right]
    exact Nat.mul_le_mul_right _ residentPrefix_le_room
  · intro numPoints cap
    simp only [planResidentReservoirPrefixFromCap_eq hpoint]
    refine ⟨Nat.min_le_right _ _, ?_⟩
    calc min (cap.toNat / max (layout.pointBytes params.lMax) 1) numPoints.toNat *
          layout.pointBytes params.lMax
        _ ≤ cap.toNat / max (layout.pointBytes params.lMax) 1 * max (layout.pointBytes params.lMax) 1 :=
          Nat.mul_le_mul (Nat.min_le_left _ _) (Nat.le_max_left _ _)
        _ ≤ cap.toNat := Nat.div_mul_le_self _ _
  · intro requestedThreads dim
    obtain ⟨hone, hle⟩ := deriveOomWorkerCount_bounds requestedThreads params dim
    refine ⟨hone, hle, ?_⟩
    by_cases h : (deriveOomWorkerCount requestedThreads params dim).toNat = 1
    · exact .inl h
    · exact .inr (deriveOomWorkerCount_fits h)

/-- Reservoirs of 64 slots, and 32 GiB of which 4 are for the reservoirs. -/
def slots64 : ForgeANNParams := ⟨64, 2, 1280, 32 * 1024 * 1024 * 1024, 4 * 1024 * 1024 * 1024⟩

/-- Of ten million points a good half is resident. -/
theorem memoryPlans_within_budget_64 :
    let resident := (planResidentReservoirPrefix ⟨48, 56⟩ 10000000 8 slots64 768 1000 65536
      (4 * 1024 * 1024 * 1024)).residentPoints.toNat
    let workers := (deriveOomWorkerCount 8 slots64 768).toNat
    (0 < resident ∧
      resident * ReservoirLayout.pointBytes ⟨48, 56⟩ slots64.lMax +
        leafScratchBytes slots64.kernelSafeLeafSize.toNat (768 : UInt64).toNat
          slots64.leafKnn.toNat * max (8 : UInt64).toNat 1 + (1000 : UInt64).toNat +
        max ((4 * 1024 * 1024 * 1024 : UInt64).toNat / 10) (512 * 1024 * 1024) ≤
          (4 * 1024 * 1024 * 1024 : UInt64).toNat) ∧
    1 ≤ workers ∧ workers ≤ max (8 : UInt64).toNat 1 ∧
      (workers = 1 ∨
        workers * (leafScratchBytes slots64.kernelSafeLeafSize.toNat (768 : UInt64).toNat
          slots64.leafKnn.toNat + 32 * 1024 * 1024) ≤
            slots64.effectiveOomMemoryBudgetBytes.toNat) := by
  obtain ⟨hplan, -, hworkers, -⟩ := memoryPlans_within_budget ⟨48, 56⟩ slots64 (by decide)
  have hpos : 0 < (planResidentReservoirPrefix ⟨48, 56⟩ 10000000 8 slots64 768 1000 65536
      (4 * 1024 * 1024 * 1024)).residentPoints.toNat := by decide +kernel
  exact ⟨⟨hpos, (hplan 10000000 8 768 1000 65536 (4 * 1024 * 1024 * 1024)).2.2.2 hpos⟩,
    hworkers 8 768⟩

end ForgeANN
