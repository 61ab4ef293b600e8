-- SUMMARY: How many threads build the sketches, and in chunks of how many rows, within the sketch cache budget.
import ForgeANN.Common.Params

/-!
# The sketch build plan

Threads are taken away until each of them has room for a chunk of the least
size, and what the budget then leaves to a thread makes its chunk. A budget
below one such chunk is the exception: one thread works in chunks of the least
size.
-/
namespace ForgeANN

open UInt64

def DEFAULT_SKETCH_BUILD_CHUNK_BYTES : UInt64 := 64 * 1024 * 1024

def MIN_SKETCH_BUILD_CHUNK_ROWS : UInt64 := 1024

structure SketchBuildPlan where
  threads : UInt64
  chunkRows : UInt64
  estimatedConcurrentBytes : UInt64
  budgetBytes : UInt64
  bytesPerRow : UInt64
deriving DecidableEq, Repr

def sketchBuildBytesPerRow (width dim : UInt64) : UInt64 :=
  max ((width.saturatingMul 4).saturatingAdd (dim.saturatingMul 4)) 1

/-- `availableParallelism` is what the system answers, and 1 where it fails to. -/
def requestedSketchThreads (availableParallelism : UInt64) (requestedThreads : UInt32) : UInt64 :=
  max (if requestedThreads = 0 then availableParallelism else requestedThreads.toUInt64) 1

/-- What one worker holds: the hyperplanes, a point, and 4 MiB. -/
def sketchBuildPerWorkerBytes (dim width : UInt64) : UInt64 :=
  max ((((dim.saturatingMul width).saturatingMul 4).saturatingAdd
    (dim.saturatingMul 4)).saturatingAdd (4 * 1024 * 1024)) 1

def sketchBuildMemoryThreadLimit (params : ForgeANNParams) (dim width : UInt64) : UInt64 :=
  max (params.effectiveOomMemoryBudgetBytes / sketchBuildPerWorkerBytes dim width) 1

/-- A chunk of the least size. -/
def minChunkBytes (bytesPerRow : UInt64) : UInt64 :=
  MIN_SKETCH_BUILD_CHUNK_ROWS.saturatingMul bytesPerRow

def SketchBuildPlan.forParams (availableParallelism : UInt64) (params : ForgeANNParams)
    (width dim : UInt64) (requestedThreads : UInt32) : SketchBuildPlan :=
  let requested := requestedSketchThreads availableParallelism requestedThreads
  let memoryThreads := sketchBuildMemoryThreadLimit params dim width
  let threads := max (min requested memoryThreads) 1
  let bytesPerRow := sketchBuildBytesPerRow width dim
  let budgetBytes :=
    if params.oomSketchCacheBytes = 0 then DEFAULT_SKETCH_BUILD_CHUNK_BYTES.saturatingMul threads
    else params.oomSketchCacheBytes
  let threads :=
    if 0 < params.oomSketchCacheBytes then
      max (min threads (max (budgetBytes / max (minChunkBytes bytesPerRow) 1) 1)) 1
    else threads
  let perThreadBudget := max (budgetBytes / max threads 1) bytesPerRow
  let chunkRows := max (perThreadBudget / bytesPerRow) MIN_SKETCH_BUILD_CHUNK_ROWS
  { threads
    chunkRows
    estimatedConcurrentBytes := (chunkRows.saturatingMul bytesPerRow).saturatingMul threads
    budgetBytes
    bytesPerRow }

/-! ## What the plan takes -/

theorem sketchBuildBytesPerRow_capped (width dim : UInt64) :
    (sketchBuildBytesPerRow width dim).Capped (max (width.toNat * 4 + dim.toNat * 4) 1) :=
  (((Capped.of_toNat width).mul (.of_toNat 4)).add ((Capped.of_toNat dim).mul (.of_toNat 4))).max
    (.of_toNat 1)

theorem sketchBuildPerWorkerBytes_capped (dim width : UInt64) :
    (sketchBuildPerWorkerBytes dim width).Capped
      (max (dim.toNat * width.toNat * 4 + dim.toNat * 4 + 4 * 1024 * 1024) 1) :=
  (((((Capped.of_toNat dim).mul (.of_toNat width)).mul (.of_toNat 4)).add
    ((Capped.of_toNat dim).mul (.of_toNat 4))).add (.of_toNat (4 * 1024 * 1024))).max (.of_toNat 1)

theorem minChunkBytes_capped (bytesPerRow : UInt64) :
    (minChunkBytes bytesPerRow).Capped (1024 * bytesPerRow.toNat) :=
  (Capped.of_toNat MIN_SKETCH_BUILD_CHUNK_ROWS).mul (.of_toNat bytesPerRow)

theorem sketchBuildBytesPerRow_pos (width dim : UInt64) :
    0 < (sketchBuildBytesPerRow width dim).toNat := by
  rw [sketchBuildBytesPerRow, UInt64.toNat_max]
  exact Nat.lt_of_lt_of_le Nat.one_pos (Nat.le_max_right _ _)

theorem minChunkBytes_pos {bytesPerRow : UInt64} (h : 0 < bytesPerRow.toNat) :
    0 < (minChunkBytes bytesPerRow).toNat := by
  rw [minChunkBytes_capped bytesPerRow]
  exact Nat.lt_min.mpr ⟨Nat.mul_pos (by decide) h, by decide⟩

/-- Where every thread has room for a chunk of the least size, the chunks fit the budget. -/
theorem chunks_le_budget {budget row threads : Nat} (hrow : 0 < row) (hthreads : 0 < threads)
    (hfit : threads * (1024 * row) ≤ budget) :
    max (max (budget / threads) row / row) 1024 * row * threads ≤ budget := by
  have hshare : 1024 * row ≤ budget / threads := (Nat.le_div_iff_mul_le hthreads).mpr (by
    rw [Nat.mul_comm]
    exact hfit)
  have hper : max (budget / threads) row = budget / threads := Nat.max_eq_left (by omega)
  have hrows : max (budget / threads / row) 1024 = budget / threads / row :=
    Nat.max_eq_left ((Nat.le_div_iff_mul_le hrow).mpr hshare)
  rw [hper, hrows]
  calc budget / threads / row * row * threads
      _ ≤ budget / threads * threads := Nat.mul_le_mul_right _ (Nat.div_mul_le_self _ _)
      _ ≤ budget := Nat.div_mul_le_self _ _

/-- A budget below one chunk of the least size is spent on one such chunk. -/
theorem chunk_rows_of_small_budget {budget row : Nat} (hrow : 0 < row) (hsmall : budget < 1024 * row) :
    max (max budget row / row) 1024 = 1024 := by
  apply Nat.max_eq_right
  apply Nat.le_of_lt_succ
  rw [Nat.div_lt_iff_lt_mul hrow]
  omega

namespace SketchBuildPlan

variable (availableParallelism : UInt64) (params : ForgeANNParams) (width dim : UInt64)
  (requestedThreads : UInt32)

theorem one_le_threads :
    1 ≤ (forParams availableParallelism params width dim requestedThreads).threads.toNat := by
  simp only [forParams]
  split
  · rw [UInt64.toNat_max]
    exact Nat.le_max_right _ _
  · rw [UInt64.toNat_max]
    exact Nat.le_max_right _ _

theorem chunkRows_ge :
    1024 ≤ (forParams availableParallelism params width dim requestedThreads).chunkRows.toNat := by
  simp only [forParams]
  rw [UInt64.toNat_max]
  exact Nat.le_max_right _ _

theorem estimatedConcurrentBytes_capped :
    (forParams availableParallelism params width dim requestedThreads).estimatedConcurrentBytes.Capped
      ((forParams availableParallelism params width dim requestedThreads).chunkRows.toNat *
        (sketchBuildBytesPerRow width dim).toNat *
        (forParams availableParallelism params width dim requestedThreads).threads.toNat) :=
  ((Capped.of_toNat _).mul (.of_toNat _)).mul (.of_toNat _)

variable {availableParallelism params width dim requestedThreads}

/-- With a cache budget, there are no more threads than chunks of the least size fit into it. -/
theorem threads_mul_minChunk_le (availableParallelism : UInt64) (requestedThreads : UInt32)
    (hcache : 0 < params.oomSketchCacheBytes)
    (hfits : (minChunkBytes (sketchBuildBytesPerRow width dim)).toNat ≤
      params.oomSketchCacheBytes.toNat) :
    (forParams availableParallelism params width dim requestedThreads).threads.toNat *
      (minChunkBytes (sketchBuildBytesPerRow width dim)).toNat ≤
        params.oomSketchCacheBytes.toNat := by
  have hne : params.oomSketchCacheBytes ≠ 0 := fun h => by simp [h] at hcache
  have hpos := minChunkBytes_pos (sketchBuildBytesPerRow_pos width dim)
  have hone : 1 ≤ params.oomSketchCacheBytes.toNat /
      (minChunkBytes (sketchBuildBytesPerRow width dim)).toNat := (Nat.le_div_iff_mul_le hpos).mpr (by omega)
  simp only [forParams, if_pos hcache, if_neg hne, UInt64.toNat_max, UInt64.toNat_min,
    UInt64.toNat_div, UInt64.toNat_one, Nat.max_eq_left hpos]
  refine Nat.le_trans (Nat.mul_le_mul_right _ ?_) (Nat.div_mul_le_self _ _)
  omega

/-- Below a chunk of the least size, the budget is for one thread. -/
theorem threads_eq_one (hcache : 0 < params.oomSketchCacheBytes)
    (hsmall : params.oomSketchCacheBytes.toNat <
      (minChunkBytes (sketchBuildBytesPerRow width dim)).toNat) :
    (forParams availableParallelism params width dim requestedThreads).threads.toNat = 1 := by
  have hne : params.oomSketchCacheBytes ≠ 0 := fun h => by simp [h] at hcache
  have hpos := minChunkBytes_pos (sketchBuildBytesPerRow_pos width dim)
  simp only [forParams, if_pos hcache, if_neg hne, UInt64.toNat_max, UInt64.toNat_min,
    UInt64.toNat_div, UInt64.toNat_one, Nat.max_eq_left hpos, Nat.div_eq_of_lt hsmall]
  omega

/-- The rows of a chunk, from the number of threads. -/
theorem chunkRows_eq (hcache : 0 < params.oomSketchCacheBytes) :
    (forParams availableParallelism params width dim requestedThreads).chunkRows.toNat =
      max (max (params.oomSketchCacheBytes.toNat /
          (forParams availableParallelism params width dim requestedThreads).threads.toNat)
        (sketchBuildBytesPerRow width dim).toNat / (sketchBuildBytesPerRow width dim).toNat) 1024 := by
  have hne : params.oomSketchCacheBytes ≠ 0 := fun h => by simp [h] at hcache
  have hthreads := one_le_threads availableParallelism params width dim requestedThreads
  simp only [forParams, if_pos hcache, if_neg hne] at hthreads ⊢
  rw [UInt64.toNat_max, UInt64.toNat_div, UInt64.toNat_max, UInt64.toNat_div, UInt64.toNat_max _ 1,
    UInt64.toNat_one, Nat.max_eq_left hthreads]
  rfl

/-- What the chunks of all threads take is within the cache budget, or one chunk of the least size, and
every product on the way saturates. -/
theorem forParams_within_budget (availableParallelism : UInt64) (params : ForgeANNParams)
    (width dim : UInt64) (requestedThreads : UInt32) (hcache : 0 < params.oomSketchCacheBytes) :
    let plan := forParams availableParallelism params width dim requestedThreads
    1 ≤ plan.threads.toNat ∧ 1024 ≤ plan.chunkRows.toNat ∧
    plan.estimatedConcurrentBytes.toNat ≤
      max params.oomSketchCacheBytes.toNat (minChunkBytes plan.bytesPerRow).toNat ∧
    plan.estimatedConcurrentBytes.Capped
      (plan.chunkRows.toNat * plan.bytesPerRow.toNat * plan.threads.toNat) ∧
    plan.bytesPerRow.Capped (max (width.toNat * 4 + dim.toNat * 4) 1) ∧
    (minChunkBytes plan.bytesPerRow).Capped (1024 * plan.bytesPerRow.toNat) ∧
    (sketchBuildPerWorkerBytes dim width).Capped
      (max (dim.toNat * width.toNat * 4 + dim.toNat * 4 + 4 * 1024 * 1024) 1) := by
  refine ⟨one_le_threads .., chunkRows_ge .., ?_, estimatedConcurrentBytes_capped ..,
    sketchBuildBytesPerRow_capped width dim, minChunkBytes_capped _,
    sketchBuildPerWorkerBytes_capped dim width⟩
  have hest := estimatedConcurrentBytes_capped availableParallelism params width dim requestedThreads
  have hmin := minChunkBytes_capped (sketchBuildBytesPerRow width dim)
  have hrow := sketchBuildBytesPerRow_pos width dim
  have hthreads := one_le_threads availableParallelism params width dim requestedThreads
  rw [chunkRows_eq hcache] at hest
  show _ ≤ max _ (minChunkBytes (sketchBuildBytesPerRow width dim)).toNat
  rcases Nat.lt_or_ge params.oomSketchCacheBytes.toNat
      (minChunkBytes (sketchBuildBytesPerRow width dim)).toNat with hsmall | hfits
  · rw [threads_eq_one hcache hsmall, Nat.div_one, Nat.mul_one,
      chunk_rows_of_small_budget hrow (Nat.lt_of_lt_of_le hsmall hmin.le)] at hest
    exact Nat.le_trans (hest.trans hmin.symm).le (Nat.le_max_right _ _)
  · refine Nat.le_trans ?_ (Nat.le_max_left _ _)
    rcases Nat.lt_or_ge (minChunkBytes (sketchBuildBytesPerRow width dim)).toNat maxNat with hlt | hsat
    · have hroom := threads_mul_minChunk_le availableParallelism requestedThreads hcache hfits
      rw [hmin.eq_of_lt hlt] at hroom
      exact Nat.le_trans hest.le (chunks_le_budget hrow hthreads hroom)
    · exact Nat.le_trans (toNat_le_maxNat _) (Nat.le_trans hsat hfits)

/-- With 4 GiB for 42 threads over vectors of 768 dimensions. -/
theorem forParams_within_budget_42 :
    let params : ForgeANNParams := ⟨64, 2, 1280, 32 * 1024 * 1024 * 1024, 4 * 1024 * 1024 * 1024⟩
    let plan := forParams 8 params 12 768 42
    1 ≤ plan.threads.toNat ∧ 1024 ≤ plan.chunkRows.toNat ∧
    plan.estimatedConcurrentBytes.toNat ≤
      max params.oomSketchCacheBytes.toNat (minChunkBytes plan.bytesPerRow).toNat ∧
    plan.estimatedConcurrentBytes.Capped
      (plan.chunkRows.toNat * plan.bytesPerRow.toNat * plan.threads.toNat) ∧
    plan.bytesPerRow.Capped (max ((12 : UInt64).toNat * 4 + (768 : UInt64).toNat * 4) 1) ∧
    (minChunkBytes plan.bytesPerRow).Capped (1024 * plan.bytesPerRow.toNat) ∧
    (sketchBuildPerWorkerBytes 768 12).Capped
      (max ((768 : UInt64).toNat * (12 : UInt64).toNat * 4 + (768 : UInt64).toNat * 4 +
        4 * 1024 * 1024) 1) :=
  forParams_within_budget 8 ⟨64, 2, 1280, 32 * 1024 * 1024 * 1024, 4 * 1024 * 1024 * 1024⟩ 12 768 42
    (by decide)

end SketchBuildPlan

end ForgeANN
