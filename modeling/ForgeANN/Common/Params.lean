-- SUMMARY: The build parameters that memory budgets are computed from.
import ForgeANN.Lib.Saturating

/-!
# Build parameters
-/
namespace ForgeANN

/-- Of the parameters, those that size buffers. A `usize` has 64 bits. -/
structure ForgeANNParams where
  lMax : UInt64
  leafKnn : UInt64
  maxFullMatrixLeafSize : UInt64
  oomMemoryBudgetBytes : UInt64
  oomSketchCacheBytes : UInt64
deriving DecidableEq, Repr

namespace ForgeANNParams

def DEFAULT_OOM_MEMORY_BUDGET_BYTES : UInt64 := 12 * 1024 * 1024 * 1024

def MIN_OOM_MEMORY_BUDGET_BYTES : UInt64 := 512 * 1024 * 1024

variable (params : ForgeANNParams)

def effectiveOomMemoryBudgetBytes : UInt64 :=
  if params.oomMemoryBudgetBytes = 0 then DEFAULT_OOM_MEMORY_BUDGET_BYTES
  else max params.oomMemoryBudgetBytes MIN_OOM_MEMORY_BUDGET_BYTES

def kernelSafeLeafSize : UInt64 := max params.maxFullMatrixLeafSize 1

end ForgeANNParams

end ForgeANN
