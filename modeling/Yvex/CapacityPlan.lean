import Yvex.AttentionData
import Yvex.CheckedArithmetic

/-!
# Execution capacity plans

The admitted memory plan of a session with its state classes.
-/

set_option autoImplicit false

namespace Yvex.CapacityPlan

open AttentionData

structure StateClassPlan where
  stateClass : ℕ
  extent : ℕ
  logicalBlockTokens : ℕ
  bytesPerBlock : ℕ
  pageTokens : ℕ
  pageBytes : ℕ
  tokensPerSequence : ℕ
  poolTokens : ℕ
  poolBytes : ℕ
  pageCount : ℕ
  pageTableBytes : ℕ
  tailFragmentationBytes : ℕ
  copyOnWriteTailBytes : ℕ
  promotionFragmentationBytes : ℕ
  shared : Bool
  copyOnWrite : Bool

structure ExecutionCapacityPlan where
  schemaVersion : ℕ
  modelMaximumContext : ℕ
  admittedExecutionMaximum : ℕ
  perSessionMaximum : ℕ
  perRequestMaximum : ℕ
  totalLogicalContextTokens : ℕ
  physicalStatePoolTokens : ℕ
  candidateReserveTokens : ℕ
  concurrentSequences : ℕ
  logicalBatchTokens : ℕ
  attentionMicrobatchRows : ℕ
  moeRowTile : ℕ
  outputHeadRows : ℕ
  modelBytes : ℕ
  derivedLayoutBytes : ℕ
  statePoolBytes : ℕ
  candidateReserveBytes : ℕ
  workspaceBytes : ℕ
  schedulerBytes : ℕ
  graphBytes : ℕ
  prefixCacheBytes : ℕ
  persistentStateBytes : ℕ
  systemReserveBytes : ℕ
  requiredBytes : ℕ
  usableMemoryBytes : ℕ
  unreservedBytes : ℕ
  stateClasses : List StateClassPlan
  modelExecutionIdentity : Identity
  hardwareProfileIdentity : Identity
  workloadProfileIdentity : Identity
  identity : Identity

end Yvex.CapacityPlan
