import ZbxChain.Node.Replay
import ZbxChain.Node.PartialSeed
import ZbxChain.Node.StateRoot
import ZbxChain.Execution.Fees
import ZbxChain.Execution.EscrowSolvency
import ZbxChain.Staking.Equivocation
import ZbxChain.Rlp.Canonical
import ZbxChain.Execution.SigningBinding
import ZbxChain.Execution.Authority
import ZbxChain.Zvm.MemoryRuns
import ZbxChain.Consensus.DoubleSigning
import ZbxChain.Consensus.Rotation
import ZbxChain.Consensus.Agreement
import ZbxChain.Consensus.Committee
import ZbxChain.Node.Replicas
import ZbxChain.Bridge.Receipts
import ZbxChain.Bridge.Binding
import ZbxChain.Light.HeaderChain
import ZbxChain.Light.Spv
import ZbxChain.Pruner.Deadlock
import ZbxChain.Sync.Coordinator
import ZbxChain.Node.CandidateTurns
import ZbxChain.Staking.DelegatorClaims
import ZbxChain.Staking.Rewards
import ZbxChain.Staking.ElectionOrder
import ZbxChain.Staking.FailedWrites
import ZbxChain.Staking.LifeCycle
import ZbxChain.Node.Rejections
