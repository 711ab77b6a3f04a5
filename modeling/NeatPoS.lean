import NeatPoS.Consensus.Agreement
import NeatPoS.Consensus.Completeness
import NeatPoS.Consensus.LockRule
import NeatPoS.Consensus.PartsHeader
import NeatPoS.Consensus.PrevoteValidity
import NeatPoS.Consensus.ProposerDraw
import NeatPoS.Consensus.Reactor
import NeatPoS.Core.Clearing
import NeatPoS.Core.Copy
import NeatPoS.Core.Iteration
import NeatPoS.Core.LostUpdates
import NeatPoS.Core.Reset
import NeatPoS.Core.Revert
import NeatPoS.Core.TxMarks
import NeatPoS.Core.WriteBlock
import NeatPoS.CrossChain.EpochLookup
import NeatPoS.CrossChain.Withdrawal
import NeatPoS.Crypto.Recovery
import NeatPoS.DataReduction.Retention
import NeatPoS.Engine.Rewards
import NeatPoS.Engine.SeenCommit
import NeatPoS.Epoch.Determinism
import NeatPoS.Epoch.DryRun
import NeatPoS.Epoch.Emission
import NeatPoS.Epoch.NextEpoch
import NeatPoS.Staking.Backing
import NeatPoS.Staking.CandidateSet
import NeatPoS.Staking.Fees
import NeatPoS.Staking.VoteKeys
import NeatPoS.Types.PartSets
import NeatPoS.Types.Proposal
import NeatPoS.Engine.VerifyHeaders
import NeatPoS.Staking.Supply
