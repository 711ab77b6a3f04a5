import NeatPoS.Consensus.HeightVoteSet
import NeatPoS.Core.BlockChain
import NeatPoS.Core.ChainContract
import NeatPoS.Lib.Stateful
import NeatPoS.Types.Block

/-!
# The consensus state machine: data

The state of `consensus/state.go`: `RoundState`, `ConsensusState`, the messages, the timeouts, and
the monad the transition functions are written in.

* A node is a `ConsensusState`.  The transition functions run in `Node`, a state monad with panics:
  a panic keeps the state reached so far, because deferred functions still run on it (`deferred`, in
  `NeatPoS.Lib.Stateful`).
* What the code reads from the outside (the chain, the clock, the third-party libraries) is the
  record `Env`, one for each step.
* `trace` is a ghost field, most recent event first: what the node schedules, sends and fires, the
  votes it signs, each with a copy of the round state at that moment, and every decision about the
  lock.  The code never reads it; the results about runs are statements about it.
* `StartTime` and `CommitTime` only set timers and are left out, as are the cached proposer and
  `isProposer`, which are recomputed from `vrfValIndex` whenever height or round differ.
* Pointers shared by two fields matter in one place: `LockedBlock` and `LockedBlockParts` may be
  the same objects as `ProposalBlock` and `ProposalBlockParts`, which are mutated in place.  The
  two flags `lockedBlockShared` and `lockedPartsShared` say whether they are.
-/

set_option autoImplicit false

namespace NeatPoS

/-- `RoundStepType`. -/
inductive RoundStep where
  | newHeight
  | newRound
  | waitForMinerBlock
  | propose
  | prevote
  | prevoteWait
  | precommit
  | precommitWait
  | commit
deriving DecidableEq, Repr

/-- The value of the step; the steps are compared by it. -/
def RoundStep.num : RoundStep → Nat
  | .newHeight => 1
  | .newRound => 2
  | .waitForMinerBlock => 3
  | .propose => 4
  | .prevote => 5
  | .prevoteWait => 6
  | .precommit => 7
  | .precommitWait => 8
  | .commit => 9

/-- `timeoutInfo`, without the duration. -/
structure TimeoutInfo where
  height : Nat
  round : Int
  step : RoundStep
deriving DecidableEq, Repr

/-- The consensus messages that change the state.  The pointers inside may be nil. -/
inductive Msg where
  | proposal (p : Option Proposal)
  | blockPart (height : Nat) (round : Int) (part : Option Part)
  | maj23SignAggr (sa : Option SignAggr)
  | vote (v : Option Vote)
deriving DecidableEq, Repr

/-- `RoundState`. -/
structure RoundState where
  height : Nat
  round : Int
  step : RoundStep
  validators : ValidatorSet
  proposal : Option Proposal
  proposalBlock : Option TdmBlock
  proposalBlockParts : Option PartSet
  proposerPeerKey : String
  lockedRound : Int
  lockedBlock : Option TdmBlock
  lockedBlockParts : Option PartSet
  votes : HeightVoteSet
  voteSignAggr : HeightVoteSignAggr
  commitRound : Int
  prevoteMaj23SignAggr : Option SignAggr
  precommitMaj23SignAggr : Option SignAggr

/-- What a majority of prevotes makes of the lock. -/
inductive LockAction where
  /-- `LockedBlock` becomes `ProposalBlock`. -/
  | lock
  /-- The majority is for the locked block. -/
  | relock
  /-- The lock is given up. -/
  | unlock
deriving DecidableEq, Repr

/-- What a node leaves behind. -/
inductive Event where
  /-- `scheduleTimeout` -/
  | tick (ti : TimeoutInfo)
  /-- `sendInternalMessage` -/
  | internal (m : Msg)
  /-- `FireEventVote2Proposer` -/
  | vote2Proposer (v : Vote) (proposerKey : String)
  /-- `FireEventSignAggr` -/
  | signAggr (sa : SignAggr)
  /-- `signVote`, with the round state at that moment. -/
  | signed (rs : RoundState) (v : Vote)
  /-- The lock is reconsidered because of a majority of prevotes for `b` in round `r`; `before` is
  the round state just before. -/
  | polka (before : RoundState) (r : Int) (b : BlockID) (act : LockAction)
  /-- `finalizeCommit` is called for the majority `b`, in the given round state. -/
  | finalizeCommit (rs : RoundState) (b : BlockID)
  /-- `backend.Commit` -/
  | committed (b : TdmBlock)

/-- `epoch.Epoch`: the fields that are written to a block. -/
structure Epoch where
  number : Nat
  rewardPerBlock : Int
  startBlock : Nat
  endBlock : Nat
  startTime : Int
  endTime : Int
  blockGenerated : Int
  status : Int
  validators : ValidatorSet
deriving DecidableEq, Repr

/-- `ConsensusState`. -/
structure ConsensusState extends RoundState where
  /-- `chainConfig.NeatChainId` -/
  chainID : String
  /-- `privValidator.GetAddress()`; a node does not start without a key. -/
  privAddress : Bytes
  epoch : Epoch
  /-- The `nextEpoch` field of the epoch. -/
  nextEpoch : Option Epoch
  /-- `state.NcExtra`, the extra data of the last block. -/
  ncExtra : NeatconExtra
  vrfValIndex : Int
  pastRoundStates : List (Int × Nat)
  blockFromMiner : Option Block
  lockedBlockShared : Bool
  lockedPartsShared : Bool
  trace : List Event
  /-- The panic that has ended the node, if one has. -/
  crashed : Option Panic

/-- What a step reads from the outside. -/
structure Env where
  lib : Neatlib
  chain : BlockChain
  /-- The SHA-256 hash, as a number. -/
  sha256 : Bytes → Nat
  /-- `time.Now()` -/
  now : Int
  /-- The global `NodeID`. -/
  nodeID : String
  /-- `FunctionTypeFromId` -/
  functionTypeFromId : Bytes → Option FunctionType
  /-- `GetTX3ProofData` for the arguments of a withdrawal. -/
  getTX3ProofData : Transaction → Option TX3ProofData
  /-- `ValidateTX3ProofData` and `ValidateTX4WithInMemTX3ProofData` both succeed. -/
  validateTX3ProofData : Transaction → TX3ProofData → Bool
  /-- `Epoch.Bytes` -/
  epochBytes : Epoch → Bytes
  /-- `epoch.FromBytes` -/
  epochFromBytes : Bytes → Option Epoch
  /-- `loadOneEpoch` of the next epoch. -/
  loadNextEpoch : Option Epoch
  /-- `Epoch.ProposeNextEpoch`, on the current block. -/
  proposeNextEpoch : Epoch → Epoch
  /-- `Epoch.ValidateNextEpoch` succeeds. -/
  validateNextEpoch : Epoch → Epoch → Bool
  /-- `LoadLastNeatconExtra`; nil before the first block. -/
  loadLastNeatconExtra : Option NeatconExtra
  /-- The epoch at the start of a height, with its next epoch. -/
  currentEpoch : Epoch × Option Epoch

/-! ## The monad -/

/-- State transformers of a node, with panics. -/
abbrev Node := EStateM Panic ConsensusState

/-- Adds an event to the trace. -/
def emit (e : Event) : Node Unit := modify fun cs => { cs with trace := e :: cs.trace }

end NeatPoS
