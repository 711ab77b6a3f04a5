import NeatPoS.Engine.VerifyHeader
import NeatPoS.Epoch.Switch

/-!
# The end of a block

`Finalize` is what the engine does after the transactions of a block: it pays the rewards of the
block, counts who has signed its parent, and switches the epoch at the end of one.  At the end the
header gets the root of the state, for which `Finalise` is run: the accounts that have been touched
and that `empty` accepts are deleted, whatever their counters say.

What is taken from outside: the launch of side chains, the reward per block that a side chain keeps
in its state, and the product of `big.Float`s that decides which part of the reward belongs to the
validator itself.
-/

set_option autoImplicit false

namespace NeatPoS

/-! ## Rewards -/

/-- The account that a side chain takes its rewards from. -/
def sideChainRewardAddress : Address := "NEAT3HUowneGAMMUwnj8SfiATomdZdqv".toUTF8.toList

/-- What `accumulateRewards` takes from outside. -/
structure RewardEnv where
  /-- The chain is a main chain. -/
  mainChain : Bool
  /-- `GetSideChainRewardPerBlock` -/
  sideChainRewardPerBlock : Option Int
  /-- The product of the reward and the quotient of the deposits, computed with `big.Float`s and
  truncated. -/
  selfShare : (coinbaseReward selfDeposit totalDeposit : Int) → Int

namespace StateDB

/-- What the block pays, and the state without what a side chain takes from its pool. -/
def coinbaseReward (env : RewardEnv) (ep : Epoch) (totalGasFee : Int) (s : StateDB) :
    Int × StateDB :=
  if env.mainChain then
    if 0 < ep.rewardPerBlock then (ep.rewardPerBlock + totalGasFee, s) else (totalGasFee, s)
  else
    match env.sideChainRewardPerBlock with
    | some rewardPerBlock =>
      if 0 < rewardPerBlock then
        let sideChainRewardBalance := s.getBalance sideChainRewardAddress
        let rewardPerBlock :=
          if sideChainRewardBalance < rewardPerBlock then sideChainRewardBalance else rewardPerBlock
        (rewardPerBlock + totalGasFee, s.subBalance sideChainRewardAddress rewardPerBlock)
      else (totalGasFee, s)
    | none => (totalGasFee, s)

/-- The part of the coinbase and that of the delegators, which is nil if there are none. -/
def splitReward (env : RewardEnv) (coinbaseReward selfDeposit totalProxiedDeposit : Int)
    (commission : Nat) : Int × Option Int :=
  if totalProxiedDeposit = 0 then (coinbaseReward, none)
  else
    let totalDeposit := selfDeposit + totalProxiedDeposit
    let selfReward := env.selfShare coinbaseReward selfDeposit totalDeposit
    let delegateReward := coinbaseReward - selfReward
    if 0 < commission then
      let commissionReward := (delegateReward * commission).tdiv 100
      (selfReward + commissionReward, some (delegateReward - commissionReward))
    else (selfReward, some delegateReward)

/-- One delegator is paid, and what has been paid is added up. -/
def payDelegator (coinbase : Address) (delegateReward totalProxiedDeposit : Int)
    (st : StateDB × Int) (key : Address) : StateDB × Int :=
  let depositProxiedBalance := (st.1.getAccountProxiedBalance coinbase key).depositProxiedBalance
  if 0 < depositProxiedBalance then
    let individualReward := (depositProxiedBalance * delegateReward).tdiv totalProxiedDeposit
    (st.1.addRewardBalanceByDelegateAddress key coinbase individualReward, st.2 + individualReward)
  else st

/-- The delegators are paid, and the coinbase gets what is left. -/
def payDelegators (rt : Runtime) (coinbase : Address) (delegateReward totalProxiedDeposit : Int)
    (s : StateDB) : StateDB :=
  let (s, totalIndividualReward) := (rt.trieOrder.list (s.proxiedTrie coinbase)).foldl
    (payDelegator coinbase delegateReward totalProxiedDeposit) (s, 0)
  if totalIndividualReward < delegateReward then
    s.addRewardBalanceByDelegateAddress coinbase coinbase (delegateReward - totalIndividualReward)
  else if delegateReward < totalIndividualReward then
    s.subRewardBalanceByDelegateAddress coinbase coinbase (totalIndividualReward - delegateReward)
  else s

/-- `accumulateRewards` -/
def accumulateRewards (rt : Runtime) (env : RewardEnv) (coinbase : Address) (ep : Epoch)
    (totalGasFee : Int) (s : StateDB) : StateDB :=
  let (coinbaseReward, s) := s.coinbaseReward env ep totalGasFee
  let totalProxiedDeposit := s.getTotalDepositProxiedBalance coinbase
  let (selfReward, delegateReward) := splitReward env coinbaseReward (s.getDepositBalance coinbase)
    totalProxiedDeposit (s.accounts coinbase).commission
  let s := s.addRewardBalanceByDelegateAddress coinbase coinbase selfReward
  match delegateReward with
  | some delegateReward =>
    if 0 < delegateReward then s.payDelegators rt coinbase delegateReward totalProxiedDeposit else s
  | none => s

end StateDB

/-! ## The whole of it -/

/-- The validators that have signed the parent are counted, and bans are decided. -/
def updateValidatorStatus (lib : Neatlib) (epoch : Epoch) (number : Nat)
    (prevHeader : Option Header) (s : StateDB) : Except Panic StateDB :=
  if 1 < number then
    match prevHeader with
    | none => .ok s
    | some prevHeader =>
      match extractNeatconExtra lib prevHeader with
      | none => .ok s
      | some extra => updateBannedState epoch number extra.seenCommit s
  else .ok s

/-- What `Finalize` does before it looks at the parent: side chains are launched, on main chains,
and the rewards are paid.  `launchSideChains` is `ReadyForLaunchSideChain`, which may change the
state. -/
def rewardBlock (rt : Runtime) (env : RewardEnv) (launchSideChains : Nat → StateDB → StateDB)
    (epoch : Epoch) (number : Nat) (coinbase : Address) (totalGasFee : Int) (s : StateDB) :
    StateDB :=
  let s := if env.mainChain then launchSideChains number s else s
  s.accumulateRewards rt env coinbase epoch totalGasFee

/-- `Finalize`, from the epoch of the block on.  `nextEpoch` is nil, or has the votes for it.  The
last step is `IntermediateRoot(true)`: `EIP158Block` is 0 in every configuration. -/
def finalize (rt : Runtime) (lib : Neatlib) (env : RewardEnv)
    (launchSideChains : Nat → StateDB → StateDB)
    (epoch : Epoch) (nextEpoch : Option (Option EpochValidatorVoteSet)) (number : Nat)
    (coinbase : Address)
    (prevHeader : Option Header) (totalGasFee : Int) (s : StateDB) :
    Except Panic (StateDB × SwitchResult) := do
  let s := rewardBlock rt env launchSideChains epoch number coinbase totalGasFee s
  let s ← updateValidatorStatus lib epoch number prevHeader s
  let (s, switched) := shouldEnterNewEpoch rt epoch nextEpoch number s
  let s ← s.finalise
  return (s, switched)

end NeatPoS
