import NeatPoS.Epoch.Switch

/-!
# Staking transactions

The callbacks of `internal/neatapi/api.go` (register, unregister, delegate, undelegate, withdraw a
reward, set the commission, lift a ban) and the part of `ApplyTransactionEx`
(`core/state_processor1.go`) around them.

Every callback validates its transaction first.  A transaction that does not pass makes the whole
block invalid, so that an error is the end of the matter.  Note the order at the end of a
transaction: the state is finalised, and only then is the nonce of the sender raised.
-/

set_option autoImplicit false

namespace NeatPoS

/-- The calls of the chain's own contract that concern staking. -/
inductive StakingCall where
  | register (pubkey signature : Bytes) (commission : Nat)
  | unRegister
  | delegate (candidate : Address)
  | unDelegate (candidate : Address) (amount : Nat)
  | withdrawReward (delegateAddress : Address)
  | setCommission (commission : Nat)
  | unBanned
deriving DecidableEq, Repr

/-- A transaction with such a call. -/
structure StakingTx where
  sender : Address
  nonce : Nat
  value : Nat
  gasLimit : Nat
  gasPrice : Nat
  call : StakingCall
deriving DecidableEq, Repr

/-- Why a transaction is refused. -/
inductive TxError where
  | nonceTooHigh
  | nonceTooLow
  | insufficientGas
  | outOfGas
  | insufficientAmount
  | maxCandidate
  | alreadyCandidate
  | minimumRegisterAmount
  | consensusPubKey
  | commission
  | cannotCandidate
  | notCandidate
  | bannedUnRegister
  | cannotUnRegister
  | exceedDelegationAddressLimit
  | cannotDelegate
  | cancelSelfDelegate
  | cannotUnBond
  | insufficientProxiedBalance
  | noReward
  | shouldNotUnbanned
  | unbannedLater (epochs : Nat)
  | incorrectBlockHeight
  | negativeVotingPower
  | wrongPubKey
  | panic (p : Panic)
deriving DecidableEq, Repr

/-- `UpdateNextEpochOp`, less its salt, which is constant, and the transaction hash. -/
structure UpdateNextEpochOp where
  source : Address
  pubKey : Bytes
  amount : Int
deriving DecidableEq, Repr

/-- What the callbacks read of the chain.  The epoch is that of the current block, the parent of the
one the transaction is in. -/
structure ChainView where
  epoch : Epoch
  currHeight : Nat
  /-- `ep.GetEpochValidatorVoteSet()` -/
  epochVoteSet : Option EpochValidatorVoteSet
  /-- crypto-go: `CheckConsensusPubKey` succeeds. -/
  checkConsensusPubKey : Address → Bytes → Bytes → Bool

/-- `minimumRegisterAmount`. -/
def minimumRegisterAmount : Nat := 1000000000000000000

/-- `maxCandidateNumber`. -/
def maxCandidateNumber : Nat := 1000

/-- `maxDelegationAddresses`. -/
def maxDelegationAddresses : Nat := 1000

/-- `updateValidatorThreshold`. -/
def updateValidatorThreshold : Nat := 100

/-- The bytes copied into a `BLSPubKey`, which has 128 of them. -/
def blsPubKey (pubkey : Bytes) : Bytes := (pubkey ++ List.replicate 128 0).take 128

/-- The address is a validator for a fixed number of epochs. -/
def Epoch.isSupernode (ep : Epoch) (addr : Address) : Bool :=
  match (ep.validators.getByAddress addr).2 with
  | none => false
  | some v => decide (0 < v.remainingEpoch)

/-- Refuses with an error. -/
def refuseIf (b : Bool) (e : TxError) : Except TxError Unit := if b then .error e else .ok ()

section Callbacks

variable (rt : Runtime) (bc : ChainView)

/-- `updateValidation`. -/
def updateValidation : Except TxError Unit :=
  refuseIf (bc.currHeight == 1 || bc.currHeight == bc.epoch.startBlock ||
    bc.currHeight == (bc.epoch.startBlock + 1) % 2 ^ 64 || bc.currHeight == bc.epoch.endBlock)
    .incorrectBlockHeight

/-- The votes of the next epoch are updated for a candidate with this stake.  The amounts of the
votes made by these callbacks are never nil. -/
def needsUpdate (netProxied : Int) : Bool :=
  match bc.epochVoteSet with
  | none => true
  | some currentEpochVoteSet =>
    if updateValidatorThreshold ≤ currentEpochVoteSet.votes.length then
      currentEpochVoteSet.votes.any fun val => decide (val.amount.getD 0 < netProxied)
    else true

/-- `updateNextEpochValidatorVoteSet`, with the operation it appends. -/
def updateNextEpochValidatorVoteSet (s : StateDB) (candidate : Address) :
    Except TxError (StateDB × List UpdateNextEpochOp) := do
  let netProxied := s.netProxied candidate
  refuseIf (decide (netProxied < 0)) .negativeVotingPower
  if needsUpdate bc netProxied && s.isCandidate candidate then
    let s := s.forEachProxied rt.trieOrder candidate (StateDB.moveToDeposit candidate)
    let pubkey := (s.accounts candidate).pubkey
    refuseIf (pubkey.length != 128) .wrongPubKey
    return (s, [⟨candidate, pubkey, netProxied⟩])
  return (s, [])

/-! ## Register and unregister -/

/-- `registerValidation`, with the set it has loaded. -/
def registerValidation (tx : StakingTx) (pubkey signature : Bytes) (commission : Nat) (s : StateDB) :
    Except TxError StateDB := do
  let s := s.getCandidateSet
  refuseIf (decide (maxCandidateNumber < s.candidateSet.cache.card)) .maxCandidate
  refuseIf (!s.isCleanAddress tx.sender) .alreadyCandidate
  refuseIf (decide (tx.value < minimumRegisterAmount)) .minimumRegisterAmount
  refuseIf (!bc.checkConsensusPubKey tx.sender pubkey signature) .consensusPubKey
  refuseIf (decide (100 < commission)) .commission
  refuseIf (bc.epoch.isSupernode tx.sender) .cannotCandidate
  return s

/-- `registerApplyCb`. -/
def registerApplyCb (tx : StakingTx) (pubkey signature : Bytes) (commission : Nat) (s : StateDB) :
    Except TxError (StateDB × List UpdateNextEpochOp) := do
  let s ← registerValidation bc tx pubkey signature commission s
  updateValidation bc
  let s := ((s.subBalance tx.sender tx.value).addDelegateBalance tx.sender tx.value)
    |>.addProxiedBalanceByUser tx.sender tx.sender tx.value
  let s := (s.applyForCandidate tx.sender (blsPubKey pubkey) commission).markAddressCandidate
    tx.sender
  updateNextEpochValidatorVoteSet rt bc s tx.sender

/-- `unRegisterValidation`. -/
def unRegisterValidation (tx : StakingTx) (s : StateDB) : Except TxError StateDB := do
  refuseIf (!s.isCandidate tx.sender) .notCandidate
  let (banned, s) := s.getBanned tx.sender
  refuseIf banned .bannedUnRegister
  refuseIf (bc.epoch.isSupernode tx.sender) .cannotUnRegister
  return s

/-- The refund of one user when a candidate leaves. -/
def StateDB.releaseUser (addr : Address) (s : StateDB) (key : Address) (apb : AccountProxiedBalance) :
    StateDB :=
  let s := ((s.subProxiedBalanceByUser addr key apb.proxiedBalance)
    |>.subDelegateBalance key apb.proxiedBalance)
    |>.addBalance key apb.proxiedBalance
  if 0 < apb.depositProxiedBalance then
    (s.addPendingRefundBalanceByUser addr key apb.depositProxiedBalance)
      |>.markDelegateAddressRefund addr
  else s

/-- `unRegisterApplyCb`.  The two calls of `GetCandidateSet` are for debug output; the second one
loads the set again if nothing is left of it. -/
def unRegisterApplyCb (tx : StakingTx) (s : StateDB) :
    Except TxError (StateDB × List UpdateNextEpochOp) := do
  let s ← unRegisterValidation bc tx s
  let allRefund := (rt.trieOrder.list (s.proxiedTrie tx.sender)).all fun key =>
    decide ((s.getAccountProxiedBalance tx.sender key).depositProxiedBalance ≤ 0)
  let s := s.forEachProxied rt.trieOrder tx.sender (StateDB.releaseUser tx.sender)
  let s := s.cancelCandidate tx.sender allRefund
  return ((s.getCandidateSet.clearCandidateSetByAddress tx.sender).getCandidateSet, [])

/-! ## Delegate and undelegate -/

/-- `delegateValidation`. -/
def delegateValidation (tx : StakingTx) (candidate : Address) (s : StateDB) :
    Except TxError Unit := do
  refuseIf (!s.isCandidate candidate) .notCandidate
  let depositBalance := (s.getAccountProxiedBalance candidate tx.sender).depositProxiedBalance
  refuseIf (depositBalance == 0 &&
    decide (maxDelegationAddresses ≤ s.getProxiedAddressNumber candidate))
    .exceedDelegationAddressLimit
  refuseIf (bc.epoch.isSupernode candidate && depositBalance == 0) .cannotDelegate

/-- `delegateApplyCb`.  It is the ban of the delegator that is asked for. -/
def delegateApplyCb (tx : StakingTx) (candidate : Address) (s : StateDB) :
    Except TxError (StateDB × List UpdateNextEpochOp) := do
  delegateValidation bc tx candidate s
  updateValidation bc
  let s := ((s.subBalance tx.sender tx.value).addDelegateBalance tx.sender tx.value)
    |>.addProxiedBalanceByUser candidate tx.sender tx.value
  let (banned, s) := s.getBanned tx.sender
  if banned then return (s, []) else updateNextEpochValidatorVoteSet rt bc s candidate

/-- `unDelegateValidation`. -/
def unDelegateValidation (tx : StakingTx) (candidate : Address) (amount : Nat) (s : StateDB) :
    Except TxError Unit := do
  refuseIf (tx.sender == candidate) .cancelSelfDelegate
  refuseIf (bc.epoch.isSupernode candidate) .cannotUnBond
  let apb := s.getAccountProxiedBalance candidate tx.sender
  let netDeposit := apb.depositProxiedBalance - apb.pendingRefundBalance
  refuseIf (decide (apb.proxiedBalance + netDeposit < amount)) .insufficientProxiedBalance

/-- `unDelegateApplyCb`: the proxied amount is refunded at once, the rest at the end of the
epoch. -/
def unDelegateApplyCb (tx : StakingTx) (candidate : Address) (amount : Nat) (s : StateDB) :
    Except TxError (StateDB × List UpdateNextEpochOp) := do
  unDelegateValidation bc tx candidate amount s
  updateValidation bc
  let proxiedBalance := (s.getAccountProxiedBalance candidate tx.sender).proxiedBalance
  let (immediatelyRefund, s) :=
    if (amount : Int) ≤ proxiedBalance then ((amount : Int), s)
    else (proxiedBalance,
      (s.addPendingRefundBalanceByUser candidate tx.sender (amount - proxiedBalance))
        |>.markDelegateAddressRefund candidate)
  return (((s.subProxiedBalanceByUser candidate tx.sender immediatelyRefund)
    |>.subDelegateBalance tx.sender immediatelyRefund)
    |>.addBalance tx.sender immediatelyRefund, [])

/-! ## Rewards, commissions and bans -/

/-- `withdrawRewardApplyCb`. -/
def withdrawRewardApplyCb (tx : StakingTx) (delegateAddress : Address) (s : StateDB) :
    Except TxError (StateDB × List UpdateNextEpochOp) := do
  let reward := s.getRewardBalanceByDelegateAddress tx.sender delegateAddress
  refuseIf (decide (reward < 1)) .noReward
  return ((s.subRewardBalanceByDelegateAddress tx.sender delegateAddress reward)
    |>.addBalance tx.sender reward, [])

/-- `setCommisstionApplyCb`. -/
def setCommissionApplyCb (tx : StakingTx) (commission : Nat) (s : StateDB) :
    Except TxError (StateDB × List UpdateNextEpochOp) := do
  refuseIf (!s.isCandidate tx.sender) .notCandidate
  refuseIf (decide (100 < commission)) .commission
  return (s.setAccount tx.sender fun acc => { acc with commission }, [])

/-- `unBannedApplyCb`. -/
def unBannedApplyCb (tx : StakingTx) (s : StateDB) :
    Except TxError (StateDB × List UpdateNextEpochOp) := do
  refuseIf (!s.isCandidate tx.sender) .notCandidate
  updateValidation bc
  let (banned, s) := s.getBanned tx.sender
  refuseIf (!banned) .shouldNotUnbanned
  let (bannedEpoch, s) := s.getBannedTime tx.sender
  refuseIf (decide (0 < bannedEpoch)) (.unbannedLater bannedEpoch)
  return ((s.setBanned tx.sender false).clearBannedSetByAddress tx.sender, [])

/-- The callback of a call. -/
def applyCb (tx : StakingTx) (s : StateDB) : Except TxError (StateDB × List UpdateNextEpochOp) :=
  match tx.call with
  | .register pubkey signature commission => registerApplyCb rt bc tx pubkey signature commission s
  | .unRegister => unRegisterApplyCb rt bc tx s
  | .delegate candidate => delegateApplyCb rt bc tx candidate s
  | .unDelegate candidate amount => unDelegateApplyCb bc tx candidate amount s
  | .withdrawReward delegateAddress => withdrawRewardApplyCb tx delegateAddress s
  | .setCommission commission => setCommissionApplyCb tx commission s
  | .unBanned => unBannedApplyCb bc tx s

/-- `RequiredGas`, which is the same for all of these calls. -/
def requiredGas : Nat := 21000

/-- The end of `ApplyTransactionEx`: what is left of the gas is given back, the state is finalised,
and the nonce is raised.  That a `uint64` starts over after `2 ^ 64` transactions of one sender is
left out here. -/
def finishTransaction (tx : StakingTx) (s : StateDB) (ops : List UpdateNextEpochOp) :
    Except TxError (StateDB × List UpdateNextEpochOp) :=
  match (s.addBalance tx.sender ((tx.gasLimit - requiredGas) * tx.gasPrice : Nat)).finalise with
  | .error p => .error (.panic p)
  | .ok s => .ok (s.setNonce tx.sender ((s.accounts tx.sender).nonce + 1), ops)

/-- `ApplyTransactionEx`, for a staking call.  The gas pool of the block is left out; with it, the
function is `StateProcessor.applyTransactionEx`. -/
def applyTransactionEx (tx : StakingTx) (s : StateDB) :
    Except TxError (StateDB × List UpdateNextEpochOp) := do
  let nonce := (s.accounts tx.sender).nonce
  refuseIf (decide (nonce < tx.nonce)) .nonceTooHigh
  refuseIf (decide (tx.nonce < nonce)) .nonceTooLow
  let gasValue := tx.gasLimit * tx.gasPrice
  refuseIf (decide (s.getBalance tx.sender < gasValue)) .insufficientGas
  let s := s.subBalance tx.sender gasValue
  refuseIf (decide (tx.gasLimit < requiredGas)) .outOfGas
  refuseIf (decide (s.getBalance tx.sender < tx.value)) .insufficientAmount
  let (s, ops) ← applyCb rt bc tx s
  finishTransaction tx s ops

end Callbacks

end NeatPoS
