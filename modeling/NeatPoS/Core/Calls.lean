import NeatPoS.Core.Journal

/-!
# The calls of the state database

The functions of `statedb.go`, `statedb1.go`, `statedb_delegate.go`, `statedb_reward.go`,
`statedb_candidate.go` and `statedb_banned.go` that change a `JournaledDB`, as one type, so that a
sequence of them can be talked about.  `Call` has those the staking code uses; `ContractCall` has
those of the virtual machine, and the getters that leave something in a cache.

Functions that differ only in the field they are about are one constructor with the field as a
parameter.  It may be any field, also one for which the source has no such function.
-/

set_option autoImplicit false

namespace NeatPoS

namespace JournaledDB

/-- `stateObject.AddBalance` and its like: nothing is changed for the amount zero, but an empty
object is touched. -/
def addToObject (s : JournaledDB) (field : AmountField) (addr : Address) (amount : Int) :
    JournaledDB :=
  match s.object addr with
  | none => s
  | some o =>
    if amount = 0 then
      if o.empty then s.touch addr else s
    else s.edit addr (.amount field (o.data.amount field + amount))

/-- `stateObject.SubBalance` and its like. -/
def subFromObject (s : JournaledDB) (field : AmountField) (addr : Address) (amount : Int) :
    JournaledDB :=
  match s.object addr with
  | none => s
  | some o =>
    if amount = 0 then s else s.edit addr (.amount field (o.data.amount field - amount))

/-- `stateObject.AddSideChainDepositBalance`. -/
def addSideChainToObject (s : JournaledDB) (addr : Address) (chainId : String) (amount : Int) :
    JournaledDB :=
  match s.object addr with
  | none => s
  | some o =>
    if amount = 0 then
      if o.empty then s.touch addr else s
    else s.edit addr
      (.sideChainDepositBalance chainId (o.sideChainDepositBalance chainId + amount))

/-- `stateObject.SubSideChainDepositBalance`. -/
def subSideChainFromObject (s : JournaledDB) (addr : Address) (chainId : String) (amount : Int) :
    JournaledDB :=
  match s.object addr with
  | none => s
  | some o =>
    if amount = 0 then s
    else s.edit addr
      (.sideChainDepositBalance chainId (o.sideChainDepositBalance chainId - amount))

end JournaledDB

/-- The three amounts of an entry in the proxied trie. -/
inductive EntryKind where
  | proxied
  | depositProxied
  | pendingRefund
deriving DecidableEq, Repr

namespace EntryKind

/-- The field of the account that has the total. -/
def total : EntryKind → AmountField
  | proxied => .proxiedBalance
  | depositProxied => .depositProxiedBalance
  | pendingRefund => .pendingRefundBalance

/-- Adds to an entry; a missing one is `NewAccountProxiedBalance`. -/
def addTo (kind : EntryKind) (amount : Int) (apb : Option AccountProxiedBalance) :
    AccountProxiedBalance :=
  let apb := apb.getD ⟨0, 0, 0⟩
  match kind with
  | proxied => { apb with proxiedBalance := apb.proxiedBalance + amount }
  | depositProxied => { apb with depositProxiedBalance := apb.depositProxiedBalance + amount }
  | pendingRefund => { apb with pendingRefundBalance := apb.pendingRefundBalance + amount }

end EntryKind

/-- The calls that change one of the sets of addresses. -/
inductive SetCall where
  /-- `MarkDelegateAddressRefund`, `MarkAddressReward`, `MarkAddressCandidate`,
  `MarkAddressBanned` -/
  | mark (addr : Address)
  /-- `ClearRewardSetByAddress`, `ClearCandidateSetByAddress`, `ClearBannedSetByAddress` -/
  | clearByAddress (addr : Address)
  /-- `ClearDelegateRefundSet` -/
  | clear
  /-- `GetDelegateAddressRefundSet`, `GetRewardSet`, `GetCandidateSet`, `GetBannedSet` -/
  | get

/-- The set after such a call. -/
def SetCall.apply (c : CachedSet) : SetCall → CachedSet
  | mark addr => c.mark addr
  | clearByAddress addr => c.clearByAddress addr
  | clear => .clear
  | get => c.load

/-- The calls of the staking code. -/
inductive Call where
  /-- `AddBalance`, `AddDepositBalance`, `AddChainBalance`, `AddDelegateBalance`,
  `AddRewardBalance` -/
  | add (field : AmountField) (addr : Address) (amount : Int)
  /-- `SubBalance`, `SubDepositBalance`, `SubChainBalance`, `SubDelegateBalance`,
  `SubRewardBalance` -/
  | sub (field : AmountField) (addr : Address) (amount : Int)
  /-- `SetBalance`, `SetDepositBalance`, `SetChainBalance`, `SetMinedBlocks`, `SetBannedTime` -/
  | set (field : AmountField) (addr : Address) (amount : Int)
  /-- `AddAvailableRewardBalance`, which does nothing without an object -/
  | addAvailableRewardBalance (addr : Address) (amount : Int)
  /-- `SubAvailableRewardBalance` -/
  | subAvailableRewardBalance (addr : Address) (amount : Int)
  | setNonce (addr : Address) (nonce : Nat)
  | addSideChainDepositBalance (addr : Address) (chainId : String) (amount : Int)
  | subSideChainDepositBalance (addr : Address) (chainId : String) (amount : Int)
  | setSideChainDepositBalance (addr : Address) (chainId : String) (amount : Int)
  /-- `AddTX1`, `AddTX3` -/
  | addTX (kind : TxKind) (addr : Address) (txHash : TxHash)
  /-- `AddProxiedBalanceByUser`, `AddDepositProxiedBalanceByUser`,
  `AddPendingRefundBalanceByUser` -/
  | addByUser (kind : EntryKind) (addr user : Address) (amount : Int)
  /-- `SubProxiedBalanceByUser`, `SubDepositProxiedBalanceByUser`,
  `SubPendingRefundBalanceByUser` -/
  | subByUser (kind : EntryKind) (addr user : Address) (amount : Int)
  | addRewardBalanceByDelegateAddress (addr deleAddress : Address) (amount : Int)
  | subRewardBalanceByDelegateAddress (addr deleAddress : Address) (amount : Int)
  | applyForCandidate (addr : Address) (pubkey : String) (commission : Nat)
  | cancelCandidate (addr : Address) (allRefund : Bool)
  /-- `SetCommission`, and `ClearCommission` -/
  | setCommission (addr : Address) (commission : Nat)
  | setBanned (addr : Address) (banned : Bool)
  /-- `GetBanned`, `GetBannedTime`, `GetMinedBlocks`: they make an object to read from -/
  | getOrNew (addr : Address)
  | changeSet (name : SetName) (c : SetCall)

namespace Call

open JournaledDB

/-- Runs a call. -/
def exec (s : JournaledDB) : Call → Except Panic JournaledDB
  | add field addr amount => .ok ((s.getOrNewStateObject addr).addToObject field addr amount)
  | sub field addr amount => .ok ((s.getOrNewStateObject addr).subFromObject field addr amount)
  | set field addr amount => .ok ((s.getOrNewStateObject addr).edit addr (.amount field amount))
  | addAvailableRewardBalance addr amount =>
    .ok (s.addToObject .availableRewardBalance addr amount)
  | subAvailableRewardBalance addr amount =>
    .ok (s.subFromObject .availableRewardBalance addr amount)
  | setNonce addr n => .ok ((s.getOrNewStateObject addr).edit addr (.nonce n))
  | addSideChainDepositBalance addr chainId amount =>
    .ok ((s.getOrNewStateObject addr).addSideChainToObject addr chainId amount)
  | subSideChainDepositBalance addr chainId amount =>
    .ok ((s.getOrNewStateObject addr).subSideChainFromObject addr chainId amount)
  | setSideChainDepositBalance addr chainId amount =>
    .ok ((s.getOrNewStateObject addr).edit addr (.sideChainDepositBalance chainId amount))
  | addTX kind addr txHash => .ok ((s.getOrNewStateObject addr).markTX kind addr txHash)
  | addByUser kind addr user amount =>
    let s := s.getOrNewStateObject addr
    let apb := (s.object addr).bind fun o => o.proxied.get user
    let s := s.edit addr (.accountProxiedBalance user (some (kind.addTo amount apb)))
    .ok (s.addToObject kind.total addr amount)
  | subByUser kind addr user amount =>
    let s := s.getOrNewStateObject addr
    let apb := (s.object addr).bind fun o => o.proxied.get user
    let s := s.edit addr (.accountProxiedBalance user (some (kind.addTo (-amount) apb)))
    .ok (s.subFromObject kind.total addr amount)
  | addRewardBalanceByDelegateAddress addr deleAddress amount =>
    let s := s.getOrNewStateObject addr
    let rewardBalance := (s.object addr).bind fun o => o.reward.get deleAddress
    let s := s.edit addr
      (.delegateRewardBalance deleAddress (some (rewardBalance.getD 0 + amount)))
    .ok (s.addToObject .rewardBalance addr amount)
  | subRewardBalanceByDelegateAddress addr deleAddress amount =>
    let s := s.getOrNewStateObject addr
    match (s.object addr).bind fun o => o.reward.get deleAddress with
    | none => .error (.explicit
        "you can't subtract the amount from nil balance, check the code, this should not happen")
    | some rewardBalance =>
      let s := s.edit addr (.delegateRewardBalance deleAddress (some (rewardBalance - amount)))
      .ok (s.subFromObject .rewardBalance addr amount)
  | applyForCandidate addr p c =>
    .ok ((((s.getOrNewStateObject addr).edit addr (.candidate true)).edit addr
      (.commission c)).edit addr (.pubkey p))
  | cancelCandidate addr allRefund =>
    let s := ((s.getOrNewStateObject addr).edit addr (.candidate false)).edit addr (.pubkey "")
    .ok (if allRefund then s.edit addr (.commission 0) else s)
  | setCommission addr c => .ok ((s.getOrNewStateObject addr).edit addr (.commission c))
  | setBanned addr b => .ok ((s.getOrNewStateObject addr).edit addr (.banned b))
  | getOrNew addr => .ok (s.getOrNewStateObject addr)
  | changeSet name c => .ok { s with sets := Function.update s.sets name (c.apply (s.sets name)) }

end Call

/-- The calls of the virtual machine and of those who run it, and the getters of entries. -/
inductive ContractCall where
  | setCode (addr : Address) (code : Bytes)
  | setState (addr : Address) (key : TxHash) (value : Option Bytes)
  | suicide (addr : Address)
  | createAccount (addr : Address)
  | addRefund (gas : Nat)
  | subRefund (gas : Nat)
  | addLog (content : Bytes)
  | addPreimage (hash : TxHash) (preimage : Bytes)
  | prepare (thash bhash : TxHash) (ti : Nat)
  | setSideChainRewardPerBlock (rewardPerBlock : Int)
  /-- `GetState`, `GetCommittedState` -/
  | getState (addr : Address) (key : TxHash)
  /-- `GetProxiedBalanceByUser`, `GetDepositProxiedBalanceByUser`,
  `GetPendingRefundBalanceByUser` -/
  | getByUser (addr user : Address)
  | getRewardBalanceByDelegateAddress (addr deleAddress : Address)

namespace ContractCall

open JournaledDB

/-- A getter that changes nothing but the caches of an object. -/
def cache (s : JournaledDB) (addr : Address) (f : StateObject → StateObject) : JournaledDB :=
  match s.object addr with
  | none => s
  | some o => s.setStateObject addr (f o)

/-- Runs a call. -/
def exec (s : JournaledDB) : ContractCall → Except Panic JournaledDB
  | setCode addr c => .ok ((s.getOrNewStateObject addr).edit addr (.code c))
  | setState addr key v => .ok ((s.getOrNewStateObject addr).edit addr (.state key v))
  | suicide addr => .ok (s.suicide addr)
  | createAccount addr => .ok (s.createAccount addr)
  | addRefund gas =>
    .ok { s.log (.refundChange s.context.refund) with
      context := { s.context with refund := (s.context.refund + gas) % 2 ^ 64 } }
  | subRefund gas =>
    if gas > s.context.refund then .error (.explicit "Refund counter below zero")
    else .ok { s.log (.refundChange s.context.refund) with
      context := { s.context with refund := s.context.refund - gas } }
  | addLog content =>
    let c := s.context
    .ok { s.log (.addLogChange c.thash) with
      context := { c with
        logs := c.logs.insert c.thash ((c.logs.lookup c.thash).getD [] ++
          [⟨content, c.thash, c.bhash, c.txIndex, c.logSize⟩])
        logSize := c.logSize + 1 } }
  | addPreimage hash preimage =>
    if hash ∈ s.context.preimages then .ok s
    else .ok { s.log (.addPreimageChange hash) with
      context := { s.context with preimages := s.context.preimages.insert hash preimage } }
  | prepare thash bhash ti =>
    .ok { s with context := { s.context with thash := thash, bhash := bhash, txIndex := ti } }
  | setSideChainRewardPerBlock x =>
    .ok { s with
      sideChainRewardPerBlock := { s.sideChainRewardPerBlock with cache := some x, dirty := true } }
  | getState addr key => .ok (cache s addr fun o => { o with storage := o.storage.fetch key })
  | getByUser addr user => .ok (cache s addr fun o => { o with proxied := o.proxied.fetch user })
  | getRewardBalanceByDelegateAddress addr deleAddress =>
    .ok (cache s addr fun o => { o with reward := o.reward.fetch deleAddress })

end ContractCall

end NeatPoS
