import Mathlib.Data.Finset.Basic
import Mathlib.Logic.Function.Basic
import NeatPoS.Lib.EntryCache
import NeatPoS.Core.StateDB

/-!
# State objects

`Core/StateDB.lean` says what the functions of the state database do to the amounts.  From here on
the same database is modelled one level down, where its caches are: `state_object.go`,
`state_object1.go`, `state_object_delegate.go` and `state_object_reward.go`.

A state object is an account in memory.  Besides the fields of `state.Account` it has

* the entries of the proxied trie, of the reward trie and of the storage, each an `EntryCache`: an
  entry that is read stays cached, also as a nil pointer if there is none, and one that is written
  is dirty until the object is flushed;
* the hashes of cross-chain transactions, in a trie and in a map of pending ones;
* its callback `onDirty`, which the first setter calls and drops.

The setters (`Edit`) all follow one pattern.  The upper-case one journals the value it is about to
replace, the lower-case one stores the new value and calls `onDirty`; undoing is to call the
lower-case one with the value from the journal.

The contents of a trie stand for its root, and the code for its hash.  A word of the storage that is
zero is the same as one that is missing.
-/

set_option autoImplicit false

namespace NeatPoS

/-- `common.Hash`. -/
abbrev TxHash := Bytes

/-! ## Accounts -/

/-- The fields of `state.Account` that are big integers. -/
inductive AmountField where
  | balance
  | depositBalance
  | chainBalance
  | delegateBalance
  | proxiedBalance
  | depositProxiedBalance
  | pendingRefundBalance
  | rewardBalance
  | availableRewardBalance
  | blockTime
  | bannedTime
deriving DecidableEq, Repr

/-- All of them. -/
def AmountField.all : List AmountField :=
  [balance, depositBalance, chainBalance, delegateBalance, proxiedBalance, depositProxiedBalance,
    pendingRefundBalance, rewardBalance, availableRewardBalance, blockTime, bannedTime]

/-- `state.Account`, less the roots of its tries. -/
structure AccountData where
  nonce : Nat
  amount : AmountField → Int
  sideChainDepositBalance : List (String × Int)
  /-- The code whose hash is `CodeHash`. -/
  code : Bytes
  candidate : Bool
  commission : Nat
  isBanned : Bool
  pubkey : String

namespace AccountData

/-- `Account{}`, with the defaults of `newObject`. -/
def new : AccountData := ⟨0, fun _ => 0, [], [], false, 0, false, ""⟩

/-- RLP can encode the account: none of its integers is negative. -/
def encodable (d : AccountData) : Bool :=
  AmountField.all.all (fun f => decide (0 ≤ d.amount f)) &&
    d.sideChainDepositBalance.all (fun c => decide (0 ≤ c.2))

end AccountData

/-- The tries of cross-chain transactions an account has. -/
inductive TxKind where
  | tx1
  | tx3
deriving DecidableEq, Repr

/-- A trie of transaction hashes, with `dirtyTX1` or `dirtyTX3`. -/
structure MarkCache where
  trie : Finset TxHash
  dirty : Finset TxHash
deriving DecidableEq

namespace MarkCache

/-- `HasTX1`, `HasTX3`.  The trie keeps a hash without its leading zeros and compares it with the
whole one, so that a hash with a leading zero is not found there. -/
def has (m : MarkCache) (txHash : TxHash) : Bool :=
  decide (txHash ∈ m.dirty ∨ txHash ∈ m.trie ∧ txHash.head? ≠ some 0)

/-- `updateTX1Trie`, `updateTX3Trie`. -/
def flush (m : MarkCache) : MarkCache := ⟨m.trie ∪ m.dirty, ∅⟩

end MarkCache

/-- What the state trie holds of an account. -/
structure StoredAccount where
  data : AccountData
  storage : TxHash → Option Bytes
  tx : TxKind → Finset TxHash
  proxied : Address → Option AccountProxiedBalance
  reward : Address → Option Int

/-! ## Objects -/

/-- `stateObject`. -/
structure StateObject where
  data : AccountData
  /-- `ProxiedRoot` has been computed, and is not the zero hash of a new account. -/
  rooted : Bool
  storage : EntryCache TxHash Bytes
  tx : TxKind → MarkCache
  proxied : EntryCache Address AccountProxiedBalance
  reward : EntryCache Address Int
  suicided : Bool
  touched : Bool
  deleted : Bool
  /-- The callback `onDirty` has not been dropped. -/
  onDirty : Bool

namespace StateObject

/-- `newObject` for an account from the trie. -/
def load (a : StoredAccount) : StateObject where
  data := a.data
  rooted := true
  storage := .ofBase a.storage
  tx := fun kind => ⟨a.tx kind, ∅⟩
  proxied := .ofBase a.proxied
  reward := .ofBase a.reward
  suicided := false
  touched := false
  deleted := false
  onDirty := true

/-- The new object of `createObject`: `setNonce(0)` has used up its callback. -/
def new : StateObject where
  data := .new
  rooted := false
  storage := .ofBase fun _ => none
  tx := fun _ => ⟨∅, ∅⟩
  proxied := .ofBase fun _ => none
  reward := .ofBase fun _ => none
  suicided := false
  touched := false
  deleted := false
  onDirty := false

/-- `empty`. -/
def empty (o : StateObject) : Bool :=
  o.data.nonce == 0 && o.data.amount .balance == 0 && o.data.code.isEmpty &&
    o.data.amount .depositBalance == 0 && o.data.sideChainDepositBalance.isEmpty &&
    o.data.amount .chainBalance == 0 && o.data.amount .delegateBalance == 0 &&
    o.data.amount .proxiedBalance == 0 && o.data.amount .depositProxiedBalance == 0 &&
    o.data.amount .pendingRefundBalance == 0 && o.data.amount .availableRewardBalance == 0

/-- `SideChainDepositBalance`. -/
def sideChainDepositBalance (o : StateObject) (chainId : String) : Int :=
  match o.data.sideChainDepositBalance.find? (fun c => c.1 == chainId) with
  | some c => c.2
  | none => 0

/-- Changes `dirtyTX1` or `dirtyTX3`. -/
def setPending (o : StateObject) (kind : TxKind) (pending : Finset TxHash) : StateObject :=
  { o with tx := Function.update o.tx kind { o.tx kind with dirty := pending } }

/-! ### Flushing -/

/-- A value of the reward trie that is written: zero is deleted, and a negative one cannot be
encoded, which comes to the same, because the error is ignored. -/
def keepReward (x : Int) : Bool := x != 0 && decide (0 ≤ x)

/-- An entry of the proxied trie that is written. -/
def keepProxied (apb : AccountProxiedBalance) : Bool := !apb.isEmpty && apb.encodable

/-- `updateRoot`, `updateTX1Root`, `updateTX3Root`, `updateProxiedRoot` and `updateRewardRoot`. -/
def update (o : StateObject) : StateObject :=
  { o with
    rooted := true
    storage := o.storage.flush fun _ => true
    tx := fun kind => (o.tx kind).flush
    proxied := o.proxied.flush keepProxied
    reward := o.reward.flush keepReward }

/-- What `updateStateObject` writes to the trie. -/
def stored (o : StateObject) : StoredAccount where
  data := o.data
  storage := o.storage.base
  tx := fun kind => (o.tx kind).trie
  proxied := o.proxied.base
  reward := o.reward.base

/-- `Finalise` and `Commit` delete a dirty object rather than write it. -/
def clears (deleteEmptyObjects : Bool) (o : StateObject) : Bool :=
  o.suicided || (deleteEmptyObjects && o.empty)

/-- A dirty object after `Finalise` or `Commit`. -/
def finalised (deleteEmptyObjects : Bool) (o : StateObject) : StateObject :=
  if o.clears deleteEmptyObjects then { o with deleted := true } else o.update

/-- What is then in the trie. -/
def written (deleteEmptyObjects : Bool) (o : StateObject) : Option StoredAccount :=
  if o.clears deleteEmptyObjects then none else some o.update.stored

/-- The panic that keeps it from being written: a nil entry is dereferenced, and a negative amount
has no encoding. -/
def flushPanic (deleteEmptyObjects : Bool) (o : StateObject) : Option Panic :=
  if o.clears deleteEmptyObjects then none
  else if EntryCache.hasNil o.proxied.dirty || EntryCache.hasNil o.reward.dirty then
    some .nilDereference
  else if o.data.encodable then none
  else some (.explicit "can't encode object")

/-- `Proxied.Copy` and `Reward.Copy` dereference every entry of the four maps; this is whether they
get through. -/
def copies (o : StateObject) : Bool :=
  !EntryCache.hasNil o.proxied.origin && !EntryCache.hasNil o.proxied.dirty &&
    !EntryCache.hasNil o.reward.origin && !EntryCache.hasNil o.reward.dirty

/-- `deepCopy`, when it does not panic. -/
def deepCopy (o : StateObject) : StateObject := { o with onDirty := true, touched := false }

end StateObject

/-! ## Setters -/

/-- Stores at the first place the chain has in a list, or at the end. -/
def setSideChainDeposit (chainId : String) (amount : Int) :
    List (String × Int) → List (String × Int)
  | [] => [(chainId, amount)]
  | c :: cs =>
    if c.1 == chainId then (chainId, amount) :: cs else c :: setSideChainDeposit chainId amount cs

/-- A value for one of the fields of an object, as the lower-case setters take it. -/
inductive Edit where
  /-- `setBalance`, `setDepositBalance`, `setChainBalance`, `setDelegateBalance`,
  `setProxiedBalance`, `setDepositProxiedBalance`, `setPendingRefundBalance`, `setRewardBalance`,
  `setAvailableRewardBalance`, `setBlockTime`, `setBannedTime` -/
  | amount (field : AmountField) (amount : Int)
  /-- `setSideChainDepositBalance`, after the index of the chain was found or made. -/
  | sideChainDepositBalance (chainId : String) (amount : Int)
  /-- `setNonce` -/
  | nonce (nonce : Nat)
  /-- `setCode` -/
  | code (code : Bytes)
  /-- `setState` -/
  | state (key : TxHash) (value : Option Bytes)
  /-- `setAccountProxiedBalance` -/
  | accountProxiedBalance (key : Address) (value : Option AccountProxiedBalance)
  /-- `setDelegateRewardBalance` -/
  | delegateRewardBalance (key : Address) (value : Option Int)
  /-- `setCandidate` -/
  | candidate (isCandidate : Bool)
  /-- `setPubkey` -/
  | pubkey (pubkey : String)
  /-- `setCommission` -/
  | commission (commission : Nat)
  /-- `setBanned` -/
  | banned (banned : Bool)

namespace Edit

/-- The lower-case setter, less the callback.  An entry that is set has been read before, by the
upper-case setter. -/
def apply (o : StateObject) : Edit → StateObject
  | amount f x => { o with data := { o.data with amount := Function.update o.data.amount f x } }
  | sideChainDepositBalance chainId x =>
    { o with data := { o.data with
      sideChainDepositBalance := setSideChainDeposit chainId x o.data.sideChainDepositBalance } }
  | nonce n => { o with data := { o.data with nonce := n } }
  | code c => { o with data := { o.data with code := c } }
  | state key v => { o with storage := o.storage.set key v }
  | accountProxiedBalance key v => { o with proxied := o.proxied.set key v }
  | delegateRewardBalance key v => { o with reward := o.reward.set key v }
  | candidate b => { o with data := { o.data with candidate := b } }
  | pubkey p => { o with data := { o.data with pubkey := p } }
  | commission c => { o with data := { o.data with commission := c } }
  | banned b => { o with data := { o.data with isBanned := b } }

/-- The value the upper-case setter journals: the one that is replaced.  A new place in the list of
side chains counts as zero. -/
def prev (o : StateObject) : Edit → Edit
  | amount f _ => amount f (o.data.amount f)
  | sideChainDepositBalance chainId _ =>
    sideChainDepositBalance chainId (o.sideChainDepositBalance chainId)
  | nonce _ => nonce o.data.nonce
  | code _ => code o.data.code
  | state key _ => state key (o.storage.get key)
  | accountProxiedBalance key _ => accountProxiedBalance key (o.proxied.get key)
  | delegateRewardBalance key _ => delegateRewardBalance key (o.reward.get key)
  | candidate _ => candidate o.data.candidate
  | pubkey _ => pubkey o.data.pubkey
  | commission _ => commission o.data.commission
  | banned _ => banned o.data.isBanned

end Edit

end NeatPoS
