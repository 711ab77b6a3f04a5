import NeatPoS.Lib.Ledger
import NeatPoS.Types.Basic

/-!
# The state database

The part of `core/state` that staking uses: balances, delegations, rewards, the flags of a
candidate, and the sets of addresses that are kept beside the accounts.

The amounts are kept apart from the rest of an account, in one ledger whose accounts are `Slot`s.
`Account.Balance` of an address is the amount at `Slot.balance`, the entry of a user in the proxied
trie of a candidate is the amounts at three slots, and so on.  The functions below are those of
`statedb.go`, `statedb_delegate.go`, `statedb_reward.go`, `statedb_candidate.go` and
`statedb_banned.go`, under their names; each of them is one or two postings to the ledger.

What makes the database more than a ledger is when things are written, and this is kept.

* A state object is created by the first function that wants to change it, even by some that only
  read (`GetBanned`), and then counts as dirty.  `Finalise`, which ends every transaction, deletes
  the dirty objects that are empty and writes the others.  It panics if an amount of an account is
  negative, because RLP has no encoding for it.
* An entry of the proxied trie is changed in memory first.  `ForEachProxied` goes through the keys
  that are in the *trie*, that is, those of the last `Finalise`, and gives the callback the current
  amounts.  An entry with a negative amount cannot be encoded either, but there the error is
  ignored, and the entry goes missing from the trie: it is still seen in memory, and no longer after
  a reload.
* The sets of addresses are cached (`CachedSet`).  An empty cache is taken for one that has not been
  loaded.

The order of a trie is that of the hashes of its keys, about which nothing is known, so that it is a
parameter.  Contracts, code and the journal are left out.
-/

set_option autoImplicit false

namespace NeatPoS

/-- `common.Address`.  Addresses inside validators and votes are byte slices; they are all made from
a `common.Address`, and the conversions between the two are left out. -/
abbrev Address := Bytes

instance : LawfulBEq Address := inferInstance

/-- The amounts of the state. -/
inductive Slot where
  /-- `Account.Balance` -/
  | balance (addr : Address)
  /-- `Account.DepositBalance` -/
  | depositBalance (addr : Address)
  /-- `Account.DelegateBalance` -/
  | delegateBalance (addr : Address)
  /-- `Account.ProxiedBalance` -/
  | proxiedBalance (addr : Address)
  /-- `Account.DepositProxiedBalance` -/
  | depositProxiedBalance (addr : Address)
  /-- `Account.PendingRefundBalance` -/
  | pendingRefundBalance (addr : Address)
  /-- `Account.RewardBalance` -/
  | rewardBalance (addr : Address)
  /-- `Account.AvailableRewardBalance` -/
  | availableRewardBalance (addr : Address)
  /-- `ProxiedBalance` of a user's entry in the proxied trie. -/
  | proxied (addr user : Address)
  /-- `DepositProxiedBalance` of a user's entry. -/
  | depositProxied (addr user : Address)
  /-- `PendingRefundBalance` of a user's entry. -/
  | pendingRefund (addr user : Address)
  /-- The entry of a delegate address in the reward trie. -/
  | reward (addr delegate : Address)
deriving DecidableEq, Repr

namespace Slot

/-- The account an amount belongs to. -/
def owner : Slot → Address
  | balance a | depositBalance a | delegateBalance a | proxiedBalance a | depositProxiedBalance a
  | pendingRefundBalance a | rewardBalance a | availableRewardBalance a => a
  | proxied a _ | depositProxied a _ | pendingRefund a _ | reward a _ => a

/-- The second address of an entry. -/
def user : Slot → Address
  | proxied _ u | depositProxied _ u | pendingRefund _ u | reward _ u => u
  | k => k.owner

/-- The amounts that are fields of an account. -/
def ofAccount (a : Address) : List Slot :=
  [balance a, depositBalance a, delegateBalance a, proxiedBalance a, depositProxiedBalance a,
    pendingRefundBalance a, rewardBalance a, availableRewardBalance a]

end Slot

/-- `state.Account`, less its amounts. -/
structure Account where
  /-- There is a state object for the address. -/
  live : Bool
  nonce : Nat
  /-- `CodeHash` is not that of the empty code. -/
  hasCode : Bool
  chainBalance : Nat
  sideChainDepositBalance : List (String × Nat)
  candidate : Bool
  commission : Nat
  /-- The number of blocks signed in the epoch. -/
  blockTime : Nat
  /-- The number of epochs a ban still lasts. -/
  bannedTime : Nat
  isBanned : Bool
  /-- The BLS key, decoded. -/
  pubkey : Bytes
deriving DecidableEq, Repr

/-- No account. -/
def Account.absent : Account := ⟨false, 0, false, 0, [], false, 0, 0, 0, false, []⟩

/-- `accountProxiedBalance`. -/
structure AccountProxiedBalance where
  proxiedBalance : Int
  depositProxiedBalance : Int
  pendingRefundBalance : Int
deriving DecidableEq, Repr

namespace AccountProxiedBalance

/-- `accountProxiedBalance.IsEmpty`. -/
def isEmpty (apb : AccountProxiedBalance) : Bool := apb == ⟨0, 0, 0⟩

/-- RLP can encode the entry. -/
def encodable (apb : AccountProxiedBalance) : Bool :=
  decide (0 ≤ apb.proxiedBalance) && decide (0 ≤ apb.depositProxiedBalance) &&
    decide (0 ≤ apb.pendingRefundBalance)

end AccountProxiedBalance

/-! ## Sets of addresses -/

/-- A set of addresses that is stored under a key of the state trie. -/
structure CachedSet where
  cache : Finset Address
  /-- What the trie holds. -/
  stored : Option (Finset Address)
  dirty : Bool

namespace CachedSet

/-- `GetCandidateSet`, `GetBannedSet`, `GetDelegateAddressRefundSet`: an empty cache is loaded from
the trie.  The map that is returned is the cache itself. -/
def load (c : CachedSet) : CachedSet :=
  if c.cache = ∅ then { c with cache := c.stored.getD ∅ } else c

/-- The addresses in the set. -/
def addresses (c : CachedSet) : Finset Address := c.load.cache

/-- `MarkAddressCandidate`, `MarkAddressBanned`, `MarkDelegateAddressRefund`. -/
def mark (c : CachedSet) (addr : Address) : CachedSet :=
  if addr ∈ c.load.cache then c.load
  else { c.load with cache := insert addr c.load.cache, dirty := true }

/-- `ClearCandidateSetByAddress`, `ClearBannedSetByAddress`: the set is not loaded first. -/
def clearByAddress (c : CachedSet) (addr : Address) : CachedSet :=
  { c with cache := c.cache.erase addr, dirty := true }

/-- `delete` on the map that `load` has returned. -/
def delete (c : CachedSet) (addr : Address) : CachedSet := { c with cache := c.cache.erase addr }

/-- What `Finalise` and `Commit` do with the set. -/
def write (c : CachedSet) : CachedSet := if c.dirty then { c with stored := some c.cache } else c

/-- The set in a new `StateDB`. -/
def reload (c : CachedSet) : CachedSet := ⟨∅, c.stored, false⟩

/-- `ClearDelegateRefundSet`. -/
def clear : CachedSet := ⟨∅, none, false⟩

end CachedSet

/-! ## The database -/

/-- `state.StateDB`. -/
structure StateDB where
  amounts : Π₀ _ : Slot, Int
  accounts : Address → Account
  /-- The keys in the proxied trie of each account. -/
  proxiedTrie : Address → Finset Address
  /-- `stateObjectsDirty` -/
  dirty : Finset Address
  delegateRefundSet : CachedSet
  candidateSet : CachedSet
  bannedSet : CachedSet

namespace StateDB

/-- `MarkStateObjectDirty`. -/
def markStateObjectDirty (s : StateDB) (addr : Address) : StateDB :=
  { s with dirty := insert addr s.dirty }

/-- `GetOrNewStateObject`. -/
def getOrNewStateObject (s : StateDB) (addr : Address) : StateDB :=
  if (s.accounts addr).live then s
  else
    markStateObjectDirty
      { s with accounts :=
        Function.update s.accounts addr { s.accounts addr with live := true } } addr

/-- `stateObject.empty`.  The reward balance is not asked for. -/
def empty (s : StateDB) (addr : Address) : Bool :=
  let acc := s.accounts addr
  acc.nonce == 0 && s.amounts (.balance addr) == 0 && !acc.hasCode &&
    s.amounts (.depositBalance addr) == 0 && acc.sideChainDepositBalance.isEmpty &&
    acc.chainBalance == 0 && s.amounts (.delegateBalance addr) == 0 &&
    s.amounts (.proxiedBalance addr) == 0 && s.amounts (.depositProxiedBalance addr) == 0 &&
    s.amounts (.pendingRefundBalance addr) == 0 && s.amounts (.availableRewardBalance addr) == 0

/-- Adds to an amount. -/
def post (s : StateDB) (k : Slot) (x : Int) : StateDB :=
  { s with amounts := s.amounts + DFinsupp.single k x }

/-- The functions that add to a field of an account: nothing is changed for the amount zero, but an
empty object is touched. -/
def add (s : StateDB) (k : Slot) (amount : Int) : StateDB :=
  let s := s.getOrNewStateObject k.owner
  if amount = 0 then
    if s.empty k.owner then s.markStateObjectDirty k.owner else s
  else (s.post k amount).markStateObjectDirty k.owner

/-- The functions that subtract from a field of an account. -/
def sub (s : StateDB) (k : Slot) (amount : Int) : StateDB :=
  let s := s.getOrNewStateObject k.owner
  if amount = 0 then s else (s.post k (-amount)).markStateObjectDirty k.owner

/-- Changes an entry of a trie of an account, which always counts as a change. -/
def setEntry (s : StateDB) (k : Slot) (x : Int) : StateDB :=
  ((s.getOrNewStateObject k.owner).post k x).markStateObjectDirty k.owner

/-- Changes the rest of an account. -/
def setAccount (s : StateDB) (addr : Address) (f : Account → Account) : StateDB :=
  let s := s.getOrNewStateObject addr
  markStateObjectDirty { s with accounts := Function.update s.accounts addr (f (s.accounts addr)) }
    addr

/-! ### Balances -/

/-- `GetBalance`. -/
def getBalance (s : StateDB) (addr : Address) : Int := s.amounts (.balance addr)

/-- `AddBalance`. -/
def addBalance (s : StateDB) (addr : Address) (amount : Int) : StateDB :=
  s.add (.balance addr) amount

/-- `SubBalance`. -/
def subBalance (s : StateDB) (addr : Address) (amount : Int) : StateDB :=
  s.sub (.balance addr) amount

/-- `GetDepositBalance`. -/
def getDepositBalance (s : StateDB) (addr : Address) : Int := s.amounts (.depositBalance addr)

/-- `SubDepositBalance`. -/
def subDepositBalance (s : StateDB) (addr : Address) (amount : Int) : StateDB :=
  s.sub (.depositBalance addr) amount

/-- `AddDelegateBalance`. -/
def addDelegateBalance (s : StateDB) (addr : Address) (amount : Int) : StateDB :=
  s.add (.delegateBalance addr) amount

/-- `SubDelegateBalance`. -/
def subDelegateBalance (s : StateDB) (addr : Address) (amount : Int) : StateDB :=
  s.sub (.delegateBalance addr) amount

/-! ### Delegations -/

/-- `GetTotalProxiedBalance`. -/
def getTotalProxiedBalance (s : StateDB) (addr : Address) : Int := s.amounts (.proxiedBalance addr)

/-- `GetTotalDepositProxiedBalance`. -/
def getTotalDepositProxiedBalance (s : StateDB) (addr : Address) : Int :=
  s.amounts (.depositProxiedBalance addr)

/-- `GetTotalPendingRefundBalance`. -/
def getTotalPendingRefundBalance (s : StateDB) (addr : Address) : Int :=
  s.amounts (.pendingRefundBalance addr)

/-- `GetAccountProxiedBalance`; a missing entry reads as zero. -/
def getAccountProxiedBalance (s : StateDB) (addr user : Address) : AccountProxiedBalance :=
  ⟨s.amounts (.proxied addr user), s.amounts (.depositProxied addr user),
    s.amounts (.pendingRefund addr user)⟩

/-- `AddProxiedBalanceByUser`. -/
def addProxiedBalanceByUser (s : StateDB) (addr user : Address) (amount : Int) : StateDB :=
  (s.setEntry (.proxied addr user) amount).add (.proxiedBalance addr) amount

/-- `SubProxiedBalanceByUser`. -/
def subProxiedBalanceByUser (s : StateDB) (addr user : Address) (amount : Int) : StateDB :=
  (s.setEntry (.proxied addr user) (-amount)).sub (.proxiedBalance addr) amount

/-- `AddDepositProxiedBalanceByUser`. -/
def addDepositProxiedBalanceByUser (s : StateDB) (addr user : Address) (amount : Int) : StateDB :=
  (s.setEntry (.depositProxied addr user) amount).add (.depositProxiedBalance addr) amount

/-- `SubDepositProxiedBalanceByUser`. -/
def subDepositProxiedBalanceByUser (s : StateDB) (addr user : Address) (amount : Int) : StateDB :=
  (s.setEntry (.depositProxied addr user) (-amount)).sub (.depositProxiedBalance addr) amount

/-- `AddPendingRefundBalanceByUser`. -/
def addPendingRefundBalanceByUser (s : StateDB) (addr user : Address) (amount : Int) : StateDB :=
  (s.setEntry (.pendingRefund addr user) amount).add (.pendingRefundBalance addr) amount

/-- `SubPendingRefundBalanceByUser`. -/
def subPendingRefundBalanceByUser (s : StateDB) (addr user : Address) (amount : Int) : StateDB :=
  (s.setEntry (.pendingRefund addr user) (-amount)).sub (.pendingRefundBalance addr) amount

/-- `GetProxiedAddressNumber`. -/
def getProxiedAddressNumber (s : StateDB) (addr : Address) : Nat := (s.proxiedTrie addr).card

/-- `ForEachProxied`.  The address behind a key is asked of the account trie, which knows that of a
delegator: the account of a delegator is written together with its entry. -/
def forEachProxied (it : Ledger.Iteration Address) (s : StateDB) (addr : Address)
    (cb : StateDB → Address → AccountProxiedBalance → StateDB) : StateDB :=
  (it.list (s.proxiedTrie addr)).foldl (fun s key => cb s key (s.getAccountProxiedBalance addr key))
    s

/-! ### Rewards -/

/-- `GetRewardBalanceByDelegateAddress`. -/
def getRewardBalanceByDelegateAddress (s : StateDB) (addr deleAddress : Address) : Int :=
  s.amounts (.reward addr deleAddress)

/-- `AddRewardBalanceByDelegateAddress`. -/
def addRewardBalanceByDelegateAddress (s : StateDB) (addr deleAddress : Address) (amount : Int) :
    StateDB :=
  (s.setEntry (.reward addr deleAddress) amount).add (.rewardBalance addr) amount

/-- `SubRewardBalanceByDelegateAddress`.  It panics if there is no entry; it is only called for a
positive reward. -/
def subRewardBalanceByDelegateAddress (s : StateDB) (addr deleAddress : Address) (amount : Int) :
    StateDB :=
  (s.setEntry (.reward addr deleAddress) (-amount)).sub (.rewardBalance addr) amount

/-! ### Candidates and bans -/

/-- `IsCandidate`. -/
def isCandidate (s : StateDB) (addr : Address) : Bool := (s.accounts addr).candidate

/-- `IsCleanAddress`. -/
def isCleanAddress (s : StateDB) (addr : Address) : Bool :=
  !s.isCandidate addr && decide (s.proxiedTrie addr = ∅)

/-- `SetNonce`. -/
def setNonce (s : StateDB) (addr : Address) (nonce : Nat) : StateDB :=
  s.setAccount addr fun acc => { acc with nonce }

/-- `ApplyForCandidate`. -/
def applyForCandidate (s : StateDB) (addr : Address) (pubkey : Bytes) (commission : Nat) : StateDB :=
  s.setAccount addr fun acc => { acc with candidate := true, commission, pubkey }

/-- `CancelCandidate`. -/
def cancelCandidate (s : StateDB) (addr : Address) (allRefund : Bool) : StateDB :=
  s.setAccount addr fun acc =>
    { acc with
      candidate := false, pubkey := [], commission := if allRefund then 0 else acc.commission }

/-- `ClearCommission`. -/
def clearCommission (s : StateDB) (addr : Address) : StateDB :=
  s.setAccount addr fun acc => { acc with commission := 0 }

/-- `GetBanned`, which creates the object. -/
def getBanned (s : StateDB) (addr : Address) : Bool × StateDB :=
  ((s.accounts addr).isBanned, s.getOrNewStateObject addr)

/-- `SetBanned`. -/
def setBanned (s : StateDB) (addr : Address) (banned : Bool) : StateDB :=
  s.setAccount addr fun acc => { acc with isBanned := banned }

/-- `GetBannedTime`, which creates the object. -/
def getBannedTime (s : StateDB) (addr : Address) : Nat × StateDB :=
  ((s.accounts addr).bannedTime, s.getOrNewStateObject addr)

/-- `SetBannedTime`. -/
def setBannedTime (s : StateDB) (addr : Address) (bannedTime : Nat) : StateDB :=
  s.setAccount addr fun acc => { acc with bannedTime }

/-- `GetMinedBlocks`, which creates the object. -/
def getMinedBlocks (s : StateDB) (addr : Address) : Nat × StateDB :=
  ((s.accounts addr).blockTime, s.getOrNewStateObject addr)

/-- `SetMinedBlocks`. -/
def setMinedBlocks (s : StateDB) (addr : Address) (blocks : Nat) : StateDB :=
  s.setAccount addr fun acc => { acc with blockTime := blocks }

/-- `MarkDelegateAddressRefund`. -/
def markDelegateAddressRefund (s : StateDB) (addr : Address) : StateDB :=
  { s with delegateRefundSet := s.delegateRefundSet.mark addr }

/-- `MarkAddressCandidate`. -/
def markAddressCandidate (s : StateDB) (addr : Address) : StateDB :=
  { s with candidateSet := s.candidateSet.mark addr }

/-- `MarkAddressBanned`. -/
def markAddressBanned (s : StateDB) (addr : Address) : StateDB :=
  { s with bannedSet := s.bannedSet.mark addr }

/-- `GetCandidateSet`, for its effect on the cache. -/
def getCandidateSet (s : StateDB) : StateDB := { s with candidateSet := s.candidateSet.load }

/-- `ClearCandidateSetByAddress`. -/
def clearCandidateSetByAddress (s : StateDB) (addr : Address) : StateDB :=
  { s with candidateSet := s.candidateSet.clearByAddress addr }

/-- `ClearBannedSetByAddress`. -/
def clearBannedSetByAddress (s : StateDB) (addr : Address) : StateDB :=
  { s with bannedSet := s.bannedSet.clearByAddress addr }

/-- `ClearDelegateRefundSet`. -/
def clearDelegateRefundSet (s : StateDB) : StateDB := { s with delegateRefundSet := .clear }

/-! ### Writing -/

/-- The users whose entry `updateProxiedTrie` leaves in the trie. -/
def trieUsers (s : StateDB) (addr : Address) : Finset Address :=
  (s.amounts.support.image Slot.user).filter fun user =>
    (!(s.getAccountProxiedBalance addr user).isEmpty &&
      (s.getAccountProxiedBalance addr user).encodable) = true

/-- `updateStateObject` panics on the account. -/
def unencodable (s : StateDB) (addr : Address) : Bool :=
  (Slot.ofAccount addr).any fun k => decide (s.amounts k < 0)

/-- `Finalise(true)` deletes the account. -/
def deletes (s : StateDB) (addr : Address) : Bool := decide (addr ∈ s.dirty) && s.empty addr

/-- What `Finalise(true)` leaves, when it does not panic. -/
def finalised (s : StateDB) : StateDB where
  amounts := s.amounts.filter fun k => s.deletes k.owner = false
  accounts := fun a => if s.deletes a then .absent else s.accounts a
  proxiedTrie := fun a =>
    if s.deletes a then ∅ else if a ∈ s.dirty then s.trieUsers a else s.proxiedTrie a
  dirty := s.dirty
  delegateRefundSet := s.delegateRefundSet.write
  candidateSet := s.candidateSet.write
  bannedSet := s.bannedSet.write

/-- `Finalise(true)`.  The dirty objects do not depend on each other, so that the order in which
they are written does not matter. -/
def finalise (s : StateDB) : Except Panic StateDB :=
  if ∃ a ∈ s.dirty, s.empty a = false ∧ s.unencodable a = true then
    .error (.explicit "can't encode object")
  else .ok s.finalised

/-- An amount is found in the trie by a new `StateDB`. -/
def persisted (s : StateDB) : Slot → Bool
  | .proxied a u | .depositProxied a u | .pendingRefund a u => decide (u ∈ s.proxiedTrie a)
  | .reward a d => decide (0 ≤ s.amounts (.reward a d))
  | _ => true

/-- A new `StateDB` on what has been written. -/
def reload (s : StateDB) : StateDB where
  amounts := s.amounts.filter fun k => s.persisted k = true
  accounts := s.accounts
  proxiedTrie := s.proxiedTrie
  dirty := ∅
  delegateRefundSet := s.delegateRefundSet.reload
  candidateSet := s.candidateSet.reload
  bannedSet := s.bannedSet.reload

/-- `Commit(true)`, after which the next block starts from a new `StateDB`. -/
def commit (s : StateDB) : Except Panic StateDB := do
  let s ← s.finalise
  return s.reload

end StateDB

end NeatPoS
