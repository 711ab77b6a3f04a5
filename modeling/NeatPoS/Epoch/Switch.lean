import NeatPoS.Consensus.State
import NeatPoS.Core.StateDB

/-!
# The epoch switch

`Epoch.ShouldEnterNewEpoch` (`consensus/neatpos/epoch/epoch.go`), which the engine calls at the last
block of an epoch.  It pays out the pending refunds, decides who the validators of the next epoch
are, and moves deposits accordingly:

* Step 1, `refundDelegates`, pays the pending refunds;
* `validatorLoop` gives each validator the power of its current stake, and removes those that are
  banned or have none;
* `addCandidates` makes votes for the candidates that have none;
* `updateEpochValidatorSet` merges the votes into the set and cuts it at a hundred;
* Step 3, `depositProxied`, and Step 4, `payRefunds`, move the stakes of those who are in and of
  those who are out.

The loop over the validators ranges over a slice from which `Remove` takes elements at the same
time, by shifting the rest of the backing array to the left.  So the array is part of the model:
`LoopState` has the validators themselves, the slots that point at them, and the length of the
slice.

Three things are not determined by the source: in which order a map is ranged over, in which order
the entries of a trie come, and what `sort.Slice` does with elements that compare equal.  They are
the record `Runtime`.
-/

set_option autoImplicit false

namespace NeatPoS

open Ledger

/-! ## Votes for the next epoch -/

/-- `EpochValidatorVote`, less `VoteHash`, which belongs to votes that are not revealed, and
`TxHash`.  A pointer that may be nil is an option. -/
structure EpochValidatorVote where
  address : Address
  pubKey : Option Bytes
  amount : Option Int
  salt : String
deriving DecidableEq, Repr

/-- `EpochValidatorVoteSet`: one vote for each address. -/
structure EpochValidatorVoteSet where
  votes : List EpochValidatorVote
  nodup : (votes.map (·.address)).Nodup

namespace EpochValidatorVoteSet

/-- `NewEpochValidatorVoteSet`. -/
def new : EpochValidatorVoteSet := ⟨[], List.nodup_nil⟩

theorem storeVote_nodup (voteSet : EpochValidatorVoteSet) (vote : EpochValidatorVote) :
    ((voteSet.votes.filter (·.address ≠ vote.address) ++ [vote]).map (·.address)).Nodup := by
  rw [List.map_append, List.nodup_append]
  refine ⟨voteSet.nodup.sublist ((List.filter_sublist).map _), by simp, ?_⟩
  intro a ha b hb hab
  obtain ⟨v, hv, rfl⟩ := List.mem_map.1 ha
  have hne : v.address ≠ vote.address := by simpa using (List.mem_filter.1 hv).2
  rw [List.map_singleton, List.mem_singleton] at hb
  exact hne (hab.trans hb)

/-- `StoreVote`: the vote of the same address is replaced, and moves to the end. -/
def storeVote (voteSet : EpochValidatorVoteSet) (vote : EpochValidatorVote) :
    EpochValidatorVoteSet :=
  ⟨voteSet.votes.filter (·.address ≠ vote.address) ++ [vote], voteSet.storeVote_nodup vote⟩

end EpochValidatorVoteSet

/-- `RefundValidatorAmount`. -/
structure RefundValidatorAmount where
  address : Address
  /-- Nil for validators that are knocked out. -/
  amount : Option Int
  /-- Refund everything, the validator's own deposit and what is delegated to it. -/
  voteout : Bool
deriving DecidableEq, Repr

/-! ## What the source leaves open -/

/-- A sorting algorithm: some permutation of the list in which no element comes after one it is less
than. -/
structure SortSlice {α : Type} (less : α → α → Bool) where
  sort : List α → List α
  perm : ∀ l, (sort l).Perm l
  sorted : ∀ l, (sort l).Pairwise fun a b => less b a = false

/-- `compareAddress`, which compares byte by byte and panics on equal addresses.  All addresses have
the same length; the other cases make it a total order. -/
def compareAddress : Bytes → Bytes → Bool
  | a :: addrA, b :: addrB => if a = b then compareAddress addrA addrB else decide (b < a)
  | _ :: _, [] => true
  | [], _ => false

/-- The order in which new votes are stored: by amount, then by address, the greater one first. -/
def voteLess (v w : EpochValidatorVote) : Bool :=
  if v.amount.getD 0 = w.amount.getD 0 then compareAddress v.address w.address
  else decide (w.amount.getD 0 < v.amount.getD 0)

/-- The order in which validators are knocked out: by remaining epochs, then by power, the greater
one first. -/
def validatorLess (v w : Validator) : Bool :=
  if v.remainingEpoch = w.remainingEpoch then decide (w.votingPower < v.votingPower)
  else decide (w.remainingEpoch < v.remainingEpoch)

/-- What the Go runtime and the hash function decide. -/
structure Runtime where
  /-- The entries of a proxied trie. -/
  trieOrder : Iteration Address
  /-- `range` over the refund set. -/
  refundOrder : Iteration Address
  /-- The two loops over the candidate set. -/
  bannedOrder : Iteration Address
  candidateOrder : Iteration Address
  sortVotes : SortSlice voteLess
  sortValidators : SortSlice validatorLess

namespace StateDB

variable (rt : Runtime)

/-! ## Step 1 -/

/-- Pays the pending refund of one user. -/
def refundUser (addr : Address) (s : StateDB) (key : Address) (apb : AccountProxiedBalance) :
    StateDB :=
  if 0 < apb.pendingRefundBalance then
    (((s.subDepositProxiedBalanceByUser addr key apb.pendingRefundBalance)
      |>.subPendingRefundBalanceByUser addr key apb.pendingRefundBalance)
      |>.subDelegateBalance key apb.pendingRefundBalance)
      |>.addBalance key apb.pendingRefundBalance
  else s

/-- Pays the pending refunds of one candidate. -/
def refundAddress (s : StateDB) (addr : Address) : StateDB :=
  let s := s.forEachProxied rt.trieOrder addr (refundUser addr)
  if s.isCandidate addr then s else s.clearCommission addr

/-- Step 1: refunds the delegates. -/
def refundDelegates (s : StateDB) : StateDB :=
  let s := { s with delegateRefundSet := s.delegateRefundSet.load }
  ((rt.refundOrder.list s.delegateRefundSet.cache).foldl (refundAddress rt) s)
    |>.clearDelegateRefundSet

/-! ## The loop over the validators -/

/-- One epoch of the ban of an address is over. -/
def serveBan (s : StateDB) (addr : Address) : StateDB :=
  let (bannedEpoch, s) := s.getBannedTime addr
  if 0 < bannedEpoch then s.setBannedTime addr (bannedEpoch - 1) else s

/-- `delete(candidateList, addr)`: the list is the cached set itself. -/
def deleteCandidate (s : StateDB) (addr : Address) : StateDB :=
  { s with candidateSet := s.candidateSet.delete addr }

/-- The stake of a validator, which becomes its power. -/
def stake (s : StateDB) (addr : Address) : Int :=
  s.getTotalProxiedBalance addr + s.getTotalDepositProxiedBalance addr + s.getDepositBalance addr

end StateDB

/-- The loop over `newValidators.Validators`. -/
structure LoopState where
  db : StateDB
  /-- The validators that are pointed at. -/
  heap : List Validator
  /-- The backing array. -/
  slots : List Nat
  /-- The length of `newValidators.Validators`. -/
  size : Nat
  refunds : List RefundValidatorAmount

namespace LoopState

/-- `ValidatorSet.Remove`, on the backing array: the slots behind the removed one are shifted, and
the last one keeps its value. -/
def remove (st : LoopState) (address : Bytes) : LoopState :=
  match (st.slots.take st.size).findIdx? fun p => (st.heap[p]?.map (·.address)) == some address with
  | none => st
  | some idx =>
    { st with
      slots := st.slots.take idx ++ (st.slots.take st.size).drop (idx + 1) ++
        st.slots.drop (st.size - 1)
      size := st.size - 1 }

/-- The body of the loop, at the validator that slot `p` points at. -/
def visitValidator (st : LoopState) (p : Nat) (v : Validator) : LoopState :=
  let (banned, db) := st.db.getBanned v.address
  let st := { st with db }
  if !banned then
    let newVotingPower := db.stake v.address
    if newVotingPower = 0 then st.remove v.address
    else { st with heap := st.heap.set p { v with votingPower := newVotingPower } }
  else
    let st := st.remove v.address
    { st with
      db := (st.db.deleteCandidate v.address).serveBan v.address
      refunds := st.refunds ++ [⟨v.address, some v.votingPower, true⟩] }

/-- Round `j` of the loop. -/
def visit (st : LoopState) (j : Nat) : LoopState :=
  match st.slots[j]? with
  | none => st
  | some p =>
    match st.heap[p]? with
    | none => st
    | some v => st.visitValidator p v

/-- The validators that are left. -/
def validators (st : LoopState) : List Validator :=
  (st.slots.take st.size).filterMap fun p => st.heap[p]?

end LoopState

/-- The loop over the validators.  `range` has fixed the slice, so that it reads every slot. -/
def validatorLoop (db : StateDB) (validators : List Validator) : LoopState :=
  (List.range validators.length).foldl LoopState.visit
    ⟨db, validators, List.range validators.length, validators.length, []⟩

/-! ## Candidates -/

namespace StateDB

variable (rt : Runtime)

/-- Removes a banned candidate from the list. -/
def dropIfBanned (s : StateDB) (addr : Address) : StateDB :=
  let (banned, s) := s.getBanned addr
  if banned then (s.deleteCandidate addr).serveBan addr else s

/-- Moves the proxied amount of one user to the deposit. -/
def moveToDeposit (addr : Address) (s : StateDB) (key : Address) (apb : AccountProxiedBalance) :
    StateDB :=
  (s.subProxiedBalanceByUser addr key apb.proxiedBalance)
    |>.addDepositProxiedBalanceByUser addr key apb.proxiedBalance

/-- What is delegated to a candidate and not about to be refunded. -/
def netProxied (s : StateDB) (addr : Address) : Int :=
  s.getTotalProxiedBalance addr + s.getTotalDepositProxiedBalance addr -
    s.getTotalPendingRefundBalance addr

/-- Makes the vote of one candidate. -/
def candidateVote (st : StateDB × List EpochValidatorVote) (addr : Address) :
    StateDB × List EpochValidatorVote :=
  let (s, voteArr) := st
  if s.isCandidate addr then
    let netProxied := s.netProxied addr
    if netProxied < 0 then st
    else
      let s := s.forEachProxied rt.trieOrder addr (moveToDeposit addr)
      let pubkey := (s.accounts addr).pubkey
      if pubkey.length ≠ 128 then (s, voteArr)
      else (s, voteArr ++ [⟨addr, some pubkey, some netProxied, "neatio"⟩])
  else st

/-- Adds the candidates to the votes of the next epoch. -/
def addCandidates (s : StateDB) (newValidators : List Validator) (voteSet : EpochValidatorVoteSet) :
    StateDB × EpochValidatorVoteSet :=
  if s.candidateSet.cache = ∅ then (s, voteSet)
  else
    let s := (rt.bannedOrder.list s.candidateSet.cache).foldl dropIfBanned s
    let s := (newValidators.map (·.address)).foldl deleteCandidate s
    let s := (voteSet.votes.map (·.address)).foldl deleteCandidate s
    let (s, voteArr) :=
      (rt.candidateOrder.list s.candidateSet.cache).foldl (candidateVote rt) (s, [])
    (s, (rt.sortVotes.sort voteArr).foldl EpochValidatorVoteSet.storeVote voteSet)

end StateDB

/-! ## The votes are merged into the validators -/

namespace ValidatorSet

/-- `ValidatorSet.Add`, for a new address. -/
def add (vs : ValidatorSet) (v : Validator) : ValidatorSet := ⟨vs.validators ++ [v]⟩

/-- `ValidatorSet.Update`. -/
def update (vs : ValidatorSet) (v : Validator) : ValidatorSet :=
  ⟨vs.validators.set (vs.getByAddress v.address).1 v⟩

/-- `ValidatorSet.Remove`. -/
def remove (vs : ValidatorSet) (address : Bytes) : ValidatorSet :=
  ⟨vs.validators.eraseP fun v => v.address == address⟩

end ValidatorSet

/-- The validators while the votes are merged into them. -/
structure Merge where
  validators : ValidatorSet
  refund : List RefundValidatorAmount
  newValSize : Nat

/-- One vote.  A vote that is not revealed is passed by. -/
def mergeVote (m : Merge) (v : EpochValidatorVote) : Merge :=
  match v.amount, v.pubKey with
  | some amount, some pubKey =>
    if v.salt = "" then m
    else
      match (m.validators.getByAddress v.address).2 with
      | none =>
        { m with
          validators := m.validators.add ⟨v.address, pubKey, amount, 0⟩
          newValSize := m.newValSize + 1 }
      | some validator =>
        if amount = 0 then
          { m with
            validators := m.validators.remove validator.address
            refund := m.refund ++ [⟨v.address, some validator.votingPower, false⟩] }
        else
          { m with
            validators := m.validators.update { validator with votingPower := amount }
            refund :=
              if amount < validator.votingPower then
                m.refund ++ [⟨v.address, some (validator.votingPower - amount), false⟩]
              else m.refund }
  | _, _ => m

/-- `MaximumValidatorsSize`. -/
def maximumValidatorsSize : Nat := 100

/-- `MinimumValidatorsSize`. -/
def minimumValidatorsSize : Nat := 1

/-- How many validators there may be. -/
def determineValSize (valSize : Nat) : Nat :=
  if maximumValidatorsSize < valSize then maximumValidatorsSize
  else if valSize < minimumValidatorsSize then minimumValidatorsSize
  else valSize

/-- The validators after one more epoch. -/
def subtractRemainingEpoch (vs : ValidatorSet) : ValidatorSet :=
  ⟨vs.validators.map fun v => { v with remainingEpoch := v.remainingEpoch - 1 }⟩

/-- `updateEpochValidatorSet`.  The errors it may return say that a validator could not be added,
removed or updated, right after it was looked up; they do not occur. -/
def updateEpochValidatorSet (rt : Runtime) (validators : ValidatorSet)
    (voteSet : EpochValidatorVoteSet) : ValidatorSet × List RefundValidatorAmount :=
  let m := voteSet.votes.foldl mergeVote ⟨validators, [], 0⟩
  let valSize := determineValSize (validators.size + m.newValSize)
  let vs := subtractRemainingEpoch m.validators
  if valSize < vs.size then
    let sorted := rt.sortValidators.sort vs.validators
    (⟨sorted.take valSize⟩,
      m.refund ++ (sorted.drop valSize).map fun k => ⟨k.address, none, true⟩)
  else (vs, m.refund)

/-! ## Deposits -/

namespace StateDB

variable (rt : Runtime)

/-- Step 3, for one validator. -/
def depositProxied (s : StateDB) (addr : Address) : StateDB :=
  if s.isCandidate addr && decide (0 < s.getTotalProxiedBalance addr) then
    s.forEachProxied rt.trieOrder addr fun s key apb =>
      if 0 < apb.proxiedBalance then moveToDeposit addr s key apb else s
  else s

/-- Moves the deposit of one user back to the proxied amount. -/
def moveToProxied (addr : Address) (s : StateDB) (key : Address) (apb : AccountProxiedBalance) :
    StateDB :=
  if 0 < apb.depositProxiedBalance then
    (s.subDepositProxiedBalanceByUser addr key apb.depositProxiedBalance)
      |>.addProxiedBalanceByUser addr key apb.depositProxiedBalance
  else s

/-- Step 4, for one refund. -/
def payRefund (s : StateDB) (r : RefundValidatorAmount) : StateDB :=
  if !r.voteout then
    (s.subDepositBalance r.address (r.amount.getD 0)).addBalance r.address (r.amount.getD 0)
  else
    let s := if s.isCandidate r.address then
        s.forEachProxied rt.trieOrder r.address (moveToProxied r.address)
      else s
    let depositBalance := s.getDepositBalance r.address
    (s.subDepositBalance r.address depositBalance).addBalance r.address depositBalance

end StateDB

/-- What `ShouldEnterNewEpoch` returns. -/
inductive SwitchResult where
  /-- `false, nil, nil` -/
  | stay
  /-- `false, nil, NextEpochNotExist` -/
  | nextEpochNotExist
  /-- `true, newValidators, nil` -/
  | enter (newValidators : ValidatorSet)

/-- The switch itself, with the votes of the next epoch. -/
def enterNewEpoch (rt : Runtime) (validators : ValidatorSet)
    (nextEpochVoteSet : Option EpochValidatorVoteSet) (s : StateDB) : StateDB × ValidatorSet :=
  let s := (s.refundDelegates rt).getCandidateSet
  let loop := validatorLoop s validators.validators
  let (s, votes) := loop.db.addCandidates rt loop.validators (nextEpochVoteSet.getD .new)
  let (newValidators, refundsUpdate) := updateEpochValidatorSet rt ⟨loop.validators⟩ votes
  let s := (newValidators.validators.map (·.address)).foldl (StateDB.depositProxied rt) s
  ((loop.refunds ++ refundsUpdate).foldl (StateDB.payRefund rt) s, newValidators)

/-- `Epoch.ShouldEnterNewEpoch`.  `nextEpoch` is nil, or has the votes for it, which may be nil. -/
def shouldEnterNewEpoch (rt : Runtime) (epoch : Epoch)
    (nextEpoch : Option (Option EpochValidatorVoteSet)) (height : Nat) (s : StateDB) :
    StateDB × SwitchResult :=
  if height = epoch.endBlock then
    match nextEpoch with
    | none => (s, .nextEpochNotExist)
    | some voteSet =>
      let (s, newValidators) := enterNewEpoch rt epoch.validators voteSet s
      (s, .enter newValidators)
  else (s, .stay)

/-! ## Bans -/

/-- `BannedEpoch`: how many epochs a ban lasts. -/
def bannedEpoch : Nat := 2

namespace StateDB

/-- One more block for a validator. -/
def countMinedBlock (s : StateDB) (addr : Address) : StateDB :=
  let (times, s) := s.getMinedBlocks addr
  s.setMinedBlocks addr (times + 1)

/-- A validator without blocks is banned. -/
def banIfIdle (s : StateDB) (addr : Address) : StateDB :=
  let (times, s) := s.getMinedBlocks addr
  if times = 0 then ((s.setBanned addr true).setBannedTime addr bannedEpoch).markAddressBanned addr
  else s

/-- The loop over the bits of a commit; a bit that is set beyond the last validator is an index out
of range. -/
def countMinedBlocks : List Bool → List Validator → StateDB → Except Panic StateDB
  | true :: bits, v :: vs, s => countMinedBlocks bits vs (s.countMinedBlock v.address)
  | false :: bits, vs, s => countMinedBlocks bits vs.tail s
  | true :: _, [], _ => .error .indexOutOfRange
  | [], _, s => .ok s

end StateDB

/-- `Epoch.UpdateBannedState`. -/
def updateBannedState (epoch : Epoch) (height : Nat) (commit : Option Commit) (s : StateDB) :
    Except Panic StateDB :=
  let addresses := epoch.validators.validators.map (·.address)
  if height ≤ 1 ∨ height = epoch.startBlock then .ok s
  else if height = epoch.endBlock then
    .ok (addresses.foldl (fun s addr => s.setMinedBlocks addr 0) s)
  else if height = prevU64 epoch.endBlock then .ok (addresses.foldl StateDB.banIfIdle s)
  else
    match commit.bind (·.bitArray) with
    | none => .ok s
    | some bits => s.countMinedBlocks bits epoch.validators.validators

end NeatPoS
