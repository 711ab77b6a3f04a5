import NeatPoS.Core.StateProcessor
import NeatPoS.Epoch.Orders
import NeatPoS.Staking.Registry

/-!
# What a call of the chain's contract costs

`ApplyTransactionEx` buys the gas of a call by hand: it takes the whole limit from the balance of
the sender and from the gas pool, runs the callback, and gives back what the function does not need.
If the callback moves coins without making or destroying any, the coins that exist should become
fewer by the fee and by nothing else.

They do, except for one thing that is not part of the arithmetic: `Finalise(true)` deletes the dirty
accounts that are empty, `empty` does not look at the reward balance, and the nonce of the sender is
raised only afterwards.  `StateDB.strandedReward` is what is lost in this way, and `fees_exact_iff`
says that the books are exact if and only if it is zero (and no counter of 64 bits overflows).
-/

set_option autoImplicit false

namespace NeatPoS

open DFinsupp Ledger Stateful

namespace StateDB

/-- The database, as transactions see it.  Without contracts there are no refunds of gas. -/
def access : StateAccess StateDB where
  exist := fun s a => (s.accounts a).live
  createAccount := fun a s => s.getOrNewStateObject a
  getNonce := fun s a => (s.accounts a).nonce
  setNonce := fun a n s => s.setNonce a n
  getBalance := getBalance
  addBalance := fun a x s => s.addBalance a x
  subBalance := fun a x s => s.subBalance a x
  getRefund := fun _ => 0
  finalise := finalise

/-! ## What `Finalise` destroys -/

/-- The rewards of the accounts that `Finalise(true)` deletes. -/
def strandedReward (s : StateDB) : Int :=
  ∑ a ∈ s.dirty.filter fun a => s.empty a = true, s.amounts (.rewardBalance a)

/-- Of the coins of an account that is deleted, only the reward can be other than zero. -/
theorem coin_eq_zero_of_empty {s : StateDB} {k : Slot} (hempty : s.empty k.owner = true)
    (hk : k.coin ≠ 0) (hreward : ∀ a, k ≠ .rewardBalance a) : s.amounts k = 0 := by
  simp only [empty, Bool.and_eq_true, beq_iff_eq] at hempty
  obtain ⟨⟨⟨⟨⟨⟨⟨⟨⟨⟨-, hb⟩, -⟩, hdep⟩, -⟩, -⟩, -⟩, hp⟩, hd⟩, -⟩, -⟩ := hempty
  cases k with
  | balance => exact hb
  | depositBalance => exact hdep
  | proxiedBalance => exact hp
  | depositProxiedBalance => exact hd
  | rewardBalance a => exact absurd rfl (hreward a)
  | _ => exact absurd rfl hk

/-- What the deleted accounts have lost, as a posting. -/
def strandedPosting (s : StateDB) : Posting :=
  ∑ a ∈ s.dirty.filter fun a => s.empty a = true,
    single (.rewardBalance a) (s.amounts (.rewardBalance a))

variable (s : StateDB) (a : Address)

theorem strandedPosting_reward :
    s.strandedPosting (.rewardBalance a) =
      if s.deletes a = false then 0 else s.amounts (.rewardBalance a) := by
  rw [strandedPosting, finsetSum_apply]
  have hother : ∀ b, b ≠ a →
      (single (Slot.rewardBalance b) (s.amounts (.rewardBalance b)) : Posting)
      (.rewardBalance a) = 0 :=
    fun b hb => single_eq_of_ne fun h => hb (Slot.rewardBalance.inj h).symm
  split
  · rename_i hdel
    refine Finset.sum_eq_zero fun b hb => hother b ?_
    rintro rfl
    obtain ⟨hdirty, hempty⟩ := Finset.mem_filter.1 hb
    simp [deletes, hdirty, hempty] at hdel
  · rename_i hdel
    have hmem : a ∈ s.dirty.filter fun a => s.empty a = true := by
      simpa [deletes, Finset.mem_filter] using hdel
    rw [Finset.sum_eq_single_of_mem a hmem fun b _ hb => hother b hb, single_eq_same]

theorem strandedPosting_other {k : Slot} (hk : ∀ a, k ≠ .rewardBalance a) :
    s.strandedPosting k = 0 := by
  rw [strandedPosting, finsetSum_apply]
  exact Finset.sum_eq_zero fun a _ => single_eq_of_ne (hk a)

/-- The coins that `Finalise` destroys are the rewards of the accounts it deletes. -/
theorem finalised_totalCoins : s.finalised.totalCoins = s.totalCoins - s.strandedReward := by
  have hlost : weigh Slot.coin (s.amounts - s.finalised.amounts) =
    weigh Slot.coin s.strandedPosting := by
    refine weigh_congr fun k hk => ?_
    rw [DFinsupp.sub_apply, finalised_amounts]
    by_cases hreward : ∃ a, k = .rewardBalance a
    · obtain ⟨a, rfl⟩ := hreward
      rw [strandedPosting_reward, Slot.owner]
      split
      · exact sub_self _
      · exact sub_zero _
    · rw [not_exists] at hreward
      rw [strandedPosting_other s hreward]
      split
      · exact sub_self _
      · rename_i hdel
        rw [sub_zero, coin_eq_zero_of_empty (empty_of_deletes hdel) hk hreward]
  have hsum : weigh Slot.coin s.strandedPosting = s.strandedReward := by
    rw [strandedPosting, map_sum, strandedReward]
    refine Finset.sum_congr rfl fun a _ => ?_
    rw [weigh_single, Slot.coin, one_mul]
  rw [map_sub, hsum] at hlost
  rw [totalCoins, totalCoins]
  omega

theorem addBalance_totalCoins (x : Int) : (s.addBalance a x).totalCoins = s.totalCoins + x := by
  rw [totalCoins, addBalance, (add_posts s (.balance a) x).amounts, map_add, weigh_single,
    Slot.coin, one_mul]
  rfl

theorem subBalance_totalCoins (x : Int) : (s.subBalance a x).totalCoins = s.totalCoins - x := by
  rw [totalCoins, subBalance, (sub_posts s (.balance a) x).amounts, map_add, weigh_single,
    Slot.coin, one_mul]
  rfl

theorem setNonce_totalCoins (n : Nat) : (s.setNonce a n).totalCoins = s.totalCoins := by
  rw [totalCoins, (setNonce_posts s a n).amounts, add_zero]
  rfl

end StateDB

/-! ## The fee -/

namespace StateProcessor

/-- The callback of a function neither makes nor destroys coins, and leaves the nonces alone. -/
def Conserving {ω : Type} (env : TxEnv StateDB ω) (function : FunctionType) : Prop :=
  ∀ cb, env.getApplyCb function = some cb → ∀ tx before after,
    cb.run tx before = .ok () after →
      after.1.totalCoins = before.1.totalCoins ∧ after.1.nonces = before.1.nonces

/-- The gas has been paid for, and everything else is as it was. -/
structure Charged {ω : Type} (tx : Transaction) (sender : Address) (gas : Nat)
    (w w' : Work StateDB ω) : Prop where
  totalCoins : w'.db.totalCoins = w.db.totalCoins - gas * tx.price
  totalUsedMoney : w'.totalUsedMoney = w.totalUsedMoney + gas * tx.price
  gasPool : w'.gasPool + gas = w.gasPool
  usedGas : w'.usedGas = w.usedGas + gas
  gas_le : gas ≤ tx.gasLimit
  nonce : w'.db.nonces sender = w.db.nonces sender + 1

section

variable {ω : Type} {env : TxEnv StateDB ω} {tx : Transaction} {sender : Address} {id : Bytes}
  {function : FunctionType} {w w' : Work StateDB ω} {db : StateDB} {ops : List ω}

theorem Called.conserves (hcb : Conserving env function) {before after : StateDB × List ω}
    (h : Called env function tx before after) :
    after.1.totalCoins = before.1.totalCoins ∧ after.1.nonces = before.1.nonces := by
  rw [Called] at h
  cases hget : env.getApplyCb function with
  | none =>
    rw [hget] at h
    rw [show after = before from h]
    exact ⟨rfl, rfl⟩
  | some cb =>
    rw [hget] at h
    exact hcb cb hget tx before after h

theorem Called.unique {before after after' : StateDB × List ω}
    (h : Called env function tx before after) (h' : Called env function tx before after') :
    after' = after := by
  rw [Called] at h h'
  cases hget : env.getApplyCb function with
  | none =>
    rw [hget] at h h'
    exact Eq.trans h' h.symm
  | some =>
    rw [hget] at h h'
    cases h'.symm.trans h
    rfl

/-- The fee of a call is `gas * price`, the refund counted. -/
theorem fee_eq {gas gasLimit : Nat} (price : Nat) (h : gas ≤ gasLimit) :
    (gasLimit * price : Int) - ((gasLimit - gas : Nat) : Int) * price = gas * price := by
  rw [Nat.cast_sub h, ← Int.sub_mul]
  congr 1
  omega

/-- **The fee of a call is exact unless a reward is stranded.** -/
theorem fees_exact_iff (haccess : env.access = StateDB.access) (hcb : Conserving env function)
    (hto : isNeatChainContractAddr tx.recipient = true) (hsender : env.sender tx = some sender)
    (hid : selector tx.payload = .ok id) (hfunction : env.functionTypeFromId id = some function)
    (hcalled : Called env function tx
      (w.db.subBalance sender (tx.gasLimit * tx.price), w.ops) (db, ops))
    (h : applyTransactionEx env tx w = .ok () w') :
    Charged tx sender function.requiredGas w w' ↔
      (db.addBalance sender ((tx.gasLimit - function.requiredGas : Nat) * tx.price)).strandedReward
          = 0 ∧
        w.db.nonces sender + 1 < 2 ^ 64 ∧ w.usedGas + function.requiredGas < 2 ^ 64 := by
  rw [applyTransactionEx, hsender] at h
  dsimp only at h
  rw [if_pos hto] at h
  obtain ⟨id', function', db₁, ops₁, db₂, hid', hfunction', -, -, hpool, hlimit, -, hcalled', hfin,
    rfl⟩ := applyChainFunction_ok h
  obtain rfl : id' = id := Except.ok.inj (hid'.symm.trans hid)
  obtain rfl : function' = function := Option.some.inj (hfunction'.symm.trans hfunction)
  rw [haccess] at hcalled' hfin
  obtain ⟨rfl, rfl⟩ := Prod.mk.inj (Called.unique hcalled hcalled')
  obtain ⟨hcoins, hnonces⟩ := Called.conserves hcb hcalled
  obtain ⟨rfl, -⟩ := StateDB.finalise_ok hfin
  rw [haccess]
  set refunded := db₁.addBalance sender ((tx.gasLimit - function'.requiredGas : Nat) * tx.price)
    with hrefunded
  have hfee := fee_eq tx.price hlimit
  have htotal : (refunded.finalised.setNonce sender
      ((refunded.finalised.nonces sender + 1) % 2 ^ 64)).totalCoins =
      w.db.totalCoins - function'.requiredGas * tx.price - refunded.strandedReward := by
    rw [StateDB.setNonce_totalCoins, StateDB.finalised_totalCoins, hrefunded,
      StateDB.addBalance_totalCoins, hcoins, StateDB.subBalance_totalCoins]
    omega
  have hnonce : (refunded.finalised.setNonce sender
      ((refunded.finalised.nonces sender + 1) % 2 ^ 64)).nonces sender =
      (w.db.nonces sender + 1) % 2 ^ 64 := by
    rw [StateDB.setNonce_nonces, Function.update_self, StateDB.finalised_nonces, hrefunded,
      StateDB.addBalance, StateDB.nonces_frame.add, hnonces, StateDB.subBalance, StateDB.nonces_frame.sub]
  constructor
  · rintro ⟨hc, -, -, hu, -, hn⟩
    have hc' := htotal.symm.trans hc
    have hn' := hnonce.symm.trans hn
    refine ⟨by omega, ?_, ?_⟩
    · rw [← hn']
      exact Nat.mod_lt _ (by decide)
    · rw [← hu]
      exact Nat.mod_lt _ (by decide)
  · rintro ⟨hstranded, hn, hu⟩
    refine ⟨?_, rfl, ?_, Nat.mod_eq_of_lt hu, hlimit, ?_⟩
    · rw [hstranded, sub_zero] at htotal
      exact htotal
    · show w.gasPool - tx.gasLimit + (tx.gasLimit - function'.requiredGas) + function'.requiredGas =
        w.gasPool
      omega
    · rw [Nat.mod_eq_of_lt hn] at hnonce
      exact hnonce

end

/-! ## The callbacks of staking -/

/-- The functions that `internal/neatapi` registers an `ApplyCb` for. -/
def hasStakingCb : FunctionType → Bool
  | .withdrawReward | .delegate | .unDelegate | .register | .unRegister | .setCommission
  | .unBanned => true
  | _ => false

section

variable (env : TxEnv StateDB UpdateNextEpochOp) (rt : Runtime) (bc : ChainView)
  (unpack : FunctionType → Bytes → Option StakingCall)

/-- The callback of a staking function.  `unpack` is the ABI, which decodes the arguments.  What a
callback that fails has done so far is not kept: its caller reverts the state. -/
def stakingCb (function : FunctionType) : ApplyCb StateDB UpdateNextEpochOp where
  crossChain := false
  run := fun tx before =>
    match env.sender tx, unpack function (tx.payload.drop 4) with
    | some sender, some call =>
      match applyCb rt bc
        ⟨sender, tx.accountNonce, tx.amount, tx.gasLimit, tx.price, call⟩ before.1 with
      | .ok (s, ops) => .ok () (s, before.2 ++ ops)
      | .error _ => .error (.error .callback) before
    | _, _ => .error (.error .callback) before

/-- The environment of a node: the callbacks of staking are the registered ones. -/
def stakingEnv : TxEnv StateDB UpdateNextEpochOp :=
  { env with
    access := StateDB.access
    getApplyCb := fun function =>
      if hasStakingCb function then some (stakingCb env rt bc unpack function) else none }

/-- The callbacks of staking move coins and make none. -/
theorem stakingEnv_conserving (function : FunctionType) :
    Conserving (stakingEnv env rt bc unpack) function := by
  intro cb hcb tx before after hrun
  have hcb : (if hasStakingCb function then some (stakingCb env rt bc unpack function) else none) =
      some cb := hcb
  split at hcb
  · cases hcb
    dsimp only [stakingCb] at hrun
    split at hrun
    · split at hrun
      · rename_i happly
        cases hrun
        exact ⟨(StateDB.applyCb_sameBooks happly).totalCoins_eq, StateDB.applyCb_nonces happly⟩
      · cases hrun
    · cases hrun
  · cases hcb

theorem finishTransaction_of_finalise {tx : StakingTx} {s t : StateDB}
    {ops : List UpdateNextEpochOp}
    (h : (s.addBalance tx.sender ((tx.gasLimit - requiredGas) * tx.gasPrice : Nat)).finalise =
      .ok t) :
    finishTransaction tx s ops =
      .ok (t.setNonce tx.sender ((t.accounts tx.sender).nonce + 1), ops) := by
  rw [finishTransaction, h]

theorem requiredGas_of_hasStakingCb {function : FunctionType} (h : hasStakingCb function = true) :
    function.requiredGas = requiredGas := by
  cases function with
  | withdrawReward | delegate | unDelegate | register | unRegister | setCommission | unBanned => rfl
  | _ => cases h

variable {env rt bc unpack}

/-- **The two models of `ApplyTransactionEx` agree.**  A staking call that is applied in a block
makes of the state what `NeatPoS.applyTransactionEx` makes of it, with the same operations. -/
theorem applyTransactionEx_staking {tx : Transaction} {sender : Address} {id : Bytes}
    {function : FunctionType} {call : StakingCall} {w w' : Work StateDB UpdateNextEpochOp}
    (hto : isNeatChainContractAddr tx.recipient = true)
    (hsender : env.sender tx = some sender) (hid : selector tx.payload = .ok id)
    (hfunction : env.functionTypeFromId id = some function)
    (hstaking : hasStakingCb function = true)
    (hcall : unpack function (tx.payload.drop 4) = some call)
    (hnonce : w.db.nonces sender + 1 < 2 ^ 64)
    (h : applyTransactionEx (stakingEnv env rt bc unpack) tx w = .ok () w') :
    ∃ ops, NeatPoS.applyTransactionEx rt bc
        ⟨sender, tx.accountNonce, tx.amount, tx.gasLimit, tx.price, call⟩ w.db = .ok (w'.db, ops) ∧
      w'.ops = w.ops ++ ops := by
  rw [applyTransactionEx, show (stakingEnv env rt bc unpack).sender tx = some sender from hsender]
    at h
  dsimp only at h
  rw [if_pos hto] at h
  obtain ⟨id', function', db, ops, db', hid', hfunction', hcheck, hgas, -, hlimit, hamount, hcalled,
    hfin, rfl⟩ := applyChainFunction_ok h
  obtain rfl : id' = id := Except.ok.inj (hid'.symm.trans hid)
  obtain rfl : function' = function := Option.some.inj (hfunction'.symm.trans hfunction)
  rw [requiredGas_of_hasStakingCb hstaking] at hlimit hfin
  have haccess : (stakingEnv env rt bc unpack).access = StateDB.access := rfl
  rw [haccess] at hcheck hgas hamount hcalled hfin ⊢
  dsimp only [StateDB.access] at hcheck hgas hamount hcalled hfin ⊢
  rw [Called, show (stakingEnv env rt bc unpack).getApplyCb function' =
    some (stakingCb env rt bc unpack function') from if_pos hstaking] at hcalled
  dsimp only [stakingCb] at hcalled
  rw [hsender, hcall] at hcalled
  dsimp only at hcalled
  split at hcalled
  · rename_i happly
    cases hcalled
    refine ⟨_, ?_, rfl⟩
    have hkept : db'.nonces sender = w.db.nonces sender := by
      obtain ⟨rfl, -⟩ := StateDB.finalise_ok hfin
      rw [StateDB.finalised_nonces]
      exact congrFun ((StateDB.nonces_frame.add ..).trans ((StateDB.applyCb_nonces happly).trans
        (StateDB.nonces_frame.sub ..))) sender
    have hraised : (db'.nonces sender + 1) % 2 ^ 64 = db'.nonces sender + 1 :=
      Nat.mod_eq_of_lt (hkept ▸ hnonce)
    rw [← Nat.cast_mul] at hgas hamount happly hfin
    simp only [NeatPoS.applyTransactionEx, bind_eq_ok, refuseIf_eq_ok, decide_eq_false_iff_not]
    refine ⟨(), ?_, (), ?_, (), Int.not_lt.2 hgas, (), Nat.not_lt.2 hlimit, (),
      Int.not_lt.2 hamount, _, happly, ?_⟩
    · exact Nat.not_lt.2 hcheck.ge
    · exact Nat.not_lt.2 hcheck.le
    · rw [StateDB.nonces] at hraised
      rw [hraised]
      exact finishTransaction_of_finalise hfin
  · cases hcalled

end

/-! ### A delegation of nothing -/

namespace Delegation

/-- A sender with a balance and a reward that it has not withdrawn, and a candidate. -/
def state (balance : Int) : StateDB where
  amounts := single (.balance [1]) balance + single (.rewardBalance [1]) 5 +
    single (.reward [1] [2]) 5
  accounts := fun a =>
    if a = [1] then { Account.absent with live := true }
    else if a = [2] then
      { Account.absent with live := true, candidate := true, pubkey := List.replicate 128 7 }
    else .absent
  proxiedTrie := fun _ => ∅
  dirty := ∅
  delegateRefundSet := .clear
  candidateSet := ⟨∅, some {[2]}, false⟩
  bannedSet := .clear

/-- All transactions are from one address, and call the same function. -/
def senders : TxEnv StateDB UpdateNextEpochOp where
  access := StateDB.access
  sender := fun _ => some [1]
  isMainChain := true
  functionTypeFromId := fun _ => some .delegate
  getApplyCb := fun _ => none
  create := fun _ _ gas s => ⟨s, gas, none⟩
  call := fun _ _ gas s => ⟨s, gas, none⟩

/-- The node at block 5 of the first epoch. -/
def env : TxEnv StateDB UpdateNextEpochOp :=
  stakingEnv senders .sorted ⟨Chain.firstEpoch, 5, none, fun _ _ _ => true⟩
    fun _ _ => some (.delegate [2])

/-- Nothing is delegated, for a fee of 21000. -/
def tx : Transaction := ⟨0, 1, 21000, some chainContractMagicAddr, 0, [1, 2, 3, 4], 0, 0, 0⟩

/-- The first transaction of a block. -/
def work (balance : Int) : Work StateDB UpdateNextEpochOp := ⟨state balance, [], 1000000, 0, 0⟩

/-- The callback of the delegation. -/
def cb : ApplyCb StateDB UpdateNextEpochOp :=
  stakingCb senders .sorted ⟨Chain.firstEpoch, 5, none, fun _ _ _ => true⟩
    (fun _ _ => some (.delegate [2])) .delegate

theorem env_getApplyCb : env.getApplyCb .delegate = some cb := rfl

/-- With coins left in its balance, the sender keeps its reward. -/
theorem fees_exact_delegation : ∃ w', applyTransactionEx env tx (work 30000) = .ok () w' ∧
    Charged tx [1] 21000 (work 30000) w' := by
  have hcall : returnsIn (cb.run tx)
      ((work 30000).db.subBalance [1] (tx.gasLimit * tx.price), (work 30000).ops)
        (fun after => decide
        ((after.1.addBalance [1] ((tx.gasLimit - FunctionType.requiredGas .delegate : Nat) *
          tx.price)).strandedReward = 0)) = true := by
    decide +kernel
  have hrun : returnsIn (applyTransactionEx env tx) (work 30000) (fun _ => true) = true := by
    decide +kernel
  obtain ⟨⟨db, ops⟩, hcb, hstranded⟩ := exists_of_returnsIn hcall
  obtain ⟨w', hw', -⟩ := exists_of_returnsIn hrun
  have hcalled : Called env .delegate tx
      ((work 30000).db.subBalance [1] (tx.gasLimit * tx.price), (work 30000).ops) (db, ops) := by
    rw [Called, env_getApplyCb]
    exact hcb
  refine ⟨w', hw', (fees_exact_iff rfl (stakingEnv_conserving _ _ _ _ _)
    (by decide) rfl rfl rfl hcalled hw').2 ⟨of_decide_eq_true hstranded, ?_, ?_⟩⟩
  · decide
  · decide

/-- If the fee takes all of its balance, the account of the sender is deleted with its reward. -/
theorem reward_lost_delegation : ∃ w', applyTransactionEx env tx (work 21000) = .ok () w' ∧
    w'.db.totalCoins ≠ (work 21000).db.totalCoins - 21000 := by
  have hrun : returnsIn (applyTransactionEx env tx) (work 21000)
      (fun w' => decide (w'.db.totalCoins ≠ (work 21000).db.totalCoins - 21000)) = true := by
    decide +kernel
  obtain ⟨w', hw', hcoins⟩ := exists_of_returnsIn hrun
  exact ⟨w', hw', of_decide_eq_true hcoins⟩

end Delegation

end StateProcessor

end NeatPoS
