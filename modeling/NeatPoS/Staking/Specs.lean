import NeatPoS.Core.Postings
import NeatPoS.Staking.Callbacks

/-!
# What a callback that succeeds has done

Each callback refuses what it does not like and then changes the state.  The lemmas below take a run
that has succeeded apart: which of the tests it has passed, and which state it has made.  Nothing
after this file looks into the callbacks again.
-/

set_option autoImplicit false

namespace NeatPoS

/-! ## Guards -/

section Guards

variable {α β : Type} {r : β}

@[simp] theorem bind_eq_ok {x : Except TxError α} {f : α → Except TxError β} :
    (x >>= f) = .ok r ↔ ∃ a, x = .ok a ∧ f a = .ok r := by
  cases x with
  | error | ok => simp [bind, Except.bind]

@[simp] theorem refuseIf_eq_ok {b : Bool} {e : TxError} {u : Unit} :
    refuseIf b e = .ok u ↔ b = false := by
  cases b <;> simp [refuseIf]

end Guards

variable {rt : Runtime} {bc : ChainView} {tx : StakingTx} {s s' : StateDB}
  {ops : List UpdateNextEpochOp}

/-! ## The callbacks -/

namespace StateDB

/-- A delegation, as `registerApplyCb` and `delegateApplyCb` make it. -/
def delegated (s : StateDB) (candidate user : Address) (amount : Int) : StateDB :=
  ((s.subBalance user amount).addDelegateBalance user amount)
    |>.addProxiedBalanceByUser candidate user amount

/-- A candidate is registered, with a delegation to itself. -/
def enrolled (s : StateDB) (addr : Address) (pubkey : Bytes) (commission : Nat) (amount : Int) :
    StateDB :=
  ((s.getCandidateSet.delegated addr addr amount).applyForCandidate addr pubkey commission)
    |>.markAddressCandidate addr

/-- A candidate is cancelled and taken from the set. -/
def dismissed (s : StateDB) (addr : Address) (allRefund : Bool) : StateDB :=
  ((s.cancelCandidate addr allRefund).getCandidateSet.clearCandidateSetByAddress addr).getCandidateSet

/-- The refund of a proxied amount. -/
def released (s : StateDB) (candidate user : Address) (amount : Int) : StateDB :=
  ((s.subProxiedBalanceByUser candidate user amount).subDelegateBalance user amount)
    |>.addBalance user amount

/-- A refund is announced for the end of the epoch. -/
def announced (s : StateDB) (candidate user : Address) (amount : Int) : StateDB :=
  (s.addPendingRefundBalanceByUser candidate user amount).markDelegateAddressRefund candidate

theorem releaseUser_eq (c : Address) (s : StateDB) (u : Address) (apb : AccountProxiedBalance) :
    releaseUser c s u apb =
      if 0 < apb.depositProxiedBalance then
        (s.released c u apb.proxiedBalance).announced c u apb.depositProxiedBalance
      else s.released c u apb.proxiedBalance :=
  rfl

end StateDB

theorem updateNextEpochValidatorVoteSet_ok {c : Address}
    (h : updateNextEpochValidatorVoteSet rt bc s c = .ok (s', ops)) :
    0 ≤ s.netProxied c ∧
      ((s.isCandidate c = true ∧ s' = s.forEachProxied rt.trieOrder c (StateDB.moveToDeposit c) ∧
          (s'.accounts c).pubkey.length = 128 ∧
          ops = [⟨c, (s'.accounts c).pubkey, s.netProxied c⟩]) ∨
        (s' = s ∧ ops = [])) := by
  simp only [updateNextEpochValidatorVoteSet, bind_eq_ok, refuseIf_eq_ok] at h
  obtain ⟨_, hnet, h⟩ := h
  refine ⟨by simpa using hnet, ?_⟩
  split at h
  · rename_i hc
    simp only [bind_eq_ok, refuseIf_eq_ok] at h
    obtain ⟨_, hlen, h⟩ := h
    cases h
    exact .inl ⟨(Bool.and_eq_true_iff.1 hc).2, rfl, by simpa using hlen, rfl⟩
  · cases h
    exact .inr ⟨rfl, rfl⟩

theorem registerApplyCb_ok {pubkey signature : Bytes} {commission : Nat}
    (h : registerApplyCb rt bc tx pubkey signature commission s = .ok (s', ops)) :
    s.isCleanAddress tx.sender = true ∧ minimumRegisterAmount ≤ tx.value ∧
      bc.epoch.isSupernode tx.sender = false ∧ updateValidation bc = .ok () ∧
      updateNextEpochValidatorVoteSet rt bc
        (s.enrolled tx.sender (blsPubKey pubkey) commission tx.value) tx.sender = .ok (s', ops) := by
  simp only [registerApplyCb, registerValidation, bind_eq_ok, refuseIf_eq_ok] at h
  obtain ⟨t, ⟨_, -, _, hclean, _, hvalue, _, -, _, -, _, hsuper, ht⟩, _, hheight, h⟩ := h
  cases ht
  have hclean : s.getCandidateSet.isCleanAddress tx.sender = true := by simpa using hclean
  exact ⟨hclean, Nat.not_lt.1 (of_decide_eq_false hvalue), hsuper, hheight, h⟩

theorem unRegisterApplyCb_ok (h : unRegisterApplyCb rt bc tx s = .ok (s', ops)) :
    s.isCandidate tx.sender = true ∧ (s.accounts tx.sender).isBanned = false ∧
      bc.epoch.isSupernode tx.sender = false ∧ ops = [] ∧
      ∃ allRefund : Bool,
        s' = ((s.getOrNewStateObject tx.sender).forEachProxied rt.trieOrder tx.sender
          (StateDB.releaseUser tx.sender)).dismissed tx.sender allRefund := by
  simp only [unRegisterApplyCb, unRegisterValidation, StateDB.getBanned, bind_eq_ok,
    refuseIf_eq_ok] at h
  obtain ⟨t, ⟨_, hcand, _, hbanned, _, hsuper, ht⟩, h⟩ := h
  cases ht
  cases h
  exact ⟨by simpa using hcand, hbanned, hsuper, rfl, _, rfl⟩

theorem delegateApplyCb_ok {c : Address} (h : delegateApplyCb rt bc tx c s = .ok (s', ops)) :
    s.isCandidate c = true ∧ updateValidation bc = .ok () ∧
      ((s' = (s.delegated c tx.sender tx.value).getOrNewStateObject tx.sender ∧ ops = []) ∨
        updateNextEpochValidatorVoteSet rt bc
          ((s.delegated c tx.sender tx.value).getOrNewStateObject tx.sender) c = .ok (s', ops)) := by
  simp only [delegateApplyCb, delegateValidation, bind_eq_ok, refuseIf_eq_ok] at h
  obtain ⟨_, ⟨_, hcand, _⟩, _, hheight, h⟩ := h
  refine ⟨by simpa using hcand, hheight, ?_⟩
  split at h
  · cases h
    exact .inl ⟨rfl, rfl⟩
  · exact .inr h

theorem unDelegateApplyCb_ok {c : Address} {amount : Nat}
    (h : unDelegateApplyCb bc tx c amount s = .ok (s', ops)) :
    tx.sender ≠ c ∧ updateValidation bc = .ok () ∧ ops = [] ∧
      (amount : Int) ≤ s.amounts (.proxied c tx.sender) +
        (s.amounts (.depositProxied c tx.sender) - s.amounts (.pendingRefund c tx.sender)) ∧
      s' = if (amount : Int) ≤ s.amounts (.proxied c tx.sender) then s.released c tx.sender amount
        else (s.announced c tx.sender (amount - s.amounts (.proxied c tx.sender))).released c
          tx.sender (s.amounts (.proxied c tx.sender)) := by
  simp only [unDelegateApplyCb, unDelegateValidation, bind_eq_ok, refuseIf_eq_ok] at h
  obtain ⟨_, ⟨_, hself, _, -, hamount⟩, _, hheight, h⟩ := h
  refine ⟨by simpa using hself, hheight, ?_⟩
  have hle : (amount : Int) ≤ s.amounts (.proxied c tx.sender) +
      (s.amounts (.depositProxied c tx.sender) - s.amounts (.pendingRefund c tx.sender)) :=
    Int.not_lt.1 (of_decide_eq_false hamount)
  by_cases hp : (amount : Int) ≤ s.amounts (.proxied c tx.sender)
  · rw [if_pos (show (amount : Int) ≤ (s.getAccountProxiedBalance c tx.sender).proxiedBalance from hp)]
      at h
    cases h
    rw [if_pos hp]
    exact ⟨rfl, hle, rfl⟩
  · rw [if_neg (show ¬ (amount : Int) ≤ (s.getAccountProxiedBalance c tx.sender).proxiedBalance from
      hp)] at h
    cases h
    rw [if_neg hp]
    exact ⟨rfl, hle, rfl⟩

theorem withdrawRewardApplyCb_ok {d : Address} (h : withdrawRewardApplyCb tx d s = .ok (s', ops)) :
    1 ≤ s.amounts (.reward tx.sender d) ∧ ops = [] ∧
      s' = (s.subRewardBalanceByDelegateAddress tx.sender d
        (s.amounts (.reward tx.sender d))).addBalance tx.sender (s.amounts (.reward tx.sender d)) := by
  simp only [withdrawRewardApplyCb, bind_eq_ok, refuseIf_eq_ok] at h
  obtain ⟨_, hreward, h⟩ := h
  cases h
  exact ⟨Int.not_lt.1 (of_decide_eq_false hreward), rfl, rfl⟩

theorem setCommissionApplyCb_ok {commission : Nat}
    (h : setCommissionApplyCb tx commission s = .ok (s', ops)) :
    s.isCandidate tx.sender = true ∧ ops = [] ∧
      s' = s.setAccount tx.sender fun acc => { acc with commission } := by
  simp only [setCommissionApplyCb, bind_eq_ok, refuseIf_eq_ok] at h
  obtain ⟨_, hcand, _, -, h⟩ := h
  cases h
  exact ⟨by simpa using hcand, rfl, rfl⟩

theorem unBannedApplyCb_ok (h : unBannedApplyCb bc tx s = .ok (s', ops)) :
    s.isCandidate tx.sender = true ∧ updateValidation bc = .ok () ∧ ops = [] ∧
      s' = ((((s.getOrNewStateObject tx.sender).getOrNewStateObject tx.sender).setBanned tx.sender
        false).clearBannedSetByAddress tx.sender) := by
  simp only [unBannedApplyCb, StateDB.getBanned, StateDB.getBannedTime, bind_eq_ok,
    refuseIf_eq_ok] at h
  obtain ⟨_, hcand, _, hheight, _, -, _, -, h⟩ := h
  cases h
  exact ⟨by simpa using hcand, hheight, rfl, rfl⟩

/-! ## The transaction -/

theorem finishTransaction_ok {ops' : List UpdateNextEpochOp}
    (h : finishTransaction tx s ops = .ok (s', ops')) :
    ops' = ops ∧
      ∃ t, (s.addBalance tx.sender ((tx.gasLimit - requiredGas) * tx.gasPrice : Nat)).finalise = .ok t ∧
        s' = t.setNonce tx.sender ((t.accounts tx.sender).nonce + 1) := by
  rw [finishTransaction] at h
  split at h
  · cases h
  · rename_i t hfin
    cases h
    exact ⟨rfl, t, hfin, rfl⟩

theorem applyTransactionEx_ok (h : applyTransactionEx rt bc tx s = .ok (s', ops)) :
    ((tx.gasLimit * tx.gasPrice : Nat) : Int) + tx.value ≤ s.getBalance tx.sender ∧
      requiredGas ≤ tx.gasLimit ∧
      ∃ t, applyCb rt bc tx (s.subBalance tx.sender (tx.gasLimit * tx.gasPrice : Nat)) =
          .ok (t, ops) ∧ finishTransaction tx t ops = .ok (s', ops) := by
  simp only [applyTransactionEx, bind_eq_ok, refuseIf_eq_ok] at h
  obtain ⟨_, -, _, -, _, -, _, hlimit, _, hvalue, ⟨t, o⟩, hcb, h⟩ := h
  have hbalance := (StateDB.sub_posts s (.balance tx.sender) (tx.gasLimit * tx.gasPrice : Nat)).apply
    (.balance tx.sender)
  rw [DFinsupp.single_eq_same] at hbalance
  have hv := Int.not_lt.1 (of_decide_eq_false hvalue)
  rw [StateDB.getBalance, StateDB.subBalance, hbalance] at hv
  obtain ⟨rfl, -⟩ := finishTransaction_ok h
  refine ⟨?_, Nat.not_lt.1 (of_decide_eq_false hlimit), t, hcb, h⟩
  rw [StateDB.getBalance]
  omega

end NeatPoS
