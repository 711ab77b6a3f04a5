import NeatPoS.Staking.Fees
import NeatPoS.Staking.NonNegative

/-!
# The supply of coins, and what is owed

Three results about all runs of the chain, without a condition on the moves.

* `totalCoins_le`: no move makes coins but a reward, so that there are never more of them than the
  genesis file and the rewards account for, less the fees.
* `refunds_settled`: an epoch switch pays every refund that is pending, and leaves none.
* `unregistered_of_overdue`: a candidate that owes a user more than the user has deposited has been
  unregistered, and owes everybody all of it.
-/

set_option autoImplicit false

namespace NeatPoS

open Ledger

namespace StateDB

variable {rt : Runtime} {bc : ChainView} {tx : StakingTx} {s s' : StateDB}
  {ops : List UpdateNextEpochOp}

/-- What `Finalise` destroys is not negative. -/
theorem Kept.finalised_le (h : Kept s) : s.finalised.totalCoins ≤ s.totalCoins := by
  have hreward (a : Address) : 0 ≤ s.amounts (.rewardBalance a) := by
    refine total_nonneg (l := .reward a) (h.law (.reward a) rfl).ge fun k hk => ?_
    cases k <;> simp only [Law.sums, Bool.false_eq_true] at hk
    exact h.reward _ _
  have hstranded : 0 ≤ s.strandedReward := Finset.sum_nonneg fun a _ => hreward a
  rw [finalised_totalCoins]
  omega

/-- A transaction burns its fee. -/
theorem Sound.applyTransactionEx_le (hs : Sound s)
    (h : NeatPoS.applyTransactionEx rt bc tx s = .ok (s', ops)) :
    s'.totalCoins ≤ s.totalCoins - (requiredGas * tx.gasPrice : Nat) := by
  obtain ⟨-, hlimit, t, hcb, hfinish⟩ := applyTransactionEx_ok h
  obtain ⟨-, u, hfin, rfl⟩ := finishTransaction_ok hfinish
  have hkept : Kept (t.addBalance tx.sender ((tx.gasLimit - requiredGas) * tx.gasPrice : Nat)) :=
    (((hs.still (sub_still s rfl _)).applyCb hcb).still (add_still t rfl _)).toKept
  have hle := hkept.finalised_le
  rw [addBalance_totalCoins, applyCb_totalCoins hcb, subBalance_totalCoins] at hle
  obtain ⟨rfl, -⟩ := finalise_ok hfin
  rw [setNonce_totalCoins]
  refine hle.trans_eq ?_
  rw [Nat.sub_mul, Nat.cast_sub (Nat.mul_le_mul_right _ hlimit)]
  ring

end StateDB

/-- The coins that a move adds. -/
def Action.supply : Action → Int
  | .tx t => -(requiredGas * t.gasPrice : Nat)
  | .reward _ _ amount => amount
  | _ => 0

namespace Chain

open StateDB

variable {checkConsensusPubKey : Address → Bytes → Bytes → Bool} {rt : Runtime} {c c' : Chain}

theorem DbStep.coins_le {a : Action} (hs : c.Sound) (h : DbStep checkConsensusPubKey rt c c' a) :
    c'.db.totalCoins ≤ c.db.totalCoins + a.supply := by
  cases h with
  | tx _ _ hphase _ h => exact (hs.applying hphase).applyTransactionEx_le h
  | reward a d x _ _ h =>
    have hreward : weigh Slot.coin (rewardPosting a d (x : Int)) = x := by
      simp [rewardPosting, Slot.coin]
    rw [h, totalCoins, (addRewardBalanceByDelegateAddress_posts c.db a d x).amounts, map_add, hreward]
    exact le_refl _
  | nextEpoch _ _ h =>
    rw [h]
    exact (add_zero _).ge
  | stay _ _ _ h =>
    rw [totalCoins, updateBannedState_amounts h]
    exact (add_zero _).ge
  | enter _ s votes _ _ _ hban h =>
    rw [h, (enterNewEpoch_sameBooks rt c.epoch.validators votes s).totalCoins_eq, totalCoins,
      updateBannedState_amounts hban]
    exact (add_zero _).ge
  | write newValidators hphase _ h =>
    have hunwritten := hs.finalized newValidators hphase
    obtain ⟨t, hfin, ht⟩ := commit_ok h
    rw [ht, totalCoins, (hunwritten.sound hfin).reload_amounts]
    obtain ⟨rfl, -⟩ := finalise_ok hfin
    exact hunwritten.toKept.finalised_le.trans (add_zero _).ge

/-- The moves of a list, one after the other. -/
def exec (checkConsensusPubKey : Address → Bytes → Bytes → Bool) (c : Chain)
    (l : List (Runtime × Action)) : Except ActionError Chain :=
  l.foldlM (fun c x => c.step checkConsensusPubKey x.1 x.2) c

/-- **No coins come from nowhere.**  After any moves there are at most as many as the genesis file
and the rewards account for, less the fees of the transactions. -/
theorem totalCoins_le (alloc : GenesisAlloc) (epoch : Epoch)
    (voteSet : Option EpochValidatorVoteSet) (l : List (Runtime × Action))
    (h : (genesis alloc epoch voteSet).exec checkConsensusPubKey l = .ok c) :
    c.db.totalCoins ≤ alloc.toState.totalCoins + (l.map (·.2.supply)).sum := by
  have hs := genesis_sound alloc epoch voteSet
  change _ ≤ (genesis alloc epoch voteSet).db.totalCoins + _
  generalize genesis alloc epoch voteSet = c₀ at h hs ⊢
  induction l generalizing c₀ with
  | nil =>
    cases h
    simp
  | cons x _ ih =>
    rw [exec, List.foldlM_cons] at h
    cases hstep : c₀.step checkConsensusPubKey x.1 x.2 with
    | error =>
      rw [hstep] at h
      cases h
    | ok c₁ =>
      rw [hstep] at h
      have hle := (step_ok hstep).coins_le hs
      have hrest := ih c₁ h ((step_ok hstep).sound hs)
      rw [List.map_cons, List.sum_cons]
      omega

theorem totalCoins_le_takesBack :
    ∃ c, (genesis twoAccounts firstEpoch none).exec (fun _ _ _ => true)
        (takesBack.map (.sorted, ·)) = .ok c ∧
      c.db.totalCoins ≤ twoAccounts.toState.totalCoins - 21000 := by
  cases h : (genesis twoAccounts firstEpoch none).exec (fun _ _ _ => true)
      (takesBack.map (.sorted, ·)) with
  | error =>
    have hok : ((genesis twoAccounts firstEpoch none).exec (fun _ _ _ => true)
      (takesBack.map (.sorted, ·))).isOk = true := by decide +kernel
    rw [h] at hok
    cases hok
  | ok c => exact ⟨c, rfl, totalCoins_le _ _ _ _ h⟩

/-- **Refunds are settled.**  Whenever the epoch is switched in a run, every pending refund is taken
from the stake it belongs to, and none is left. -/
theorem refunds_settled {ok : Chain → Action → Prop} {alloc : GenesisAlloc} {epoch : Epoch}
    {voteSet : Option EpochValidatorVoteSet} {commit : Option Commit}
    (h : Reaches checkConsensusPubKey ok (genesis alloc epoch voteSet) c)
    (hstep : c.step checkConsensusPubKey rt (.finalize commit) = .ok c')
    (hphase : c'.phase.newValidators.isSome = true) :
    c'.db.delegateRefundSet.addresses = ∅ ∧ ∀ candidate user,
      c'.db.amounts (.pendingRefund candidate user) = 0 ∧
        c'.db.amounts (.proxied candidate user) + c'.db.amounts (.depositProxied candidate user) =
          c.db.amounts (.proxied candidate user) + c.db.amounts (.depositProxied candidate user) -
            c.db.amounts (.pendingRefund candidate user) := by
  cases step_ok hstep with
  | stay _ _ hnone =>
    rw [hnone] at hphase
    cases hphase
  | enter _ s votes happ _ _ hban hdb =>
    have hs := (h.sound.applying happ).still (updateBannedState_still hban)
    rw [hdb]
    refine ⟨?_, fun candidate user => ?_⟩
    · rw [(enterNewEpoch_shifts rt c.epoch.validators votes s).refundSet]
      rfl
    obtain ⟨⟨hsum, hpending, -⟩, -⟩ :=
      hs.enterNewEpoch_entry rt c.epoch.validators votes candidate user
    rw [updateBannedState_amounts hban] at hsum
    simp only [getAccountProxiedBalance] at hsum hpending
    exact ⟨hpending, by omega⟩

/-- The delegator takes back four, and the epoch ends. -/
theorem refunds_settled_takesBack :
    ∃ c c', Reaches (fun _ _ _ => true) (fun _ _ => True) (genesis twoAccounts shortEpoch none) c ∧
      c.step (fun _ _ _ => true) .sorted (.finalize none) = .ok c' ∧
      c.db.amounts (.pendingRefund [1] [2]) = 4 ∧ c'.db.amounts (.pendingRefund [1] [2]) = 0 := by
  obtain ⟨c, hc, hpending, hend⟩ : ∃ c, Reaches (fun _ _ _ => true) (fun _ _ => True)
      (genesis twoAccounts shortEpoch none) c ∧ c.db.amounts (.pendingRefund [1] [2]) = 4 ∧
        (c.step (fun _ _ _ => true) .sorted (.finalize none)).toOption.any
          (·.phase.newValidators.isSome) = true :=
    exists_of_run .sorted Overdrawn.takesBackInTime.dropLast (by decide +kernel)
  cases hstep : c.step (fun _ _ _ => true) .sorted (.finalize none) with
  | error =>
    rw [hstep] at hend
    cases hend
  | ok c' =>
    rw [hstep] at hend
    exact ⟨c, c', hc, hstep, hpending, ((refunds_settled hc hstep hend).2 [1] [2]).1⟩

/-- **Who owes too much.**  If more is pending with a candidate than a user has deposited, then the
candidate has been unregistered; nothing is proxied to it, and all deposits are pending. -/
theorem unregistered_of_overdue {ok : Chain → Action → Prop} {alloc : GenesisAlloc} {epoch : Epoch}
    {voteSet : Option EpochValidatorVoteSet}
    (h : Reaches checkConsensusPubKey ok (genesis alloc epoch voteSet) c) {candidate user : Address}
    (hdue : c.db.amounts (.depositProxied candidate user) <
      c.db.amounts (.pendingRefund candidate user)) :
    c.db.isCandidate candidate = false ∧ ∀ u, c.db.amounts (.proxied candidate u) = 0 ∧
      c.db.amounts (.depositProxied candidate u) ≤ c.db.amounts (.pendingRefund candidate u) := by
  have hstanding : c.db.Open candidate ∨ c.db.Leaving candidate ∨ c.db.Left candidate := by
    cases hphase : c.phase with
    | applying => exact ((h.sound.applying hphase).standing candidate).imp_right .inl
    | finalized newValidators => exact (h.sound.finalized newValidators hphase).standing candidate
  rcases hstanding with ho | ho | ho
  · exact absurd (ho user).covered (Int.not_le.2 hdue)
  · exact ⟨ho.notCandidate, fun u => ⟨(ho.entry u).proxied, (ho.entry u).pending⟩⟩
  · exact ⟨ho.notCandidate, fun u =>
      ⟨(ho.entry u).proxied, (ho.entry u).deposit.trans_eq (ho.entry u).pending.symm⟩⟩

theorem unregistered_of_overdue_leaves :
    ∃ c, Reaches (fun _ _ _ => true) (fun _ _ => True) (genesis twoAccounts firstEpoch none) c ∧
      c.db.isCandidate [1] = false ∧ ∀ u, c.db.amounts (.proxied [1] u) = 0 ∧
        c.db.amounts (.depositProxied [1] u) ≤ c.db.amounts (.pendingRefund [1] u) := by
  obtain ⟨c, hc, hdue⟩ : ∃ c, Reaches (fun _ _ _ => true) (fun _ _ => True)
      (genesis twoAccounts firstEpoch none) c ∧
        c.db.amounts (.depositProxied [1] [2]) < c.db.amounts (.pendingRefund [1] [2]) :=
    exists_of_run .sorted (takesBack ++ [.tx ⟨[1], 0, 0, 21000, 1, .unRegister⟩]) (by decide +kernel)
  exact ⟨c, hc, unregistered_of_overdue hc hdue⟩

end Chain

end NeatPoS
