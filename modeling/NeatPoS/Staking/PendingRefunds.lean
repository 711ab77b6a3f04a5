import NeatPoS.Epoch.Orders
import NeatPoS.Staking.Runs

/-!
# Refunds and deposits

When a user takes back a delegation, the part that is deposited becomes a pending refund, and
`unDelegateValidation` makes sure that the pending refunds of a user do not exceed the deposit.
When a candidate leaves, `unRegisterApplyCb` announces the whole deposit of each user, and does not
ask what is pending already.  So a user who takes something back, and whose candidate then leaves in
the same epoch, has more coming than was deposited.

This is the only way.  `pendingRefund_le_deposit` says that no refund exceeds its deposit in any
state that is reached by moves in which candidates only leave when nothing is pending with them, and
`pendingRefund_gt_deposit_of_unRegister` that every other departure breaks the rule at once.
-/

set_option autoImplicit false

namespace NeatPoS

namespace StateDB

variable {rt : Runtime} {bc : ChainView} {tx : StakingTx} {s s' : StateDB}
  {ops : List UpdateNextEpochOp}

/-- No refund is greater than the deposit it is taken from. -/
def Covered (s : StateDB) : Prop :=
  ∀ c u, s.amounts (.pendingRefund c u) ≤ s.amounts (.depositProxied c u)

theorem Covered.of_amounts (h : Covered s)
    (hs : ∀ k : Slot, k.own = false → k.isReward = false → s'.amounts k = s.amounts k) :
    Covered s' := by
  intro c u
  rw [hs _ rfl rfl, hs _ rfl rfl]
  exact h c u

theorem Covered.still (h : Covered s) (hs : Still s s') : Covered s' :=
  h.of_amounts fun k hk _ => hs.amounts k hk

theorem Covered.applyCb (hcov : Covered s) (hs : Sound s)
    (hquit : tx.call = .unRegister → ∀ u, s.amounts (.pendingRefund tx.sender u) = 0)
    (h : applyCb rt bc tx s = .ok (s', ops)) : Covered s' := by
  intro c u
  obtain ⟨-, hchange⟩ := applyCb_change hs h
  cases hchange c with
  | kept hentry =>
    have he := hentry u
    rw [getAccountProxiedBalance, getAccountProxiedBalance, AccountProxiedBalance.mk.injEq] at he
    rw [he.2.1, he.2.2]
    exact hcov c u
  | opened ho => exact (ho u).covered
  | quits hcall hsender _ _ hentry =>
    have he := hentry u
    rw [getAccountProxiedBalance, AccountProxiedBalance.mk.injEq] at he
    have hzero := hquit hcall u
    rw [hsender] at hzero
    rw [he.2.1, he.2.2, hzero, zero_add]

theorem Covered.applyTransactionEx (hcov : Covered s) (hs : Sound s)
    (hquit : tx.call = .unRegister → ∀ u, s.amounts (.pendingRefund tx.sender u) = 0)
    (h : applyTransactionEx rt bc tx s = .ok (s', ops)) : Covered s' := by
  obtain ⟨_, t₀, t, _, hs₀, hcb, ht, hfin, hs'⟩ := applyTransactionEx_steps h
  have hcov₀ : Covered t₀ := by
    refine (hcov.still hs₀).applyCb (hs.still hs₀) (fun hcall u => ?_) hcb
    rw [hs₀.amounts _ rfl]
    exact hquit hcall u
  have hunwritten : Unwritten t := ((hs.still hs₀).applyCb hcb).still ht
  obtain ⟨rfl, -⟩ := finalise_ok hfin
  exact ((hcov₀.still ht).of_amounts fun k _ hk => hunwritten.finalised_amounts hk).still hs'

theorem Covered.enterNewEpoch (hcov : Covered s) (hs : Sound s) (rt : Runtime) (vs : ValidatorSet)
    (votes : Option EpochValidatorVoteSet) : Covered (enterNewEpoch rt vs votes s).1 := by
  intro c u
  have hentry := hs.enterNewEpoch_entry rt vs votes c u
  have hpending : _ = (0 : Int) := hentry.1.pending
  rcases hs.standing c with ho | ho
  · obtain ⟨hp, -, hc⟩ := ho u
    obtain ⟨-, hd⟩ := hentry.1.nonneg hp (Int.sub_nonneg_of_le hc)
    exact hpending.trans_le hd
  · have he := hentry.2 ho.notCandidate
    rw [getAccountProxiedBalance, AccountProxiedBalance.mk.injEq] at he
    rw [he.2.1, he.2.2]
    exact Int.sub_nonneg_of_le (hcov c u)

/-- A candidate that leaves while a refund is pending breaks the rule. -/
theorem pendingRefund_gt_deposit_of_unRegister (hs : Sound s) (hcall : tx.call = .unRegister) {u : Address}
    (hu : 0 < s.amounts (.pendingRefund tx.sender u)) (h : applyCb rt bc tx s = .ok (s', ops)) :
    s'.amounts (.depositProxied tx.sender u) < s'.amounts (.pendingRefund tx.sender u) := by
  rw [NeatPoS.applyCb, hcall] at h
  have he := unRegisterApplyCb_entry hs h u
  rw [getAccountProxiedBalance, AccountProxiedBalance.mk.injEq] at he
  rw [he.2.1, he.2.2]
  omega

end StateDB

namespace Chain

variable {checkConsensusPubKey : Address → Bytes → Bytes → Bool} {rt : Runtime} {c c' : Chain}

/-- A candidate only unregisters when no refund is pending with it. -/
def LeavesSettled (c : Chain) : Action → Prop
  | .tx tx => tx.call = .unRegister →
      ∀ u, (c.db.getAccountProxiedBalance tx.sender u).pendingRefundBalance = 0
  | _ => True

theorem DbStep.covered {a : Action} (hs : c.Sound) (hcov : c.db.Covered) (hok : LeavesSettled c a)
    (h : DbStep checkConsensusPubKey rt c c' a) : c'.db.Covered := by
  cases h with
  | tx _ _ hphase _ h => exact hcov.applyTransactionEx (hs.applying hphase) hok h
  | reward a d x _ _ h =>
    intro cand u
    rw [h, (StateDB.addRewardBalanceByDelegateAddress_posts c.db a d x).apply,
      (StateDB.addRewardBalanceByDelegateAddress_posts c.db a d x).apply]
    simpa [StateDB.rewardPosting] using hcov cand u
  | nextEpoch _ _ h =>
    rw [h]
    exact hcov
  | stay _ _ _ h => exact hcov.still (updateBannedState_still h)
  | enter _ _ votes hphase _ _ hban h =>
    rw [h]
    have hstill := updateBannedState_still hban
    exact (hcov.still hstill).enterNewEpoch ((hs.applying hphase).still hstill) rt _ votes
  | write newValidators hphase _ h =>
    exact hcov.of_amounts fun k _ hk => (hs.finalized newValidators hphase).commit_amounts h hk

/-- **Refunds are covered.**  No pending refund exceeds the deposit it is taken from, in any run
from a genesis file in which candidates leave with nothing pending. -/
theorem pendingRefund_le_deposit (alloc : GenesisAlloc) (epoch : Epoch)
    (voteSet : Option EpochValidatorVoteSet)
    (h : Reaches checkConsensusPubKey LeavesSettled (genesis alloc epoch voteSet) c)
    (candidate user : Address) :
    (c.db.getAccountProxiedBalance candidate user).pendingRefundBalance ≤
      (c.db.getAccountProxiedBalance candidate user).depositProxiedBalance := by
  have hgenesis : (genesis alloc epoch voteSet).db.Covered := fun cand u =>
    (GenesisAlloc.toState_open alloc cand u).covered
  have hinv : c.Sound ∧ c.db.Covered :=
    h.invariant (I := fun c => c.Sound ∧ c.db.Covered) ⟨genesis_sound alloc epoch voteSet, hgenesis⟩
      fun _ _ hI hok hstep => ⟨hstep.sound hI.1, hstep.covered hI.1 hI.2 hok⟩
  exact hinv.2 candidate user

/-! ## A refund that is announced twice -/

/-- Two empty blocks, and then the delegator takes back a part. -/
def takesBack : List Action :=
  [.finalize none, .write, .finalize none, .write, .tx ⟨[2], 0, 0, 21000, 1, .unDelegate [1] 4⟩]

theorem pendingRefund_le_deposit_takesBack :
    ∃ c, Reaches (fun _ _ _ => true) LeavesSettled (genesis twoAccounts firstEpoch none) c ∧
      (c.db.getAccountProxiedBalance [1] [2]).pendingRefundBalance = 4 ∧
      (c.db.getAccountProxiedBalance [1] [2]).pendingRefundBalance ≤
        (c.db.getAccountProxiedBalance [1] [2]).depositProxiedBalance := by
  have hok (c : Chain) (a : Action) (ha : stays a = true) : LeavesSettled c a := by
    cases a <;> simp_all [stays, LeavesSettled]
  obtain ⟨c, hc, hpending⟩ : ∃ c, Reaches (fun _ _ _ => true) LeavesSettled
      (genesis twoAccounts firstEpoch none) c ∧
      (c.db.getAccountProxiedBalance [1] [2]).pendingRefundBalance = 4 :=
    exists_of_runsIf hok .sorted takesBack (by decide +kernel)
  exact ⟨c, hc, hpending, pendingRefund_le_deposit _ _ _ hc [1] [2]⟩

/-- The delegator takes back four of ten, and then the candidate leaves: fourteen are pending. -/
theorem pendingRefund_gt_deposit :
    ∃ c, Reaches (fun _ _ _ => true) (fun _ _ => True) (genesis twoAccounts firstEpoch none) c ∧
      c.db.getAccountProxiedBalance [1] [2] = ⟨0, 10, 14⟩ :=
  exists_of_run .sorted (takesBack ++ [.tx ⟨[1], 0, 0, 21000, 1, .unRegister⟩]) (by decide +kernel)

end Chain

end NeatPoS
