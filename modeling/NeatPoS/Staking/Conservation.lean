import NeatPoS.Epoch.Orders
import NeatPoS.Staking.Runs

/-!
# Conservation of stake

The coins that are staked are neither made nor lost: the callbacks and the epoch switch move them
between balances, deposits, delegations and rewards, in any state (`applyCb_totalCoins`,
`shouldEnterNewEpoch_totalCoins`).

The state keeps a delegation in several places, and over a whole run these agree.  For the totals of
the candidates this is part of soundness.  `DelegateBalance` is different: the genesis file gives it
for each user, beside the deposits it should be the sum of, and nobody compares the two.  What can
be said is that a difference in the file never changes (`DbStep.weigh_delegate`), so that the books
of a user agree at any time exactly if they agree in the file.
-/

set_option autoImplicit false

namespace NeatPoS

open DFinsupp Ledger StateDB

namespace StateDB

theorem applyCb_totalCoins {rt : Runtime} {bc : ChainView} {tx : StakingTx} {s s' : StateDB}
    {ops : List UpdateNextEpochOp} (h : applyCb rt bc tx s = .ok (s', ops)) :
    s'.totalCoins = s.totalCoins :=
  (applyCb_sameBooks h).totalCoins_eq

theorem shouldEnterNewEpoch_totalCoins (rt : Runtime) (epoch : Epoch)
    (nextEpoch : Option (Option EpochValidatorVoteSet)) (height : Nat) (s : StateDB) :
    (shouldEnterNewEpoch rt epoch nextEpoch height s).1.totalCoins = s.totalCoins := by
  rcases shouldEnterNewEpoch_cases rt epoch nextEpoch height s with ⟨votes, -, -, h⟩ | h | h
  · rw [h]
    dsimp only
    rw [(enterNewEpoch_sameBooks rt epoch.validators votes s).totalCoins_eq]
  · rw [h]
  · rw [h]

theorem weigh_delegate_applyTransactionEx {rt : Runtime} {bc : ChainView} {tx : StakingTx}
    {s s' : StateDB} {ops : List UpdateNextEpochOp} (hs : Sound s)
    (h : applyTransactionEx rt bc tx s = .ok (s', ops)) (u : Address) :
    weigh (Law.delegate u).weight s'.amounts = weigh (Law.delegate u).weight s.amounts := by
  obtain ⟨_, _, t, _, hs₀, hcb, ht, hfin, hs'⟩ := applyTransactionEx_steps h
  have hunwritten : Unwritten t := ((hs.still hs₀).applyCb hcb).still ht
  obtain ⟨rfl, -⟩ := finalise_ok hfin
  rw [hs'.weigh_law, hunwritten.weigh_finalised fun a ha => Law.noConfusion ha, ht.weigh_law,
    (applyCb_sameBooks hcb).law, hs₀.weigh_law]

end StateDB

namespace Chain

variable {checkConsensusPubKey : Address → Bytes → Bytes → Bool} {rt : Runtime} {c c' : Chain}

/-- No move changes how far the books of a user are off. -/
theorem DbStep.weigh_delegate {a : Action} (hs : c.Sound) (h : DbStep checkConsensusPubKey rt c c' a)
    (u : Address) :
    weigh (Law.delegate u).weight c'.db.amounts = weigh (Law.delegate u).weight c.db.amounts := by
  cases h with
  | tx _ _ hphase _ h => exact weigh_delegate_applyTransactionEx (hs.applying hphase) h u
  | reward a d x _ _ h =>
    have hposting : weigh (Law.delegate u).weight (rewardPosting a d (x : Int)) = 0 := by
      simp [rewardPosting, Law.weight, Law.total, Law.sums]
    rw [h, (addRewardBalanceByDelegateAddress_posts c.db a d x).amounts, map_add, hposting, add_zero]
  | nextEpoch _ _ h => rw [h]
  | stay _ _ _ h => exact (updateBannedState_still h).weigh_law _
  | enter _ s votes _ _ _ hban h =>
    rw [h, (enterNewEpoch_sameBooks rt c.epoch.validators votes s).law,
      (updateBannedState_still hban).weigh_law]
  | write newValidators hphase _ h =>
    refine weigh_congr fun k hk => (hs.finalized newValidators hphase).commit_amounts h ?_
    cases k <;> first | rfl | simp [Law.weight, Law.total, Law.sums] at hk

theorem Sound.kept (h : c.Sound) : c.db.Kept := by
  cases hphase : c.phase with
  | applying => exact (h.applying hphase).toKept
  | finalized newValidators => exact (h.finalized newValidators hphase).toKept

/-- The books of a user agree in a run if and only if they agree in the genesis file. -/
theorem Reaches.delegate_iff {alloc : GenesisAlloc} {epoch : Epoch}
    {voteSet : Option EpochValidatorVoteSet} {ok : Chain → Action → Prop}
    (h : Reaches checkConsensusPubKey ok (genesis alloc epoch voteSet) c) (u : Address) :
    c.db.amounts (.delegateBalance u) = c.db.sumOfEntries (.delegate u) ↔ alloc.DelegatesMatch u := by
  have hinv : c.Sound ∧ weigh (Law.delegate u).weight c.db.amounts =
      weigh (Law.delegate u).weight alloc.toState.amounts :=
    h.invariant (I := fun c => c.Sound ∧ weigh (Law.delegate u).weight c.db.amounts =
        weigh (Law.delegate u).weight alloc.toState.amounts)
      ⟨genesis_sound alloc epoch voteSet, rfl⟩
      fun _ _ hI _ hstep => ⟨hstep.sound hI.1, (hstep.weigh_delegate hI.1 u).trans hI.2⟩
  rw [GenesisAlloc.delegatesMatch_iff, ← hinv.2, weigh_law_eq_zero_iff]
  rfl

/-- **Conservation of stake.**  The callbacks and the epoch switch leave the sum of all coins as it
is, in any state.  In any run, each total of a candidate is the sum of the entries of its users, and
so is the `DelegateBalance` of a user whose `DelegateBalance` in the genesis file is the sum of what
is deposited for it there. -/
theorem stake_conserved :
    (∀ (rt : Runtime) (bc : ChainView) (tx : StakingTx) (s s' : StateDB) (ops : List UpdateNextEpochOp),
      applyCb rt bc tx s = .ok (s', ops) → s'.totalCoins = s.totalCoins) ∧
    (∀ (rt : Runtime) (epoch : Epoch) (nextEpoch : Option (Option EpochValidatorVoteSet)) (height : Nat)
      (s : StateDB), (shouldEnterNewEpoch rt epoch nextEpoch height s).1.totalCoins = s.totalCoins) ∧
    ∀ (checkConsensusPubKey : Address → Bytes → Bytes → Bool) (alloc : GenesisAlloc) (epoch : Epoch)
      (voteSet : Option EpochValidatorVoteSet) (c : Chain),
      Reaches checkConsensusPubKey (fun _ _ => True) (genesis alloc epoch voteSet) c →
      (∀ candidate,
        c.db.getTotalProxiedBalance candidate = c.db.sumOfEntries (.proxied candidate) ∧
        c.db.getTotalDepositProxiedBalance candidate = c.db.sumOfEntries (.depositProxied candidate) ∧
        c.db.getTotalPendingRefundBalance candidate = c.db.sumOfEntries (.pendingRefund candidate)) ∧
      ∀ user, alloc.DelegatesMatch user →
        c.db.amounts (.delegateBalance user) = c.db.sumOfEntries (.delegate user) := by
  refine ⟨fun rt bc tx s s' ops h => applyCb_totalCoins h, shouldEnterNewEpoch_totalCoins, ?_⟩
  intro checkConsensusPubKey alloc epoch voteSet c h
  have hkept := h.sound.kept
  refine ⟨fun candidate => ⟨?_, ?_, ?_⟩, fun user => (h.delegate_iff user).2⟩
  · exact eq_sumOfEntries (hkept.law (.proxied candidate) rfl)
  · exact eq_sumOfEntries (hkept.law (.depositProxied candidate) rfl)
  · exact eq_sumOfEntries (hkept.law (.pendingRefund candidate) rfl)

theorem stake_conserved_twoAccounts :
    (∃ s' ops, applyCb .sorted ⟨firstEpoch, 2, none, fun _ _ _ => true⟩
        ⟨[2], 0, 0, 21000, 1, .unDelegate [1] 4⟩ twoAccounts.toState = .ok (s', ops) ∧
      s'.totalCoins = twoAccounts.toState.totalCoins) ∧
    twoAccounts.DelegatesMatch [2] ∧
    (genesis twoAccounts firstEpoch none).db.amounts (.delegateBalance [2]) =
      (genesis twoAccounts firstEpoch none).db.sumOfEntries (.delegate [2]) := by
  obtain ⟨hcb, -, hrun⟩ := stake_conserved
  have hmatch : twoAccounts.DelegatesMatch [2] := by
    rw [GenesisAlloc.DelegatesMatch]
    decide
  have hstart : Reaches (fun _ _ _ => true) (fun _ _ => True) (genesis twoAccounts firstEpoch none)
      (genesis twoAccounts firstEpoch none) := .start
  refine ⟨?_, hmatch, (hrun _ _ _ _ _ hstart).2 [2] hmatch⟩
  have hok : (applyCb .sorted ⟨firstEpoch, 2, none, fun _ _ _ => true⟩
      ⟨[2], 0, 0, 21000, 1, .unDelegate [1] 4⟩ twoAccounts.toState).isOk = true := by
    decide +kernel
  cases h : applyCb .sorted ⟨firstEpoch, 2, none, fun _ _ _ => true⟩
      ⟨[2], 0, 0, 21000, 1, .unDelegate [1] 4⟩ twoAccounts.toState with
  | error e =>
    rw [h] at hok
    cases hok
  | ok r =>
    obtain ⟨s', ops⟩ := r
    exact ⟨s', ops, rfl, hcb _ _ _ _ _ _ h⟩

/-- A file that gives a user a `DelegateBalance` without a deposit. -/
def looseAccount : GenesisAlloc := [([1], ⟨0, 0, false, 0, 5, [], false, 0⟩)]

theorem delegateBalance_ne_sumOfEntries :
    ∃ c, Reaches (fun _ _ _ => true) (fun _ _ => True) (genesis looseAccount firstEpoch none) c ∧
      c.db.amounts (.delegateBalance [1]) ≠ c.db.sumOfEntries (.delegate [1]) := by
  refine ⟨_, .start, fun h => ?_⟩
  have hstart : Reaches (fun _ _ _ => true) (fun _ _ => True) (genesis looseAccount firstEpoch none)
      (genesis looseAccount firstEpoch none) := .start
  have hmatch := (hstart.delegate_iff [1]).1 h
  rw [GenesisAlloc.DelegatesMatch] at hmatch
  revert hmatch
  decide

end Chain

end NeatPoS
