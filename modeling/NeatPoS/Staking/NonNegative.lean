import NeatPoS.Staking.Conservation
import NeatPoS.Staking.OwnDeposits
import NeatPoS.Staking.PendingRefunds

/-!
# No amount is negative

The amounts of a state are big integers, and every function subtracts without looking.  That nothing
is overdrawn depends on the callers:

* a transaction is only applied if its sender can pay for the gas and the value, and no callback
  takes more than the value from anybody;
* the entries of a candidate are covered, and their totals agree with them;
* the `DelegateBalance` of a user is at least what the user has delegated, if it is so in the
  genesis file;
* a refund of Step 4 of the epoch switch is not greater than the deposit it is taken from.

The last point nobody takes care of.  The refund is the power of a validator less its vote, and the
power counts the coins that others have delegated, which a vote need not do.  `Payable` says what a
switch needs, and `amounts_nonneg` that nothing else can go wrong.
-/

set_option autoImplicit false

namespace NeatPoS

open DFinsupp Ledger

variable {votes : Option EpochValidatorVoteSet} {a : Action}

/-- The genesis file gives each user a `DelegateBalance` of at least what is deposited for it. -/
def GenesisAlloc.DelegatesCover (alloc : GenesisAlloc) (user : Address) : Prop :=
  (((alloc.flatMap (·.2.depositProxiedDetail)).filter (·.1 = user)).map (·.2)).sum ≤
    ((alloc.filter (·.1 = user)).map (·.2.delegateBalance)).sum

namespace StateDB

variable {rt : Runtime} {bc : ChainView} {tx : StakingTx} {s s' s'' : StateDB}
  {ops : List UpdateNextEpochOp}

/-! ## What a callback takes -/

/-- No own amount of an address gets less, except that the balance of one address may lose so
much. -/
def Spends (payer : Address) (x : Int) (s s' : StateDB) : Prop :=
  ∀ k : Slot, k.own = true → s.amounts k - (if k = .balance payer then x else 0) ≤ s'.amounts k

namespace Spends

variable {payer : Address} {x y : Int}

theorem refl (payer : Address) (s : StateDB) : Spends payer 0 s s := by
  intro k _
  simp

theorem of_amounts (payer : Address) (h : ∀ k : Slot, k.own = true → s'.amounts k = s.amounts k) :
    Spends payer 0 s s' := by
  intro k hk
  simp [h k hk]

theorem trans (h : Spends payer x s s') (h' : Spends payer y s' s'') :
    Spends payer (x + y) s s'' := by
  intro k hk
  have h₁ := h k hk
  have h₂ := h' k hk
  split at h₁ <;> split at h₂ <;> split <;> first | omega | contradiction

theorem trans_zero (h : Spends payer x s s') (h' : Spends payer 0 s' s'') :
    Spends payer x s s'' := by
  have := h.trans h'
  rwa [add_zero] at this

theorem zero_trans (h : Spends payer 0 s s') (h' : Spends payer x s' s'') :
    Spends payer x s s'' := by
  have := h.trans h'
  rwa [zero_add] at this

theorem mono (h : Spends payer x s s') (hxy : x ≤ y) : Spends payer y s s' := by
  intro k hk
  have := h k hk
  split at this <;> split <;> first | omega | contradiction

theorem of_posts {Δ : Posting} (h : Posts s s' Δ)
    (hΔ : ∀ k : Slot, k.own = true → -(if k = .balance payer then x else 0) ≤ Δ k) :
    Spends payer x s s' := by
  intro k hk
  have := hΔ k hk
  rw [h.apply]
  omega

theorem of_posts_zero (h : Posts s s' 0) : Spends payer 0 s s' :=
  of_posts h fun k _ => by simp

end Spends

theorem delegated_spends (s : StateDB) (c u : Address) (x : Int) :
    Spends u x s (s.delegated c u x) := by
  refine Spends.of_posts (delegated_posts s c u x) fun k hk => ?_
  cases k <;> simp [Slot.own, proxiedPosting, single_apply] at hk ⊢
  split <;> split <;> simp_all

variable (payer : Address)

theorem released_spends (s : StateDB) (c u : Address) {x : Int} (hx : 0 ≤ x) :
    Spends payer 0 s (s.released c u x) := by
  refine Spends.of_posts (released_posts s c u x) fun k hk => ?_
  cases k <;> simp [Slot.own, proxiedPosting, single_apply] at hk ⊢
  split <;> omega

theorem announced_spends (s : StateDB) (c u : Address) (x : Int) :
    Spends payer 0 s (s.announced c u x) := by
  refine Spends.of_posts (announced_posts s c u x) fun k hk => ?_
  cases k <;> simp [Slot.own, pendingPosting] at hk ⊢

/-- What is posted when a user gets back what is proxied, and the deposit is announced. -/
def releasePosting (c u : Address) (apb : AccountProxiedBalance) : Posting :=
  proxiedPosting c u (-apb.proxiedBalance) + single (.delegateBalance u) (-apb.proxiedBalance) +
    single (.balance u) apb.proxiedBalance +
    if 0 < apb.depositProxiedBalance then pendingPosting c u apb.depositProxiedBalance else 0

theorem releaseUser_posts (s : StateDB) (c u : Address) (apb : AccountProxiedBalance) :
    Posts s (releaseUser c s u apb) (releasePosting c u apb) := by
  have hrelease := released_posts s c u apb.proxiedBalance
  rw [releaseUser_eq, releasePosting]
  split
  · exact hrelease.trans (announced_posts _ c u _)
  · rw [add_zero]
    exact hrelease

theorem releasePosting_local (c u : Address) (apb : AccountProxiedBalance) :
    LocalTo c u (releasePosting c u apb) := by
  intro v hv
  rw [releasePosting]
  split <;> simp [proxiedPosting, pendingPosting, single_apply, Ne.symm hv]

theorem releaseUsers_spends (s : StateDB) (it : Iteration Address) (c : Address)
    (hs : ∀ u, 0 ≤ s.amounts (.proxied c u)) :
    Spends payer 0 s (s.forEachProxied it c (releaseUser c)) := by
  have hposts := s.forEachProxied_posts it c (fun t u => releaseUser_posts t c u _)
    (releasePosting_local c)
  refine Spends.of_posts hposts fun k hk => ?_
  rw [ite_self, neg_zero, DFinsupp.finsetSum_apply]
  refine Finset.sum_nonneg fun u _ => ?_
  have hp : 0 ≤ (s.getAccountProxiedBalance c u).proxiedBalance := hs u
  rw [releasePosting]
  cases k <;> simp only [Slot.own, Bool.false_eq_true] at hk <;> split <;>
    simp [proxiedPosting, pendingPosting, single_apply] <;> split <;> omega

theorem moveToDeposit_spends (s : StateDB) (c u : Address)
    (apb : AccountProxiedBalance) : Spends payer 0 s (moveToDeposit c s u apb) := by
  refine Spends.of_posts (moveToDeposit_posts s c u apb) fun k hk => ?_
  cases k <;> simp [Slot.own, proxiedPosting, depositPosting] at hk ⊢

theorem updateNextEpochValidatorVoteSet_spends {c : Address}
    (h : updateNextEpochValidatorVoteSet rt bc s c = .ok (s', ops)) : Spends payer 0 s s' := by
  obtain ⟨-, ⟨-, rfl, -⟩ | ⟨rfl, -⟩⟩ := updateNextEpochValidatorVoteSet_ok h
  · clear h
    rw [forEachProxied]
    generalize rt.trieOrder.list (s.proxiedTrie c) = l
    induction l generalizing s with
    | nil => exact Spends.refl payer s
    | cons u _ ih => exact (moveToDeposit_spends payer s c u _).trans_zero ih
  · exact Spends.refl payer _

theorem Sound.proxied_nonneg (h : Sound s) (c u : Address) : 0 ≤ s.amounts (.proxied c u) := by
  rcases h.standing c with hc | hc
  · exact (hc u).proxied
  · exact (hc.entry u).proxied.ge

/-- **A callback takes no more than the value of the transaction**, and only from the sender. -/
theorem Sound.applyCb_spends (hs : Sound s) (h : NeatPoS.applyCb rt bc tx s = .ok (s', ops)) :
    Spends tx.sender tx.value s s' := by
  have hvalue : (0 : Int) ≤ tx.value := Int.natCast_nonneg _
  have hsame {t t' : StateDB} (ha : t'.amounts = t.amounts) : Spends tx.sender 0 t t' :=
    Spends.of_amounts _ fun k _ => by rw [ha]
  rw [NeatPoS.applyCb] at h
  split at h
  · rename_i pubkey signature commission _
    obtain ⟨-, -, -, -, hupdate⟩ := registerApplyCb_ok h
    have hdelegated := delegated_spends s.getCandidateSet tx.sender tx.sender tx.value
    have henrolled : Spends tx.sender 0 (s.getCandidateSet.delegated tx.sender tx.sender tx.value)
        (s.enrolled tx.sender (blsPubKey pubkey) commission tx.value) :=
      hsame (enrolled_amounts s _ _ _ _)
    exact (((hsame rfl).zero_trans hdelegated).trans_zero henrolled).trans_zero
      (updateNextEpochValidatorVoteSet_spends _ hupdate)
  · obtain ⟨-, -, -, -, allRefund, rfl⟩ := unRegisterApplyCb_ok h
    have hnew : Posts s (s.getOrNewStateObject tx.sender) 0 := getOrNewStateObject_posts s tx.sender
    have hrelease := releaseUsers_spends tx.sender (s.getOrNewStateObject tx.sender) rt.trieOrder
      tx.sender fun u => by
        rw [getOrNewStateObject_amounts]
        exact hs.proxied_nonneg _ _
    exact Spends.mono (((Spends.of_posts_zero hnew).trans_zero hrelease).trans_zero
      (hsame (dismissed_amounts _ _ _))) hvalue
  · obtain ⟨-, -, ⟨rfl, -⟩ | hupdate⟩ := delegateApplyCb_ok h
    · exact (delegated_spends s _ _ _).trans_zero (hsame (getOrNewStateObject_amounts _ _))
    · exact ((delegated_spends s _ _ _).trans_zero
        (hsame (getOrNewStateObject_amounts _ _))).trans_zero
        (updateNextEpochValidatorVoteSet_spends _ hupdate)
  · obtain ⟨-, -, -, -, rfl⟩ := unDelegateApplyCb_ok h
    refine Spends.mono ?_ hvalue
    split
    · exact released_spends _ s _ _ (Int.natCast_nonneg _)
    · exact (announced_spends _ s _ _ _).trans_zero
        (released_spends _ _ _ _ (hs.proxied_nonneg _ _))
  · obtain ⟨hreward, -, rfl⟩ := withdrawRewardApplyCb_ok h
    refine Spends.mono (Spends.of_posts (x := 0)
      ((subRewardBalanceByDelegateAddress_posts s _ _ _).trans
      (add_posts _ (.balance tx.sender) _)) fun k hk => ?_) hvalue
    cases k <;> simp [Slot.own, rewardPosting, single_apply] at hk ⊢
    split <;> omega
  · obtain ⟨-, -, rfl⟩ := setCommissionApplyCb_ok h
    exact Spends.mono (hsame (setAccount_amounts _ _ _)) hvalue
  · obtain ⟨-, -, -, rfl⟩ := unBannedApplyCb_ok h
    refine Spends.mono (hsame ?_) hvalue
    show (setBanned _ tx.sender false).amounts = s.amounts
    simp [setBanned]

/-! ## Amounts that are not negative -/

/-- Nothing is overdrawn: neither own amounts, nor deposits by refunds, nor `DelegateBalance` by
delegations. -/
structure Solvent (s : StateDB) : Prop where
  own : ∀ k : Slot, k.own = true → 0 ≤ s.amounts k
  covered : Covered s
  delegate : ∀ u, 0 ≤ weigh (Law.delegate u).weight s.amounts

/-- A total of entries that are not negative. -/
theorem total_nonneg {l : Law} (hlaw : 0 ≤ weigh l.weight s.amounts)
    (h : ∀ k, l.sums k = true → 0 ≤ s.amounts k) : 0 ≤ s.amounts l.total := by
  have hsum : 0 ≤ s.sumOfEntries l := weigh_nonneg (entry_nonneg h)
  rw [weigh_law] at hlaw
  omega

/-- **In a solvent state no amount is negative.** -/
theorem Unwritten.nonneg (hs : Unwritten s) (h : Solvent s) (k : Slot) : 0 ≤ s.amounts k := by
  have hentry (c u : Address) : 0 ≤ s.amounts (.proxied c u) ∧ 0 ≤ s.amounts (.depositProxied c u) ∧
      0 ≤ s.amounts (.pendingRefund c u) := by
    have hcov := h.covered c u
    rcases hs.standing c with hc | hc | hc
    · exact ⟨(hc u).proxied, (hc u).pending.trans (hc u).covered, (hc u).pending⟩
    · exact ⟨(hc.entry u).proxied.ge, (hc.entry u).deposit,
        (hc.entry u).deposit.trans (hc.entry u).pending⟩
    · have hpending : s.amounts (.pendingRefund c u) = 0 := (hc.entry u).pending
      exact ⟨(hc.entry u).proxied.ge, hpending.symm.trans_le hcov, hpending.ge⟩
  have htotal (l : Law) : 0 ≤ s.amounts l.total := by
    refine total_nonneg ?_ fun k hk => ?_
    · cases hl : l.isDelegate with
      | false => exact (hs.law l hl).ge
      | true =>
        cases l <;> simp only [Law.isDelegate, Bool.false_eq_true] at hl
        exact h.delegate _
    · cases k <;> cases l <;> simp only [Law.sums, Bool.false_eq_true] at hk <;>
        first | exact (hentry _ _).1 | exact (hentry _ _).2.1 | exact (hentry _ _).2.2 |
          exact hs.reward _ _
  cases k with
  | balance | depositBalance | availableRewardBalance => exact h.own _ rfl
  | delegateBalance a => exact htotal (.delegate a)
  | proxiedBalance a => exact htotal (.proxied a)
  | depositProxiedBalance a => exact htotal (.depositProxied a)
  | pendingRefundBalance a => exact htotal (.pendingRefund a)
  | rewardBalance a => exact htotal (.reward a)
  | proxied c u => exact (hentry c u).1
  | depositProxied c u => exact (hentry c u).2.1
  | pendingRefund c u => exact (hentry c u).2.2
  | reward a d => exact hs.reward a d

/-! ## A transaction -/

theorem sub_spends (s : StateDB) (a : Address) (x : Int) : Spends a x s (s.subBalance a x) := by
  refine Spends.of_posts (sub_posts s (.balance a) x) fun k _ => ?_
  by_cases hk : k = .balance a
  · rw [if_pos hk, hk, single_eq_same]
  · rw [if_neg hk, single_eq_of_ne hk, neg_zero]

theorem add_spends (s : StateDB) (a : Address) {x : Int} (hx : 0 ≤ x) :
    Spends payer 0 s (s.addBalance a x) := by
  refine Spends.of_posts (add_posts s (.balance a) x) fun k _ => ?_
  rw [single_apply, ite_self]
  split <;> simp [hx]

theorem Solvent.applyTransactionEx (hsolvent : Solvent s) (hs : Sound s)
    (hquit : tx.call = .unRegister → ∀ u, s.amounts (.pendingRefund tx.sender u) = 0)
    (h : applyTransactionEx rt bc tx s = .ok (s', ops)) : Solvent s' := by
  refine ⟨fun k hk => ?_, hsolvent.covered.applyTransactionEx hs hquit h, fun u => ?_⟩
  · obtain ⟨hfunds, -, t, hcb, hfinish⟩ := applyTransactionEx_ok h
    obtain ⟨-, _, hfin, rfl⟩ := finishTransaction_ok hfinish
    have hs₀ : Sound (s.subBalance tx.sender (tx.gasLimit * tx.gasPrice : Nat)) :=
      hs.still (sub_still s rfl _)
    have hspends : Spends tx.sender ((tx.gasLimit * tx.gasPrice : Nat) + tx.value) s
        (t.addBalance tx.sender ((tx.gasLimit - requiredGas) * tx.gasPrice : Nat)) :=
      ((sub_spends s tx.sender _).trans (hs₀.applyCb_spends hcb)).trans_zero
        (add_spends _ _ _ (Int.natCast_nonneg _))
    have hunwritten :
        Unwritten (t.addBalance tx.sender ((tx.gasLimit - requiredGas) * tx.gasPrice : Nat)) :=
      (hs₀.applyCb hcb).still (add_still t rfl _)
    obtain ⟨rfl, -⟩ := finalise_ok hfin
    have hreward : k.isReward = false := by
      cases k <;> simp [Slot.own, Slot.isReward] at hk ⊢
    have hown := hsolvent.own k hk
    have hleft := hspends k hk
    rw [← hunwritten.finalised_amounts hreward] at hleft
    rw [(setNonce_posts _ tx.sender _).apply, DFinsupp.zero_apply, add_zero]
    split at hleft
    · rename_i hbalance
      subst hbalance
      rw [getBalance] at hfunds
      exact le_trans (by omega) hleft
    · exact le_trans (by omega) hleft
  · rw [weigh_delegate_applyTransactionEx hs h]
    exact hsolvent.delegate u

/-! ## The epoch switch -/

/-- **What a switch needs**: whoever remains in the set and has voted has deposited what the vote is
short of its power.  For a validator with the power of its stake this is to say that its vote counts
all that is delegated to it. -/
def Payable (s : StateDB) (vs : List Validator) (votes : Option EpochValidatorVoteSet) : Prop :=
  ∀ a p x key, s.Remains vs a p → vote votes a = some (x, key) →
    p - x ≤ s.getDepositBalance a ∧ (x = 0 → 0 ≤ p)

theorem Payable.deposit {vs : ValidatorSet}
    (hpay : s.Payable vs.validators votes) (hvs : (vs.validators.map (·.address)).Nodup)
    {a : Address}
    (ha : 0 ≤ s.getDepositBalance a) (rt : Runtime) :
    0 ≤ (enterNewEpoch rt vs votes s).1.getDepositBalance a ∧
      (enterNewEpoch rt vs votes s).1.getDepositBalance a ≤ s.getDepositBalance a := by
  rw [enterNewEpoch_deposit rt votes s hvs]
  split
  · exact ⟨le_refl 0, ha⟩
  by_cases hremains : ∃ p, s.Remains vs.validators a p
  · obtain ⟨p, hp⟩ := hremains
    have hloop : a ∉ (afterLoop vs s).refunds.map (·.address) := by
      intro hmem
      obtain ⟨r, hr, rfl⟩ := List.mem_map.1 hmem
      exact (mem_afterLoop_refunds s hvs hr).2.not_remains hvs p hp
    rw [if_neg hloop]
    cases hvote : vote votes a with
    | none =>
      rw [refundOf_of_vote_eq_none hvs hp hvote]
      omega
    | some v =>
      obtain ⟨x, key⟩ := v
      obtain ⟨hle, hzero⟩ := hpay a p x key hp hvote
      rw [refundOf_of_remains hvs hp hvote]
      split
      · rename_i hx
        have := hzero hx
        omega
      · split <;> omega
  · rw [refundOf_of_not_remains hvs (not_exists.1 hremains)]
    split <;> omega

theorem refunded_balance_le (s : StateDB) (a : Address) :
    s.getBalance a ≤ s.refunded.getBalance a := by
  rw [getBalance, getBalance, refunded_amounts]
  refine le_add_of_nonneg_right (Finset.sum_nonneg fun c _ => Finset.sum_nonneg fun u _ => ?_)
  rw [refundCharge]
  split
  · simp only [depositPosting, pendingPosting, DFinsupp.add_apply, single_apply]
    simp
    split <;> omega
  · exact le_refl 0

theorem Solvent.enterNewEpoch (hsolvent : Solvent s) (hs : Sound s) {vs : ValidatorSet}
    (hvs : (vs.validators.map (·.address)).Nodup)
    (hpay : s.Payable vs.validators votes) (rt : Runtime) :
    Solvent (enterNewEpoch rt vs votes s).1 := by
  refine ⟨fun k hk => ?_, hsolvent.covered.enterNewEpoch hs rt vs votes, fun u => ?_⟩
  · have hdeposit (a : Address) := hpay.deposit hvs (hsolvent.own (.depositBalance a) rfl) rt
    cases k <;> simp only [Slot.own, Bool.false_eq_true] at hk
    · rename_i a
      have hown := (enterNewEpoch_shifts rt vs votes s).own a
      have hbalance := hsolvent.own (.balance a) rfl
      have hrefunded := refunded_balance_le s a
      have hle := (hdeposit a).2
      rw [refundDelegates_eq, refunded_getDepositBalance] at hown
      simp only [getBalance] at hown hrefunded
      omega
    · exact (hdeposit _).1
    · rename_i a
      rw [enterNewEpoch_availableReward rt votes s hvs]
      exact hsolvent.own _ rfl
  · rw [(enterNewEpoch_sameBooks rt vs votes s).law]
    exact hsolvent.delegate u

/-! ## What the switch reads of a state -/

section Congr

variable (h : Posts s s' 0) (hset : s'.delegateRefundSet = s.delegateRefundSet)
include h hset

theorem dueRefunds_congr (a : Address) : s'.dueRefunds a = s.dueRefunds a := by
  rw [dueRefunds, dueRefunds, hset, h.proxiedTrie, h.amounts, add_zero]

theorem leaves_congr : s'.leaves = s.leaves := by
  funext v
  rw [leaves, leaves, h.isBanned, h.stake, dueRefunds_congr h hset]

theorem remains_congr (vs : List Validator) (a : Address) (p : Int) :
    s'.Remains vs a p ↔ s.Remains vs a p := by
  constructor
  · intro hr
    cases hr with
    | passed hv => exact .passed (leaves_congr h hset ▸ hv)
    | staked hv hvisited hstays =>
      rw [h.stake, dueRefunds_congr h hset]
      rw [leaves_congr h hset] at hvisited hstays
      exact .staked hv hvisited hstays
  · intro hr
    cases hr with
    | passed hv => exact .passed ((leaves_congr h hset).symm ▸ hv)
    | staked hv hvisited hstays =>
      rw [← h.stake, ← dueRefunds_congr h hset]
      rw [← leaves_congr h hset] at hvisited hstays
      exact .staked hv hvisited hstays

theorem Payable.congr {vs : List Validator} (hpay : s.Payable vs votes) : s'.Payable vs votes := by
  intro a p x key hr hvote
  have hdeposit : s'.getDepositBalance a = s.getDepositBalance a :=
    (Holds.of_posts_zero h).getDepositBalance a
  rw [hdeposit]
  exact hpay a p x key ((remains_congr h hset vs a p).1 hr) hvote

end Congr

end StateDB

/-- At the end of an epoch, `UpdateBannedState` only sets the counters back. -/
theorem updateBannedState_of_end {epoch : Epoch} {height : Nat} {commit : Option Commit}
    {s s' : StateDB} (hend : height = epoch.endBlock)
    (h : updateBannedState epoch height commit s = .ok s') :
    StateDB.Posts s s' 0 ∧ s'.delegateRefundSet = s.delegateRefundSet := by
  have hloop (l : List Address) (t : StateDB) :
      StateDB.Posts t (l.foldl (fun s addr => s.setMinedBlocks addr 0) t) 0 := by
    induction l generalizing t with
    | nil => exact .refl t
    | cons a _ ih => exact (StateDB.setMinedBlocks_posts t a 0).zero_trans (ih _)
  refine ⟨?_, (updateBannedState_still h).delegateRefundSet⟩
  simp only [updateBannedState] at h
  split at h
  · cases h
    exact .refl s
  · cases h
    exact hloop _ s

theorem updateBannedState_amounts {epoch : Epoch} {height : Nat} {commit : Option Commit}
    {s s' : StateDB} (h : updateBannedState epoch height commit s = .ok s') :
    s'.amounts = s.amounts := by
  have hloop {f : StateDB → Address → StateDB} (hf : ∀ t a, (f t a).amounts = t.amounts)
      (l : List Address) (t : StateDB) : (l.foldl f t).amounts = t.amounts := by
    induction l generalizing t with
    | nil => rfl
    | cons _ _ ih => rw [List.foldl_cons, ih, hf]
  have hban (t : StateDB) (a : Address) : (t.banIfIdle a).amounts = t.amounts := by
    rw [StateDB.banIfIdle_eq]
    split <;> simp [StateDB.markAddressBanned, StateDB.setBannedTime, StateDB.setBanned]
  have hcount (bits : List Bool) (vs : List Validator) (t : StateDB)
      (h : t.countMinedBlocks bits vs = .ok s') : s'.amounts = t.amounts := by
    induction bits generalizing vs t with
    | nil =>
      cases h
      rfl
    | cons b _ ih =>
      cases b with
      | false => exact ih _ t h
      | true =>
        cases vs with
        | nil => cases h
        | cons _ vs =>
          rw [ih vs _ h]
          simp [StateDB.countMinedBlock, StateDB.getMinedBlocks, StateDB.setMinedBlocks]
  simp only [updateBannedState] at h
  split at h
  · cases h
    rfl
  split at h
  · cases h
    exact hloop (fun t a => StateDB.setAccount_amounts t a _) _ s
  split at h
  · cases h
    exact hloop hban _ s
  · split at h
    · cases h
      rfl
    · exact hcount _ _ s h

namespace Chain

variable {checkConsensusPubKey : Address → Bytes → Bytes → Bool} {rt : Runtime} {c c' : Chain}

/-! ## The validators have distinct addresses -/

/-- No address is twice in the set of the epoch, nor in the one that is about to take its place. -/
structure Distinct (c : Chain) : Prop where
  validators : (c.epoch.validators.validators.map (·.address)).Nodup
  newValidators : ∀ newValidators, c.phase = .finalized (some newValidators) →
    (newValidators.validators.map (·.address)).Nodup

theorem step_distinct (hc : c.Distinct) (h : c.step checkConsensusPubKey rt a = .ok c') :
    c'.Distinct := by
  cases a with
  | tx =>
    simp only [step] at h
    split at h
    · cases h
    · split at h
      · cases h
      · cases h
        exact ⟨hc.validators, hc.newValidators⟩
  | reward =>
    simp only [step] at h
    split at h
    · cases h
    · cases h
      exact ⟨hc.validators, hc.newValidators⟩
  | nextEpoch =>
    simp only [step] at h
    split at h <;> cases h <;> exact ⟨hc.validators, hc.newValidators⟩
  | finalize =>
    have hdb := step_ok h
    have hepoch : c'.epoch = c.epoch := by
      simp only [step] at h
      split at h
      · cases h
      · split at h
        · cases h
        · split at h <;> cases h <;> rfl
    refine ⟨hepoch ▸ hc.validators, fun newValidators hphase => ?_⟩
    cases hdb with
    | stay _ _ hphase' =>
      rw [hphase'] at hphase
      cases hphase
    | enter _ s votes _ _ _ _ _ hphase' =>
      rw [hphase'] at hphase
      have hset := Option.some.inj (Phase.finalized.inj hphase)
      rw [← hset, enterNewEpoch_validators rt votes s hc.validators]
      exact cut_nodup rt (s.nextMembers_nodup _ votes hc.validators)
  | write =>
    have hphase' := step_ok h
    have happlying : c'.phase = .applying := by
      cases hphase' with
      | write _ _ hphase' => exact hphase'
    refine ⟨?_, fun newValidators hphase => by rw [happlying] at hphase; cases hphase⟩
    obtain ⟨newValidators, db, c₁, hphase, -, hops, rfl⟩ := step_write_ok h
    have hepoch : c₁.epoch = c.epoch := by
      rw [applyOps] at hops
      split at hops
      · split at hops <;> cases hops
        rfl
      · cases hops
        rfl
    unfold switchEpoch
    split
    · exact hc.newValidators _ hphase
    · rw [hepoch]
      exact hc.validators

/-! ## Runs -/

/-- Candidates leave with nothing pending, and every switch can be paid. -/
def KeepsSolvent (c : Chain) : Action → Prop
  | .finalize _ => c.height + 1 = c.epoch.endBlock → ∀ votes, c.nextEpoch.map (·.2) = some votes →
      c.db.Payable c.epoch.validators.validators votes
  | a => LeavesSettled c a

theorem KeepsSolvent.leavesSettled (h : KeepsSolvent c a) : LeavesSettled c a := by
  cases a <;> first | exact h | trivial

theorem DbStep.solvent (hs : c.Sound) (hc : c.Distinct) (hsolvent : c.db.Solvent)
    (hok : KeepsSolvent c a) (h : DbStep checkConsensusPubKey rt c c' a) : c'.db.Solvent := by
  have hcovered := h.covered hs hsolvent.covered hok.leavesSettled
  have hdelegate (u : Address) : 0 ≤ weigh (Law.delegate u).weight c'.db.amounts := by
    rw [h.weigh_delegate hs u]
    exact hsolvent.delegate u
  cases h with
  | tx _ _ hphase _ h => exact hsolvent.applyTransactionEx (hs.applying hphase) hok h
  | reward a d x _ _ h =>
    refine ⟨fun k hk => ?_, hcovered, hdelegate⟩
    rw [h, (StateDB.addRewardBalanceByDelegateAddress_posts c.db a d x).apply]
    cases k <;> simp only [Slot.own, Bool.false_eq_true] at hk <;>
      simpa [StateDB.rewardPosting] using hsolvent.own _ rfl
  | nextEpoch _ _ h =>
    rw [h]
    exact hsolvent
  | stay _ _ _ h =>
    refine ⟨fun k hk => ?_, hcovered, hdelegate⟩
    rw [updateBannedState_amounts h]
    exact hsolvent.own k hk
  | enter _ s votes hphase hend hvotes hban h =>
    obtain ⟨hposts, hset⟩ := updateBannedState_of_end hend hban
    have hpay := (hok hend votes hvotes).congr hposts hset
    have hsolvent' : s.Solvent := by
      refine ⟨fun k hk => ?_, hsolvent.covered.still (updateBannedState_still hban), fun u => ?_⟩
      · rw [updateBannedState_amounts hban]
        exact hsolvent.own k hk
      · rw [updateBannedState_amounts hban]
        exact hsolvent.delegate u
    rw [h]
    exact hsolvent'.enterNewEpoch ((hs.applying hphase).still (updateBannedState_still hban))
      hc.validators hpay rt
  | write newValidators hphase _ h =>
    refine ⟨fun k hk => ?_, hcovered, hdelegate⟩
    have hreward : k.isReward = false := by
      cases k <;> simp [Slot.own, Slot.isReward] at hk ⊢
    rw [(hs.finalized newValidators hphase).commit_amounts h hreward]
    exact hsolvent.own k hk

theorem genesis_solvent (alloc : GenesisAlloc) (hcover : ∀ u, alloc.DelegatesCover u) :
    alloc.toState.Solvent := by
  refine ⟨fun k _ => ?_, fun c u => (GenesisAlloc.toState_open alloc c u).covered, fun u => ?_⟩
  · rw [GenesisAlloc.toState, (GenesisAlloc.written_sound alloc).reload_amounts]
    exact (GenesisAlloc.allocated_fresh alloc).nonneg k
  · have hle := hcover u
    rw [GenesisAlloc.DelegatesCover] at hle
    rw [GenesisAlloc.weigh_delegate_toState]
    omega

/-- **No amount is negative**, in any run from a genesis file whose `DelegateBalance`s cover its
deposits, if candidates leave with nothing pending and the deposits cover what the votes refund. -/
theorem amounts_nonneg {alloc : GenesisAlloc} {epoch : Epoch}
    (voteSet : Option EpochValidatorVoteSet) (hcover : ∀ u, alloc.DelegatesCover u)
    (hvs : (epoch.validators.validators.map (·.address)).Nodup)
    (h : Reaches checkConsensusPubKey KeepsSolvent (genesis alloc epoch voteSet) c) (k : Slot) :
    0 ≤ c.db.amounts k := by
  have hinv : c.Sound ∧ c.Distinct ∧ c.db.Solvent := by
    induction h with
    | start =>
      refine ⟨genesis_sound alloc epoch voteSet, ⟨hvs, fun _ hphase => ?_⟩,
        genesis_solvent alloc hcover⟩
      cases hphase
    | move _ _ _ hok hstep ih =>
      obtain ⟨hs, hd, hsolvent⟩ := ih
      exact ⟨(step_ok hstep).sound hs, step_distinct hd hstep,
        (step_ok hstep).solvent hs hd hsolvent hok⟩
  obtain ⟨hs, -, hsolvent⟩ := hinv
  have hunwritten : c.db.Unwritten := by
    cases hphase : c.phase with
    | applying => exact (hs.applying hphase).unwritten_self
    | finalized newValidators => exact hs.finalized newValidators hphase
  exact hunwritten.nonneg hsolvent k

/-! ## Runs that overdraw -/

namespace Overdrawn

/-- The epoch after it. -/
def secondEpoch : Epoch := { firstEpoch with number := 1, startBlock := 5, endBlock := 9 }

/-- A block in which nothing happens. -/
def emptyBlock : List Action := [.finalize none, .write]

/-- The delegator takes back a part, and the epoch ends. -/
def takesBackInTime : List Action :=
  emptyBlock ++ emptyBlock ++ [.nextEpoch secondEpoch,
    .tx ⟨[2], 0, 0, 21000, 1, .unDelegate [1] 4⟩] ++ emptyBlock ++ [.finalize none]

/-- The condition of the moves, where there are no votes. -/
def test (c : Chain) : Action → Bool
  | .finalize _ => decide (c.nextEpoch.bind (·.2) = none)
  | a => stays a

theorem keepsSolvent_of_test (c : Chain) (a : Action) (h : test c a = true) : KeepsSolvent c a := by
  cases a with
  | tx =>
    intro hcall
    simp [test, stays, hcall] at h
  | finalize =>
    intro _ votes hvotes a p x key _ hvote
    obtain ⟨next, hnext, rfl⟩ := Option.map_eq_some_iff.1 hvotes
    have hnone : next.2 = none := by simpa [test, hnext] using h
    rw [hnone] at hvote
    cases hvote
  | _ => trivial

theorem amounts_nonneg_takesBackInTime :
    ∃ c, Reaches (fun _ _ _ => true) KeepsSolvent (genesis twoAccounts shortEpoch none) c ∧
      c.db.getAccountProxiedBalance [1] [2] = ⟨0, 6, 0⟩ ∧
      0 ≤ c.db.amounts (.depositProxied [1] [2]) := by
  have hcover : ∀ u, twoAccounts.DelegatesCover u := by
    intro u
    by_cases h₁ : [1] = u
    · subst h₁
      rw [GenesisAlloc.DelegatesCover]
      decide
    · by_cases h₂ : [2] = u
      · subst h₂
        rw [GenesisAlloc.DelegatesCover]
        decide
      · simp [GenesisAlloc.DelegatesCover, twoAccounts, h₁, h₂]
  have hvs : (shortEpoch.validators.validators.map (·.address)).Nodup := by decide
  obtain ⟨c, hc, hentry⟩ : ∃ c, Reaches (fun _ _ _ => true) KeepsSolvent
      (genesis twoAccounts shortEpoch none) c ∧ c.db.getAccountProxiedBalance [1] [2] = ⟨0, 6, 0⟩ :=
    exists_of_runsIf keepsSolvent_of_test .sorted takesBackInTime (by decide +kernel)
  exact ⟨c, hc, hentry, amounts_nonneg none hcover hvs hc _⟩

/-- A validator that has deposited ten, one that is idle, and a user. -/
def alloc : GenesisAlloc :=
  [([1], ⟨2000000000000000000, 0, false, 10, 0, [], false, 0⟩),
    ([2], ⟨1000000, 0, false, 10, 0, [], false, 0⟩),
    ([3], ⟨1000000, 0, false, 0, 0, [], false, 0⟩)]

/-- The first epoch, with both validators. -/
def twoValidators : Epoch :=
  { shortEpoch with validators := ⟨[⟨[1], [], 10, 0⟩, ⟨[2], [], 10, 0⟩]⟩ }

/-- A block, where the first validator has signed the one before. -/
def signedBlock : List Action :=
  [.finalize (some { Commit.empty with bitArray := some [true] }), .write]

/-- The first validator registers, and the second one is banned.  In the next epoch a user delegates
one coin to the first validator, which makes a vote, and then the second validator delegates five,
which does not change it. -/
def bannedDelegates : List Action :=
  emptyBlock ++ signedBlock ++
    [.nextEpoch secondEpoch, .tx ⟨[1], 0, 1000000000000000000, 21000, 1, .register [7] [] 0⟩] ++
    emptyBlock ++ emptyBlock ++ emptyBlock ++ signedBlock ++ emptyBlock ++
    [.nextEpoch firstEpoch, .tx ⟨[3], 0, 1, 21000, 1, .delegate [1]⟩,
      .tx ⟨[2], 0, 5, 21000, 1, .delegate [1]⟩] ++ emptyBlock ++ [.finalize none]

/-- A refund that has been announced twice is paid, and ten less fourteen coins are left of the
deposit; and a validator that has nothing deposited any more pays back five. -/
theorem overdraws :
    (∃ c, Reaches (fun _ _ _ => true) (fun _ _ => True) (genesis twoAccounts shortEpoch none) c ∧
      c.db.getAccountProxiedBalance [1] [2] = ⟨0, -4, 0⟩) ∧
    ∃ c, Reaches (fun _ _ _ => true) (fun _ _ => True) (genesis alloc twoValidators none) c ∧
      c.db.getDepositBalance [1] = -5 := by
  constructor
  · exact exists_of_run .sorted (takesBack ++ [.tx ⟨[1], 0, 0, 21000, 1, .unRegister⟩,
      .nextEpoch secondEpoch] ++ emptyBlock ++ [.finalize none]) (by decide +kernel)
  · exact exists_of_run .sorted bannedDelegates (by decide +kernel)

end Overdrawn

end Chain

end NeatPoS
