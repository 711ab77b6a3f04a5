import NeatPoS.Core.Postings
import NeatPoS.Engine.Finalize
import NeatPoS.Epoch.Orders

/-!
# The rewards of a block

`accumulateRewards` in closed form.  What a block has to pay is split into the part of the coinbase
and that of the delegators, the delegators get shares by their deposits, and what rounding leaves
goes to the coinbase (`accumulateRewards_posts`).  As long as the deposits of the delegators add up
to what the account of the coinbase says, their shares do not exceed their part
(`Ledger.sum_shares_le`), and all that is paid adds up to what the block has to pay.

The amounts of the entries are those of a trie, where RLP has no negative integers.
-/

set_option autoImplicit false

namespace NeatPoS

open DFinsupp

namespace StateDB

variable (s : StateDB) (coinbase : Address)

section

variable (delegateReward total : Int)

/-- What a delegator is paid. -/
def individualReward (key : Address) : Int :=
  if 0 < s.amounts (.depositProxied coinbase key) then
    (s.amounts (.depositProxied coinbase key) * delegateReward).tdiv total
  else 0

theorem rewardPosting_zero (a d : Address) : rewardPosting a d 0 = 0 := by
  rw [rewardPosting, single_zero, single_zero, add_zero]

/-- Rewards do not concern the deposits. -/
theorem rewardPosting_deposit (a d c u : Address) (x : Int) :
    rewardPosting a d x (.depositProxied c u) = 0 := by
  simp [rewardPosting]

theorem payDelegator_eq (x : Int) (key : Address) :
    payDelegator coinbase delegateReward total (s, x) key =
      if 0 < s.amounts (.depositProxied coinbase key) then
        (s.addRewardBalanceByDelegateAddress key coinbase
            ((s.amounts (.depositProxied coinbase key) * delegateReward).tdiv total),
          x + (s.amounts (.depositProxied coinbase key) * delegateReward).tdiv total)
      else (s, x) := rfl

theorem payDelegator_posts (x : Int) (key : Address) :
    ∃ s', payDelegator coinbase delegateReward total (s, x) key =
        (s', x + s.individualReward coinbase delegateReward total key) ∧
      Posts s s' (rewardPosting key coinbase
        (s.individualReward coinbase delegateReward total key)) := by
  rw [payDelegator_eq, individualReward]
  by_cases h : 0 < s.amounts (.depositProxied coinbase key)
  · rw [if_pos h, if_pos h]
    exact ⟨_, rfl, addRewardBalanceByDelegateAddress_posts s _ _ _⟩
  · rw [if_neg h, if_neg h, rewardPosting_zero, add_zero]
    exact ⟨s, rfl, Posts.refl s⟩

theorem foldl_payDelegator (l : List Address) (x : Int) :
    ∃ s', l.foldl (payDelegator coinbase delegateReward total) (s, x) =
        (s', x + (l.map (s.individualReward coinbase delegateReward total)).sum) ∧
      Posts s s' (l.map fun key =>
        rewardPosting key coinbase (s.individualReward coinbase delegateReward total key)).sum := by
  induction l generalizing s x with
  | nil =>
    refine ⟨s, ?_, Posts.refl s⟩
    rw [List.foldl_nil, List.map_nil, List.sum_nil, add_zero]
  | cons key _ ih =>
    obtain ⟨s₁, hfirst, hposts⟩ := payDelegator_posts s coinbase delegateReward total x key
    obtain ⟨s₂, hrest, hposts'⟩ := ih s₁ (x + s.individualReward coinbase delegateReward total key)
    have hsame : s₁.individualReward coinbase delegateReward total =
        s.individualReward coinbase delegateReward total := by
      funext u
      rw [individualReward, individualReward, hposts.apply, rewardPosting_deposit, add_zero]
    rw [hsame] at hrest hposts'
    refine ⟨s₂, ?_, ?_⟩
    · rw [List.foldl_cons, hfirst, hrest, List.map_cons, List.sum_cons, add_assoc]
    · rw [List.map_cons, List.sum_cons]
      exact hposts.trans hposts'

/-- **The delegators are paid**, and the coinbase gets the rest, which may be negative. -/
theorem payDelegators_posts (rt : Runtime) :
    Posts s (s.payDelegators rt coinbase delegateReward total) (∑ key ∈ s.proxiedTrie coinbase,
          rewardPosting key coinbase (s.individualReward coinbase delegateReward total key) +
        rewardPosting coinbase coinbase (delegateReward -
          ∑ key ∈ s.proxiedTrie coinbase,
            s.individualReward coinbase delegateReward total key)) := by
  obtain ⟨s', hfold, hposts⟩ := foldl_payDelegator s coinbase delegateReward total
    (rt.trieOrder.list (s.proxiedTrie coinbase)) 0
  rw [rt.trieOrder.sum_list, zero_add] at hfold
  rw [rt.trieOrder.sum_list] at hposts
  rw [payDelegators, hfold]
  dsimp only
  refine hposts.trans ?_
  split
  · exact addRewardBalanceByDelegateAddress_posts s' _ _ _
  split
  · have hsub := subRewardBalanceByDelegateAddress_posts s' coinbase coinbase
      (∑ key ∈ s.proxiedTrie coinbase, s.individualReward coinbase delegateReward total key -
        delegateReward)
    rwa [neg_sub] at hsub
  · rename_i hle hge
    have hrest : delegateReward - ∑ key ∈ s.proxiedTrie coinbase,
        s.individualReward coinbase delegateReward total key = 0 := by omega
    rw [hrest, rewardPosting_zero]
    exact Posts.refl s'

end

/-! ## The whole block -/

section

variable (env : RewardEnv) (ep : Epoch) (totalGasFee : Int)

/-- What a side chain takes from its pool. -/
def takenFromPool : Int :=
  if env.mainChain then 0
  else match env.sideChainRewardPerBlock with
    | some rewardPerBlock =>
      if 0 < rewardPerBlock then min (s.getBalance sideChainRewardAddress) rewardPerBlock else 0
    | none => 0

/-- The reward of the block, without the fees. -/
def blockReward : Int := if env.mainChain then max 0 ep.rewardPerBlock else s.takenFromPool env

theorem sub_commission (k : Slot) (x : Int) (a : Address) :
    ((s.sub k x).accounts a).commission = (s.accounts a).commission := by
  have hnew : ((s.getOrNewStateObject k.owner).accounts a).commission =
    (s.accounts a).commission := by
    rw [getOrNewStateObject_accounts]
    split <;> rfl
  rw [sub]
  split
  · exact hnew
  · exact hnew

theorem coinbaseReward_spec :
    (s.coinbaseReward env ep totalGasFee).1 = s.blockReward env ep + totalGasFee ∧
      Posts s (s.coinbaseReward env ep totalGasFee).2
        (single (.balance sideChainRewardAddress) (-s.takenFromPool env)) ∧
      ∀ a, ((s.coinbaseReward env ep totalGasFee).2.accounts a).commission =
        (s.accounts a).commission := by
  have hnothing : Posts s s (single (.balance sideChainRewardAddress) (-0)) := by
    rw [neg_zero, single_zero]
    exact Posts.refl s
  rw [coinbaseReward, blockReward, takenFromPool]
  by_cases hmain : env.mainChain = true
  · simp only [if_pos hmain]
    split
    · rename_i h
      exact ⟨by rw [max_eq_right h.le], hnothing, fun _ => rfl⟩
    · rename_i h
      exact ⟨by rw [max_eq_left (Int.not_lt.1 h), zero_add], hnothing, fun _ => rfl⟩
  · simp only [if_neg hmain]
    cases env.sideChainRewardPerBlock with
    | none => exact ⟨(zero_add _).symm, hnothing, fun _ => rfl⟩
    | some rewardPerBlock =>
      dsimp only
      by_cases hr : 0 < rewardPerBlock
      · have hmin : (if s.getBalance sideChainRewardAddress < rewardPerBlock then
            s.getBalance sideChainRewardAddress else rewardPerBlock) =
            min (s.getBalance sideChainRewardAddress) rewardPerBlock := by
          split <;> omega
        rw [if_pos hr, if_pos hr, hmin]
        exact ⟨rfl, sub_posts s _ _, sub_commission s _ _⟩
      · rw [if_neg hr, if_neg hr]
        exact ⟨(zero_add _).symm, hnothing, fun _ => rfl⟩

/-- The part of the coinbase. -/
def selfReward : Int :=
  (splitReward env (s.coinbaseReward env ep totalGasFee).1 (s.getDepositBalance coinbase)
    (s.getTotalDepositProxiedBalance coinbase) (s.accounts coinbase).commission).1

/-- The part of the delegators. -/
def delegateReward : Int :=
  (splitReward env (s.coinbaseReward env ep totalGasFee).1 (s.getDepositBalance coinbase)
    (s.getTotalDepositProxiedBalance coinbase) (s.accounts coinbase).commission).2.getD 0

/-- The state in which the delegators are paid. -/
def selfRewarded : StateDB :=
  (s.coinbaseReward env ep totalGasFee).2.addRewardBalanceByDelegateAddress coinbase coinbase
    (s.selfReward coinbase env ep totalGasFee)

theorem selfRewarded_posts : Posts s (s.selfRewarded coinbase env ep totalGasFee)
    (single (.balance sideChainRewardAddress) (-s.takenFromPool env) +
      rewardPosting coinbase coinbase (s.selfReward coinbase env ep totalGasFee)) := by
  obtain ⟨-, hpool, -⟩ := coinbaseReward_spec s env ep totalGasFee
  exact hpool.trans (addRewardBalanceByDelegateAddress_posts _ _ _ _)

theorem accumulateRewards_eq (rt : Runtime) :
    s.accumulateRewards rt env coinbase ep totalGasFee =
      if 0 < s.delegateReward coinbase env ep totalGasFee then
        (s.selfRewarded coinbase env ep totalGasFee).payDelegators rt coinbase
          (s.delegateReward coinbase env ep totalGasFee) (s.getTotalDepositProxiedBalance coinbase)
      else s.selfRewarded coinbase env ep totalGasFee := by
  obtain ⟨-, hpool, hcommission⟩ := coinbaseReward_spec s env ep totalGasFee
  have hself : (s.coinbaseReward env ep totalGasFee).2.getDepositBalance coinbase =
      s.getDepositBalance coinbase :=
    (hpool.apply (.depositBalance coinbase)).trans (by simp [getDepositBalance])
  have htotal : (s.coinbaseReward env ep totalGasFee).2.getTotalDepositProxiedBalance coinbase =
      s.getTotalDepositProxiedBalance coinbase :=
    (hpool.apply (.depositProxiedBalance coinbase)).trans (by simp [getTotalDepositProxiedBalance])
  rw [accumulateRewards]
  dsimp only
  rw [hself, htotal, hcommission, selfRewarded, selfReward, delegateReward]
  cases (splitReward env (s.coinbaseReward env ep totalGasFee).1 (s.getDepositBalance coinbase)
    (s.getTotalDepositProxiedBalance coinbase) (s.accounts coinbase).commission).2 with
  | none => rfl
  | some x => rfl

end

/-- The parts are not negative, and add up to the reward of the block. -/
theorem splitReward_spec {env : RewardEnv} {reward selfDeposit total : Int} {commission : Nat}
    (hreward : 0 ≤ reward) (hcommission : commission ≤ 100)
    (hshare : total ≠ 0 → 0 ≤ env.selfShare reward selfDeposit (selfDeposit + total) ∧
      env.selfShare reward selfDeposit (selfDeposit + total) ≤ reward) :
    0 ≤ (splitReward env reward selfDeposit total commission).1 ∧
      0 ≤ (splitReward env reward selfDeposit total commission).2.getD 0 ∧
      (splitReward env reward selfDeposit total commission).1 +
        (splitReward env reward selfDeposit total commission).2.getD 0 = reward := by
  rw [splitReward]
  by_cases htotal : total = 0
  · rw [if_pos htotal]
    exact ⟨hreward, Int.le_refl 0, add_zero reward⟩
  obtain ⟨hnonneg, hle⟩ := hshare htotal
  rw [if_neg htotal]
  dsimp only
  generalize env.selfShare reward selfDeposit (selfDeposit + total) = own at hnonneg hle
  have hrest : 0 ≤ reward - own := by omega
  split
  · have hproduct : 0 ≤ (reward - own) * commission := mul_nonneg hrest (Int.natCast_nonneg _)
    have hpart : ((reward - own) * commission).tdiv 100 ≤ reward - own := by
      rw [Int.tdiv_eq_ediv_of_nonneg hproduct]
      refine Int.ediv_le_of_le_mul (by decide) ?_
      exact mul_le_mul_of_nonneg_left (by omega) hrest
    have hpart' : 0 ≤ ((reward - own) * commission).tdiv 100 := Int.tdiv_nonneg hproduct (by decide)
    dsimp only [Option.getD_some]
    omega
  · dsimp only [Option.getD_some]
    omega

/-- The amount for a delegator is rounded down. -/
theorem individualReward_eq {dr total : Int} (hdr : 0 ≤ dr) {u : Address}
    (hu : 0 ≤ s.amounts (.depositProxied coinbase u)) :
    s.individualReward coinbase dr total u = s.amounts (.depositProxied coinbase u) * dr /
      total := by
  rw [individualReward]
  split
  · exact Int.tdiv_eq_ediv_of_nonneg (mul_nonneg hu hdr)
  · rename_i hnot
    have hzero : s.amounts (.depositProxied coinbase u) = 0 :=
      Int.le_antisymm (Int.not_lt.1 hnot) hu
    rw [hzero, zero_mul, Int.zero_ediv]

theorem rewardPosting_reward (a d b e : Address) (x : Int) :
    rewardPosting a d x (.reward b e) = if e = d then (if b = a then x else 0) else 0 := by
  by_cases he : e = d
  · by_cases hb : b = a
    · simp [rewardPosting, he, hb]
    · simp [rewardPosting, he, hb, single_apply, Ne.symm hb]
  · simp [rewardPosting, he, single_apply, Ne.symm he]

theorem rewardPosting_rewardBalance (a d b : Address) (x : Int) :
    rewardPosting a d x (.rewardBalance b) = if b = a then x else 0 := by
  by_cases hb : b = a
  · simp [rewardPosting, hb]
  · simp [rewardPosting, hb, single_apply, Ne.symm hb]

theorem rewardPosting_balance (a d b : Address) (x : Int) :
    rewardPosting a d x (.balance b) = 0 := by
  simp [rewardPosting]

section

variable (env : RewardEnv) (ep : Epoch) (totalGasFee : Int)

/-- The part of a delegator. -/
def share (u : Address) : Int :=
  s.amounts (.depositProxied coinbase u) * s.delegateReward coinbase env ep totalGasFee /
    s.getTotalDepositProxiedBalance coinbase

/-- What a block pays to an address. -/
def credit (a : Address) : Int :=
  (if a ∈ s.proxiedTrie coinbase then s.share coinbase env ep totalGasFee a else 0) +
  if a = coinbase then
    s.selfReward coinbase env ep totalGasFee + (s.delegateReward coinbase env ep totalGasFee -
      ∑ u ∈ s.proxiedTrie coinbase, s.share coinbase env ep totalGasFee u)
  else 0

variable {s coinbase env ep totalGasFee}

theorem selfRewarded_individualReward (hdr : 0 ≤ s.delegateReward coinbase env ep totalGasFee)
    {u : Address} (hu : 0 ≤ s.amounts (.depositProxied coinbase u)) :
    (s.selfRewarded coinbase env ep totalGasFee).individualReward coinbase
        (s.delegateReward coinbase env ep totalGasFee)
          (s.getTotalDepositProxiedBalance coinbase) u =
      s.share coinbase env ep totalGasFee u := by
  have hsame : (s.selfRewarded coinbase env ep totalGasFee).amounts (.depositProxied coinbase u) =
      s.amounts (.depositProxied coinbase u) := by
    rw [(selfRewarded_posts s coinbase env ep totalGasFee).apply, DFinsupp.add_apply,
      rewardPosting_deposit]
    simp
  rw [individualReward_eq _ _ hdr (hsame ▸ hu), hsame, share]

section Posted

variable (rt : Runtime)
  (hstored : ∀ u ∈ s.proxiedTrie coinbase, 0 ≤ s.amounts (.depositProxied coinbase u))
  (hdr : 0 ≤ s.delegateReward coinbase env ep totalGasFee)
include hstored hdr

/-- **What a block posts.**  If the delegators get nothing then there is no loop, and all shares are
zero. -/
theorem accumulateRewards_posts :
    Posts s (s.accumulateRewards rt env coinbase ep totalGasFee)
      (single (.balance sideChainRewardAddress) (-s.takenFromPool env) +
        rewardPosting coinbase coinbase (s.selfReward coinbase env ep totalGasFee) +
        (∑ u ∈ s.proxiedTrie coinbase,
          rewardPosting u coinbase (s.share coinbase env ep totalGasFee u) +
          rewardPosting coinbase coinbase (s.delegateReward coinbase env ep totalGasFee -
            ∑ u ∈ s.proxiedTrie coinbase, s.share coinbase env ep totalGasFee u))) := by
  have hself := selfRewarded_posts s coinbase env ep totalGasFee
  rw [accumulateRewards_eq]
  split
  · have hpay := payDelegators_posts (s.selfRewarded coinbase env ep totalGasFee) coinbase
      (s.delegateReward coinbase env ep totalGasFee) (s.getTotalDepositProxiedBalance coinbase) rt
    have hshares : ∀ u ∈ s.proxiedTrie coinbase, _ := fun u hu =>
      selfRewarded_individualReward hdr (hstored u hu)
    rw [hself.proxiedTrie, Finset.sum_congr rfl hshares,
      Finset.sum_congr rfl fun u hu => congrArg (rewardPosting u coinbase) (hshares u hu)] at hpay
    exact hself.trans hpay
  · rename_i hnot
    have hzero : s.delegateReward coinbase env ep totalGasFee = 0 :=
      Int.le_antisymm (Int.not_lt.1 hnot) hdr
    have hshare : ∀ u, s.share coinbase env ep totalGasFee u = 0 := by
      intro u
      rw [share, hzero, mul_zero, Int.zero_ediv]
    simpa [hzero, hshare, rewardPosting_zero] using hself

/-- The rewards that a block posts are those of `credit`. -/
theorem accumulateRewards_reward (a d : Address) :
    (s.accumulateRewards rt env coinbase ep totalGasFee).amounts (.reward a d) =
      s.amounts (.reward a d) + if d = coinbase then s.credit coinbase env ep totalGasFee a
        else 0 := by
  rw [(accumulateRewards_posts rt hstored hdr).apply]
  simp only [DFinsupp.add_apply, finsetSum_apply, rewardPosting_reward]
  by_cases hd : d = coinbase
  · simp only [if_pos hd, Finset.sum_ite_eq, credit]
    rw [single_eq_of_ne (by simp)]
    split <;> split <;> omega
  · simp [hd]

theorem accumulateRewards_rewardBalance (a : Address) :
    (s.accumulateRewards rt env coinbase ep totalGasFee).amounts (.rewardBalance a) =
      s.amounts (.rewardBalance a) + s.credit coinbase env ep totalGasFee a := by
  rw [(accumulateRewards_posts rt hstored hdr).apply]
  simp only [DFinsupp.add_apply, finsetSum_apply, rewardPosting_rewardBalance, Finset.sum_ite_eq,
    credit]
  rw [single_eq_of_ne (by simp)]
  split <;> split <;> omega

theorem accumulateRewards_pool :
    (s.accumulateRewards rt env coinbase ep totalGasFee).getBalance sideChainRewardAddress =
      s.getBalance sideChainRewardAddress - s.takenFromPool env := by
  rw [getBalance, (accumulateRewards_posts rt hstored hdr).apply]
  simp only [DFinsupp.add_apply, finsetSum_apply, rewardPosting_balance, single_eq_same,
    Finset.sum_const_zero, add_zero, getBalance, sub_eq_add_neg]

end Posted

/-- What is paid to all is the reward of the block. -/
theorem sum_credit :
    ∑ a ∈ insert coinbase (s.proxiedTrie coinbase), s.credit coinbase env ep totalGasFee a =
      s.selfReward coinbase env ep totalGasFee + s.delegateReward coinbase env ep totalGasFee := by
  have hdelegators : ∑ a ∈ insert coinbase (s.proxiedTrie coinbase),
      (if a ∈ s.proxiedTrie coinbase then s.share coinbase env ep totalGasFee a else 0) =
      ∑ u ∈ s.proxiedTrie coinbase, s.share coinbase env ep totalGasFee u := by
    rw [← Finset.sum_filter]
    refine Finset.sum_congr ?_ fun _ _ => rfl
    ext a
    simp only [Finset.mem_filter, Finset.mem_insert]
    exact ⟨And.right, fun h => ⟨.inr h, h⟩⟩
  simp only [credit]
  rw [Finset.sum_add_distrib, hdelegators, Finset.sum_ite_eq', if_pos (Finset.mem_insert_self _ _)]
  omega

theorem blockReward_nonneg (hpool : 0 ≤ s.getBalance sideChainRewardAddress) :
    0 ≤ s.blockReward env ep := by
  rw [blockReward, takenFromPool]
  split
  · exact le_max_left 0 _
  cases env.sideChainRewardPerBlock with
  | none => exact Int.le_refl 0
  | some =>
    dsimp only
    split <;> omega

/-- **The rewards of a block add up.**  The delegators get their shares, rounded down, and the
coinbase what is left: together what the block has to pay, which is the reward of the epoch and the
fees on a main chain, and the fees and what has been taken from the pool on a side chain.  A
negative reward of the epoch counts as none.  The loop never pays more than there is for the
delegators. -/
theorem accumulateRewards_conserves (rt : Runtime) (env : RewardEnv) (coinbase : Address)
    (ep : Epoch) (totalGasFee : Int) (s : StateDB)
    (hsum : ∑ u ∈ s.proxiedTrie coinbase, s.amounts (.depositProxied coinbase u) =
      s.getTotalDepositProxiedBalance coinbase)
    (hstored : ∀ u ∈ s.proxiedTrie coinbase, 0 ≤ s.amounts (.depositProxied coinbase u))
    (hcommission : (s.accounts coinbase).commission ≤ 100) (hfee : 0 ≤ totalGasFee)
    (hpool : 0 ≤ s.getBalance sideChainRewardAddress)
    (hproduct : s.getTotalDepositProxiedBalance coinbase ≠ 0 →
      0 ≤ env.selfShare (s.coinbaseReward env ep totalGasFee).1 (s.getDepositBalance coinbase)
          (s.getDepositBalance coinbase + s.getTotalDepositProxiedBalance coinbase) ∧
        env.selfShare (s.coinbaseReward env ep totalGasFee).1 (s.getDepositBalance coinbase)
          (s.getDepositBalance coinbase + s.getTotalDepositProxiedBalance coinbase) ≤
        (s.coinbaseReward env ep totalGasFee).1) :
    ∃ paid : Address → Int,
      (∀ a, 0 ≤ paid a) ∧
      (∀ a d, (s.accumulateRewards rt env coinbase ep totalGasFee).amounts (.reward a d) =
        s.amounts (.reward a d) + if d = coinbase then paid a else 0) ∧
      (∀ a, (s.accumulateRewards rt env coinbase ep totalGasFee).amounts (.rewardBalance a) =
        s.amounts (.rewardBalance a) + paid a) ∧
      (∀ a ∉ insert coinbase (s.proxiedTrie coinbase), paid a = 0) ∧
      ∑ a ∈ insert coinbase (s.proxiedTrie coinbase), paid a =
        (if env.mainChain then max 0 ep.rewardPerBlock + totalGasFee
        else totalGasFee + (s.getBalance sideChainRewardAddress -
          (s.accumulateRewards rt env coinbase ep totalGasFee).getBalance sideChainRewardAddress)) ∧
      (∀ u ∈ s.proxiedTrie coinbase, u ≠ coinbase →
        paid u = s.amounts (.depositProxied coinbase u) *
          s.delegateReward coinbase env ep totalGasFee / s.getTotalDepositProxiedBalance coinbase) ∧
      ((rt.trieOrder.list (s.proxiedTrie coinbase)).foldl
        (payDelegator coinbase (s.delegateReward coinbase env ep totalGasFee)
          (s.getTotalDepositProxiedBalance coinbase))
        (s.selfRewarded coinbase env ep totalGasFee, 0)).2 ≤
          s.delegateReward coinbase env ep totalGasFee := by
  obtain ⟨htotal, -⟩ := coinbaseReward_spec s env ep totalGasFee
  have hcoinbase : 0 ≤ (s.coinbaseReward env ep totalGasFee).1 := by
    rw [htotal]
    exact Int.add_nonneg (blockReward_nonneg hpool) hfee
  obtain ⟨hself, hdr, hparts⟩ := splitReward_spec hcoinbase hcommission hproduct
  change 0 ≤ s.selfReward coinbase env ep totalGasFee at hself
  change 0 ≤ s.delegateReward coinbase env ep totalGasFee at hdr
  change s.selfReward coinbase env ep totalGasFee + s.delegateReward coinbase env ep totalGasFee =
    _ at hparts
  have hle : ∑ u ∈ s.proxiedTrie coinbase, s.share coinbase env ep totalGasFee u ≤
      s.delegateReward coinbase env ep totalGasFee := by
    have hnonneg : 0 ≤ s.getTotalDepositProxiedBalance coinbase := hsum ▸ Finset.sum_nonneg hstored
    rcases hnonneg.lt_or_eq with hpos | hzero
    · exact Ledger.sum_shares_le _ hpos hsum
    · simp only [share, ← hzero, Int.ediv_zero, Finset.sum_const_zero, hdr]
  have hshare : ∀ u ∈ s.proxiedTrie coinbase, 0 ≤ s.share coinbase env ep totalGasFee u :=
    fun u hu =>
    Int.ediv_nonneg (mul_nonneg (hstored u hu) hdr) (hsum ▸ Finset.sum_nonneg hstored)
  refine ⟨s.credit coinbase env ep totalGasFee, ?_, accumulateRewards_reward rt hstored hdr,
    accumulateRewards_rewardBalance rt hstored hdr, ?_, ?_, ?_, ?_⟩
  · intro a
    rw [credit]
    refine Int.add_nonneg ?_ ?_
    · split
      · rename_i ha
        exact hshare a ha
      · exact Int.le_refl 0
    · split <;> omega
  · intro a ha
    rw [Finset.mem_insert, not_or] at ha
    rw [credit, if_neg ha.1, if_neg ha.2, add_zero]
  · rw [sum_credit, hparts, htotal, accumulateRewards_pool rt hstored hdr, blockReward]
    split
    · rfl
    · omega
  · intro u hu hne
    rw [credit, if_pos hu, if_neg hne, add_zero, share]
  · obtain ⟨_, hfold, -⟩ := foldl_payDelegator (s.selfRewarded coinbase env ep totalGasFee) coinbase
      (s.delegateReward coinbase env ep totalGasFee) (s.getTotalDepositProxiedBalance coinbase)
      (rt.trieOrder.list (s.proxiedTrie coinbase)) 0
    have hshares : ∀ u ∈ s.proxiedTrie coinbase, _ := fun u hu =>
      selfRewarded_individualReward hdr (hstored u hu)
    rw [hfold]
    dsimp only
    rw [rt.trieOrder.sum_list, Finset.sum_congr rfl hshares, zero_add]
    exact hle

end

/-- Two delegators have deposited as much as the coinbase, which keeps a tenth of their rewards. -/
def twoDelegators : StateDB where
  amounts := single (.depositBalance [1]) 3 + single (.depositProxiedBalance [1]) 3 +
    single (.depositProxied [1] [2]) 1 + single (.depositProxied [1] [3]) 2
  accounts := fun a => if a = [1] then { Account.absent with live := true, commission := 10 }
    else .absent
  proxiedTrie := fun a => if a = [1] then {[2], [3]} else ∅
  dirty := ∅
  delegateRefundSet := ⟨∅, none, false⟩
  candidateSet := ⟨∅, none, false⟩
  bannedSet := ⟨∅, none, false⟩

/-- The coinbase keeps the part of its own deposit. -/
def byDeposit : RewardEnv := ⟨true, none, fun reward self total => reward * self / total⟩

/-- An epoch with a reward per block. -/
def epochPaying (rewardPerBlock : Int) : Epoch := ⟨0, rewardPerBlock, 0, 100, 0, 0, 0, 0, ⟨[]⟩⟩

/-- Half of a reward of 1010 is for the delegators: 50 of these 505 are the commission, and 1 is
left over. -/
theorem accumulateRewards_conserves_twoDelegators :
    ∃ paid : Address → Int, (∀ a, 0 ≤ paid a) ∧ paid [2] = 151 ∧ paid [3] = 303 ∧
      paid [1] + (paid [2] + paid [3]) = 1010 := by
  obtain ⟨paid, hnonneg, -, -, -, hsum, hpaid, -⟩ := accumulateRewards_conserves Runtime.sorted
    byDeposit [1] (epochPaying 1000) 10 twoDelegators (by decide +kernel) (by decide +kernel)
    (by decide +kernel) (by decide) (by decide +kernel) (fun _ => by decide +kernel)
  have htrie : twoDelegators.proxiedTrie [1] = {[2], [3]} := rfl
  rw [htrie] at hsum hpaid
  refine ⟨paid, hnonneg, ?_, ?_, ?_⟩
  · rw [hpaid [2] (by decide) (by decide)]
    decide +kernel
  · rw [hpaid [3] (by decide) (by decide)]
    decide +kernel
  · rw [Finset.sum_insert (by decide), Finset.sum_pair (by decide)] at hsum
    exact hsum

/-- A negative reward is not taken away: the fee is paid all the same. -/
theorem accumulateRewards_negativeReward :
    ∑ a ∈ insert [1] (twoDelegators.proxiedTrie [1]),
      (twoDelegators.accumulateRewards Runtime.sorted byDeposit [1]
        (epochPaying (-1000)) 10).amounts (.rewardBalance a) = 10 ∧
      (epochPaying (-1000)).rewardPerBlock + 10 ≠ 10 := by
  decide +kernel

end StateDB

end NeatPoS
