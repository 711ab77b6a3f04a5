import NeatPoS.Epoch.Loop
import NeatPoS.Staking.Specs

/-!
# The laws of bookkeeping

The state keeps the same coins in several places: a delegation is an entry of the candidate's
proxied trie, part of the candidate's total, and part of the delegator's `DelegateBalance`.  This
file is about what the callbacks and the epoch switch respect while they move coins around, whatever
the state is.

* The coins that exist are those in balances, deposits, proxied and deposited totals and rewards
  (`Slot.coin`); their sum does not change.
* Each total is the sum of the entries it is the total of.  There is one `Law` for each total, and
  `Law.weight` weighs the ledger such that the law says the weight is zero.

Both are weighings, so that both are read off the postings.  `SameBooks s s'` says that no weighing
has changed; it holds of every function of `api.go` and `epoch.go` that moves coins, because each of
them makes two or more postings that cancel.
-/

set_option autoImplicit false

namespace NeatPoS

open DFinsupp Ledger

/-! ## Weights -/

/-- The amounts that are coins; the others say again where some of these belong. -/
def Slot.coin : Slot → Int
  | .balance _ | .depositBalance _ | .proxiedBalance _ | .depositProxiedBalance _
  | .rewardBalance _ => 1
  | _ => 0

/-- The totals. -/
inductive Law where
  /-- `ProxiedBalance` of a candidate. -/
  | proxied (c : Address)
  /-- `DepositProxiedBalance` of a candidate. -/
  | depositProxied (c : Address)
  /-- `PendingRefundBalance` of a candidate. -/
  | pendingRefund (c : Address)
  /-- `DelegateBalance` of a user. -/
  | delegate (u : Address)
  /-- `RewardBalance` of an address. -/
  | reward (a : Address)
deriving DecidableEq

namespace Law

/-- The total. -/
def total : Law → Slot
  | proxied c => .proxiedBalance c
  | depositProxied c => .depositProxiedBalance c
  | pendingRefund c => .pendingRefundBalance c
  | delegate u => .delegateBalance u
  | reward a => .rewardBalance a

/-- The amount is one of those the total is the sum of. -/
def sums : Law → Slot → Bool
  | proxied c, .proxied c' _ => c' == c
  | depositProxied c, .depositProxied c' _ => c' == c
  | pendingRefund c, .pendingRefund c' _ => c' == c
  | delegate u, .proxied _ u' => u' == u
  | delegate u, .depositProxied _ u' => u' == u
  | reward a, .reward a' _ => a' == a
  | _, _ => false

/-- The law of `DelegateBalance`, whose entries belong to other accounts. -/
def isDelegate : Law → Bool
  | delegate _ => true
  | _ => false

/-- The total counts once, its parts minus once. -/
def weight (l : Law) (k : Slot) : Int :=
  (if k = l.total then 1 else 0) - if l.sums k then 1 else 0

end Law

namespace StateDB

/-- The sum, over all accounts, of balance, deposit, proxied and deposited totals and reward. -/
def totalCoins (s : StateDB) : Int := weigh Slot.coin s.amounts

/-- The sum of the entries a law is about. -/
def sumOfEntries (s : StateDB) (l : Law) : Int := weigh (fun k => if l.sums k then 1 else 0) s.amounts

/-- No weighing has changed. -/
structure SameBooks (s s' : StateDB) : Prop extends Touches s s' where
  coins : weigh Slot.coin s'.amounts = weigh Slot.coin s.amounts
  law : ∀ l : Law, weigh l.weight s'.amounts = weigh l.weight s.amounts

namespace SameBooks

variable {s s' s'' : StateDB}

theorem of_amounts (ht : Touches s s') (h : s'.amounts = s.amounts) : SameBooks s s' := by
  refine ⟨ht, ?_, fun l => ?_⟩ <;> rw [h]

theorem refl (s : StateDB) : SameBooks s s := of_amounts (Touches.refl s) rfl

theorem trans (h : SameBooks s s') (h' : SameBooks s' s'') : SameBooks s s'' :=
  ⟨h.toTouches.trans h'.toTouches, h'.coins.trans h.coins, fun l => (h'.law l).trans (h.law l)⟩

theorem totalCoins_eq (h : SameBooks s s') : s'.totalCoins = s.totalCoins := h.coins

/-- Only sets and accounts are changed. -/
theorem of_eq (ht : s'.proxiedTrie = s.proxiedTrie) (hd : s'.dirty = s.dirty)
    (h : s'.amounts = s.amounts) : SameBooks s s' :=
  of_amounts (Touches.of_amounts ht (Finset.subset_of_eq hd.symm) h) h

/-- Loops. -/
theorem foldl {α : Type} {f : StateDB → α → StateDB} (hf : ∀ t a, SameBooks t (f t a)) (l : List α)
    (s : StateDB) : SameBooks s (l.foldl f s) := by
  induction l generalizing s with
  | nil => exact refl s
  | cons a _ ih => exact (hf s a).trans (ih (f s a))

end SameBooks

variable {s : StateDB} {l : Law}

theorem weigh_law : weigh l.weight s.amounts = s.amounts l.total - s.sumOfEntries l := by
  rw [sumOfEntries, ← weigh_indicator l.total s.amounts, ← weigh_sub]
  rfl

/-- The total of a law is the sum of its entries if the law weighs nothing. -/
theorem weigh_law_eq_zero_iff :
    weigh l.weight s.amounts = 0 ↔ s.amounts l.total = s.sumOfEntries l := by
  rw [weigh_law]
  omega

theorem eq_sumOfEntries (h : weigh l.weight s.amounts = 0) : s.amounts l.total = s.sumOfEntries l :=
  weigh_law_eq_zero_iff.1 h

section Sign

variable {f : Posting} {k : Slot} (h : ∀ k, l.sums k = true → 0 ≤ f k)
include h

theorem entry_nonneg (k : Slot) : 0 ≤ (if l.sums k then 1 else 0) * f k := by
  by_cases hk : l.sums k = true
  · rw [if_pos hk, one_mul]
    exact h k hk
  · rw [if_neg hk, zero_mul]

theorem entry_eq_zero (hsum : weigh (fun k => if l.sums k then 1 else 0) f ≤ 0)
    (hk : l.sums k = true) : f k = 0 := by
  have hge := weigh_nonneg (entry_nonneg h)
  have hzero := eq_zero_of_weigh_eq_zero (entry_nonneg h) (Int.le_antisymm hsum hge) k
  rwa [if_pos hk, one_mul] at hzero

end Sign

/-- Entries that are not negative, with a total that is not positive, are all zero. -/
theorem entries_eq_zero_of_nonneg
    (hlaw : weigh l.weight s.amounts = 0) (htotal : s.amounts l.total ≤ 0)
    (h : ∀ k, l.sums k = true → 0 ≤ s.amounts k) {k : Slot} (hk : l.sums k = true) :
    s.amounts k = 0 :=
  entry_eq_zero h ((eq_sumOfEntries hlaw).symm.trans_le htotal) hk

/-- Entries that are not positive, with a total that is not negative, are all zero. -/
theorem entries_eq_zero_of_nonpos
    (hlaw : weigh l.weight s.amounts = 0) (htotal : 0 ≤ s.amounts l.total)
    (h : ∀ k, l.sums k = true → s.amounts k ≤ 0) {k : Slot} (hk : l.sums k = true) :
    s.amounts k = 0 := by
  have hneg : weigh (fun k => if l.sums k then 1 else 0) (-s.amounts) = -s.sumOfEntries l :=
    map_neg _ _
  have hsum := eq_sumOfEntries hlaw
  have hzero : (-s.amounts) k = 0 := by
    refine entry_eq_zero (fun k hk => ?_) (by omega) hk
    rw [DFinsupp.neg_apply]
    exact Int.neg_nonneg.2 (h k hk)
  rw [DFinsupp.neg_apply] at hzero
  omega

/-! ## The postings that cancel -/

/-- What is posted weighs nothing. -/
structure Balanced (Δ : Posting) : Prop where
  coins : weigh Slot.coin Δ = 0
  law : ∀ l : Law, weigh l.weight Δ = 0

theorem Posts.sameBooks {s' : StateDB} {Δ : Posting} (h : Posts s s' Δ) (hb : Balanced Δ) :
    SameBooks s s' := by
  refine ⟨Touches.of_posts h, ?_, fun l => ?_⟩
  · rw [h.amounts, map_add, hb.coins, add_zero]
  · rw [h.amounts, map_add, hb.law, add_zero]

theorem Posts.sameBooks_zero {s' : StateDB} (h : Posts s s' 0) : SameBooks s s' :=
  h.sameBooks ⟨map_zero _, fun _ => map_zero _⟩

variable (c u : Address) (x : Int)

/-- Coins of a user go to a candidate. -/
theorem balanced_delegate :
    Balanced (single (.balance u) (-x) + single (.delegateBalance u) x + proxiedPosting c u x) := by
  constructor
  · simp [proxiedPosting, Slot.coin]
  · intro l
    cases l <;> simp [proxiedPosting, Law.weight, Law.total, Law.sums]

/-- Proxied coins of a user go back. -/
theorem balanced_release :
    Balanced (proxiedPosting c u (-x) + single (.delegateBalance u) (-x) + single (.balance u) x) := by
  constructor
  · simp [proxiedPosting, Slot.coin]
  · intro l
    cases l <;> simp [proxiedPosting, Law.weight, Law.total, Law.sums]

/-- Proxied coins become a deposit, or the other way round. -/
theorem balanced_shift : Balanced (proxiedPosting c u (-x) + depositPosting c u x) := by
  constructor
  · simp [proxiedPosting, depositPosting, Slot.coin]
  · intro l
    cases l <;> simp [proxiedPosting, depositPosting, Law.weight, Law.total, Law.sums]

/-- A refund is announced. -/
theorem balanced_pending : Balanced (pendingPosting c u x) := by
  constructor
  · simp [pendingPosting, Slot.coin]
  · intro l
    cases l <;> simp [pendingPosting, Law.weight, Law.total, Law.sums]

/-- A pending refund is paid. -/
theorem balanced_refund :
    Balanced (depositPosting c u (-x) + pendingPosting c u (-x) + single (.delegateBalance u) (-x) +
      single (.balance u) x) := by
  constructor
  · simp [depositPosting, pendingPosting, Slot.coin]
  · intro l
    cases l <;> simp [depositPosting, pendingPosting, Law.weight, Law.total, Law.sums]

/-- A deposit is paid out. -/
theorem balanced_payOut (a : Address) (x : Int) :
    Balanced (single (.depositBalance a) (-x) + single (.balance a) x) := by
  constructor
  · simp [Slot.coin]
  · intro l
    cases l <;> simp [Law.weight, Law.total, Law.sums]

/-- A reward is paid out. -/
theorem balanced_withdraw (a d : Address) (x : Int) :
    Balanced (rewardPosting a d (-x) + single (.balance a) x) := by
  constructor
  · simp [rewardPosting, Slot.coin]
  · intro l
    cases l <;> simp [rewardPosting, Law.weight, Law.total, Law.sums]

/-! ## The epoch switch -/

section Switch

variable (rt : Runtime) (s : StateDB) (c u : Address) (apb : AccountProxiedBalance)

theorem moveToDeposit_posts :
    Posts s (moveToDeposit c s u apb)
      (proxiedPosting c u (-apb.proxiedBalance) + depositPosting c u apb.proxiedBalance) :=
  (subProxiedBalanceByUser_posts s c u _).trans (addDepositProxiedBalanceByUser_posts _ c u _)

theorem refundUser_posts {apb : AccountProxiedBalance} (h : 0 < apb.pendingRefundBalance) :
    Posts s (refundUser c s u apb) (depositPosting c u (-apb.pendingRefundBalance) +
        pendingPosting c u (-apb.pendingRefundBalance) +
        single (.delegateBalance u) (-apb.pendingRefundBalance) +
        single (.balance u) apb.pendingRefundBalance) := by
  rw [refundUser, if_pos h]
  exact (((subDepositProxiedBalanceByUser_posts s c u _).trans
    (subPendingRefundBalanceByUser_posts _ c u _)).trans (sub_posts _ (.delegateBalance u) _)).trans
    (add_posts _ (.balance u) _)

theorem moveToProxied_posts {apb : AccountProxiedBalance} (h : 0 < apb.depositProxiedBalance) :
    Posts s (moveToProxied c s u apb) (depositPosting c u (-apb.depositProxiedBalance) +
        proxiedPosting c u apb.depositProxiedBalance) := by
  rw [moveToProxied, if_pos h]
  exact (subDepositProxiedBalanceByUser_posts s c u _).trans (addProxiedBalanceByUser_posts _ c u _)

theorem payOut_posts (a : Address) (x : Int) :
    Posts s ((s.subDepositBalance a x).addBalance a x)
      (single (.depositBalance a) (-x) + single (.balance a) x) :=
  (sub_posts s (.depositBalance a) x).trans (add_posts _ (.balance a) x)

theorem forEachProxied_sameBooks {cb : StateDB → Address → AccountProxiedBalance → StateDB}
    (it : Iteration Address) (c : Address) (hcb : ∀ t u apb, SameBooks t (cb t u apb)) :
    SameBooks s (s.forEachProxied it c cb) :=
  SameBooks.foldl (fun t u => hcb t u _) _ s

theorem moveToDeposit_sameBooks : SameBooks s (moveToDeposit c s u apb) :=
  (moveToDeposit_posts s c u apb).sameBooks (balanced_shift c u _)

theorem refundUser_sameBooks : SameBooks s (refundUser c s u apb) := by
  by_cases h : 0 < apb.pendingRefundBalance
  · exact (refundUser_posts s c u h).sameBooks (balanced_refund c u _)
  · rw [refundUser, if_neg h]
    exact SameBooks.refl s

theorem refundAddress_sameBooks (c : Address) : SameBooks s (s.refundAddress rt c) := by
  have hloop := forEachProxied_sameBooks s rt.trieOrder c fun t u apb => refundUser_sameBooks t c u apb
  rw [refundAddress]
  split
  · exact hloop
  · exact hloop.trans (clearCommission_posts _ c).sameBooks_zero

theorem refundDelegates_sameBooks : SameBooks s (s.refundDelegates rt) := by
  have hload : SameBooks s { s with delegateRefundSet := s.delegateRefundSet.load } :=
    SameBooks.of_eq rfl rfl rfl
  rw [refundDelegates]
  exact (hload.trans (SameBooks.foldl (refundAddress_sameBooks rt) _ _)).trans
    (SameBooks.of_eq rfl rfl rfl)

end Switch

/-! ## The callbacks -/

section Callbacks

variable {rt : Runtime} {bc : ChainView} {tx : StakingTx} {ops : List UpdateNextEpochOp}
  (s : StateDB) (c u : Address) (x : Int)

theorem delegated_posts :
    Posts s (s.delegated c u x)
      (single (.balance u) (-x) + single (.delegateBalance u) x + proxiedPosting c u x) :=
  ((sub_posts s (.balance u) x).trans (add_posts _ (.delegateBalance u) x)).trans
    (addProxiedBalanceByUser_posts _ c u x)

theorem released_posts :
    Posts s (s.released c u x)
      (proxiedPosting c u (-x) + single (.delegateBalance u) (-x) + single (.balance u) x) :=
  ((subProxiedBalanceByUser_posts s c u x).trans (sub_posts _ (.delegateBalance u) x)).trans
    (add_posts _ (.balance u) x)

theorem announced_posts : Posts s (s.announced c u x) (pendingPosting c u x) :=
  (addPendingRefundBalanceByUser_posts s c u x).trans_zero
    ⟨(add_zero _).symm, rfl, fun _ => rfl, Finset.Subset.refl _, fun _ h => absurd rfl h⟩

theorem delegated_sameBooks : SameBooks s (s.delegated c u x) :=
  (delegated_posts s c u x).sameBooks (balanced_delegate c u x)

theorem released_sameBooks : SameBooks s (s.released c u x) :=
  (released_posts s c u x).sameBooks (balanced_release c u x)

theorem announced_sameBooks : SameBooks s (s.announced c u x) :=
  (announced_posts s c u x).sameBooks (balanced_pending c u x)

theorem releaseUser_sameBooks (apb : AccountProxiedBalance) :
    SameBooks s (releaseUser c s u apb) := by
  rw [releaseUser_eq]
  split
  · exact (released_sameBooks s c u _).trans (announced_sameBooks _ c u _)
  · exact released_sameBooks s c u _

variable (a : Address)

theorem setAccount_sameBooks (f : Account → Account) : SameBooks s (s.setAccount a f) :=
  SameBooks.of_amounts (setAccount_touches s a f) (setAccount_amounts s a f)

theorem clearBannedSetByAddress_sameBooks : SameBooks s (s.clearBannedSetByAddress a) :=
  SameBooks.of_eq rfl rfl rfl

theorem setBanned_sameBooks (banned : Bool) : SameBooks s (s.setBanned a banned) :=
  setAccount_sameBooks s a _

theorem enrolled_sameBooks (pubkey : Bytes) (commission : Nat) (x : Int) :
    SameBooks s (s.enrolled a pubkey commission x) := by
  have hload : SameBooks s s.getCandidateSet := SameBooks.of_eq rfl rfl rfl
  have hdel := hload.trans (delegated_sameBooks s.getCandidateSet a a x)
  have happly : SameBooks _
      ((s.getCandidateSet.delegated a a x).applyForCandidate a pubkey commission) :=
    setAccount_sameBooks _ a _
  refine (hdel.trans happly).trans ?_
  exact SameBooks.of_eq rfl rfl rfl

theorem dismissed_sameBooks (allRefund : Bool) : SameBooks s (s.dismissed a allRefund) := by
  have hcancel : SameBooks s (s.cancelCandidate a allRefund) := setAccount_sameBooks s a _
  refine hcancel.trans ?_
  exact SameBooks.of_eq rfl rfl rfl

variable {s s' : StateDB} {c : Address}

theorem updateNextEpochValidatorVoteSet_sameBooks
    (h : updateNextEpochValidatorVoteSet rt bc s c = .ok (s', ops)) : SameBooks s s' := by
  obtain ⟨-, ⟨-, rfl, -⟩ | ⟨rfl, -⟩⟩ := updateNextEpochValidatorVoteSet_ok h
  · exact forEachProxied_sameBooks s rt.trieOrder c fun t u apb => moveToDeposit_sameBooks t c u apb
  · exact SameBooks.refl _

theorem registerApplyCb_sameBooks {pubkey signature : Bytes} {commission : Nat}
    (h : registerApplyCb rt bc tx pubkey signature commission s = .ok (s', ops)) :
    SameBooks s s' := by
  obtain ⟨-, -, -, -, h⟩ := registerApplyCb_ok h
  exact (enrolled_sameBooks s tx.sender (blsPubKey pubkey) commission tx.value).trans
    (updateNextEpochValidatorVoteSet_sameBooks h)

theorem unRegisterApplyCb_sameBooks
    (h : unRegisterApplyCb rt bc tx s = .ok (s', ops)) : SameBooks s s' := by
  obtain ⟨-, -, -, -, allRefund, rfl⟩ := unRegisterApplyCb_ok h
  have hnew : SameBooks s (s.getOrNewStateObject tx.sender) :=
    (getOrNewStateObject_posts s tx.sender).sameBooks_zero
  have hloop := hnew.trans (forEachProxied_sameBooks _ rt.trieOrder tx.sender fun t u apb =>
    releaseUser_sameBooks t tx.sender u apb)
  exact hloop.trans (dismissed_sameBooks _ tx.sender allRefund)

theorem delegateApplyCb_sameBooks
    (h : delegateApplyCb rt bc tx c s = .ok (s', ops)) : SameBooks s s' := by
  obtain ⟨-, -, hcase⟩ := delegateApplyCb_ok h
  have hnew : SameBooks s ((s.delegated c tx.sender tx.value).getOrNewStateObject tx.sender) :=
    (delegated_sameBooks s c tx.sender tx.value).trans
      (getOrNewStateObject_posts _ tx.sender).sameBooks_zero
  rcases hcase with ⟨rfl, -⟩ | h
  · exact hnew
  · exact hnew.trans (updateNextEpochValidatorVoteSet_sameBooks h)

theorem unDelegateApplyCb_sameBooks {amount : Nat}
    (h : unDelegateApplyCb bc tx c amount s = .ok (s', ops)) : SameBooks s s' := by
  obtain ⟨-, -, -, -, rfl⟩ := unDelegateApplyCb_ok h
  split
  · exact released_sameBooks _ _ _ _
  · exact (announced_sameBooks _ _ _ _).trans (released_sameBooks _ _ _ _)

theorem withdrawRewardApplyCb_sameBooks {d : Address}
    (h : withdrawRewardApplyCb tx d s = .ok (s', ops)) : SameBooks s s' := by
  obtain ⟨-, -, rfl⟩ := withdrawRewardApplyCb_ok h
  exact ((subRewardBalanceByDelegateAddress_posts s tx.sender d _).trans
    (add_posts _ (.balance tx.sender) _)).sameBooks (balanced_withdraw tx.sender d _)

/-- **A callback keeps the books.** -/
theorem applyCb_sameBooks (h : applyCb rt bc tx s = .ok (s', ops)) : SameBooks s s' := by
  rw [applyCb] at h
  cases hcall : tx.call with
  | register =>
    rw [hcall] at h
    exact registerApplyCb_sameBooks h
  | unRegister =>
    rw [hcall] at h
    exact unRegisterApplyCb_sameBooks h
  | delegate =>
    rw [hcall] at h
    exact delegateApplyCb_sameBooks h
  | unDelegate =>
    rw [hcall] at h
    exact unDelegateApplyCb_sameBooks h
  | withdrawReward =>
    rw [hcall] at h
    exact withdrawRewardApplyCb_sameBooks h
  | setCommission =>
    rw [hcall] at h
    obtain ⟨-, -, rfl⟩ := setCommissionApplyCb_ok h
    exact setAccount_sameBooks _ _ _
  | unBanned =>
    rw [hcall] at h
    obtain ⟨-, -, -, rfl⟩ := unBannedApplyCb_ok h
    have hnew := (getOrNewStateObject_posts s tx.sender).zero_trans
      (getOrNewStateObject_posts _ tx.sender)
    exact (hnew.sameBooks_zero.trans (setBanned_sameBooks _ tx.sender false)).trans
      (clearBannedSetByAddress_sameBooks _ tx.sender)

end Callbacks

end StateDB

end NeatPoS
