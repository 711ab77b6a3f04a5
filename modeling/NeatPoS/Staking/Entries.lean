import NeatPoS.Staking.Standing

/-!
# What the callbacks do to the entries

A callback changes the entries of one candidate.  `applyCb_change` says how, for each address `c`:
the entries of `c` are what they were, or they are as they should be (`Open`), or `c` has just
unregistered.  The transaction may have been anything; this is all that the invariants need to know
about it.

Along with the entries come the totals, which are kept because the books are, and the set of
addresses with refunds to pay.
-/

set_option autoImplicit false

namespace NeatPoS

open DFinsupp Ledger

variable {a c : Address} {amount : Nat}

namespace StateDB

variable {rt : Runtime} {bc : ChainView} {tx : StakingTx} {s s' : StateDB}
  {ops : List UpdateNextEpochOp}

/-! ## Entries after a callback -/

/-- A posting to one entry. -/
theorem Posts.entry_ite {Δ : Posting} {u : Address} {p d r : Int} (h : Posts s s' Δ)
    (hp : ∀ c' u', Δ (.proxied c' u') = if c' = c ∧ u' = u then p else 0)
    (hd : ∀ c' u', Δ (.depositProxied c' u') = if c' = c ∧ u' = u then d else 0)
    (hr : ∀ c' u', Δ (.pendingRefund c' u') = if c' = c ∧ u' = u then r else 0) (c' u' : Address) :
    s'.getAccountProxiedBalance c' u' =
      if c' = c ∧ u' = u then
        ⟨s.amounts (.proxied c u) + p, s.amounts (.depositProxied c u) + d,
          s.amounts (.pendingRefund c u) + r⟩
      else s.getAccountProxiedBalance c' u' := by
  rw [h.entry, hp, hd, hr]
  by_cases hcu : c' = c ∧ u' = u
  · obtain ⟨rfl, rfl⟩ := hcu
    simp
  · simp only [if_neg hcu, add_zero]
    rfl

theorem delegated_entry (s : StateDB) (c u : Address) (x : Int) (c' u' : Address) :
    (s.delegated c u x).getAccountProxiedBalance c' u' =
      if c' = c ∧ u' = u then
        ⟨s.amounts (.proxied c u) + x, s.amounts (.depositProxied c u) + 0,
          s.amounts (.pendingRefund c u) + 0⟩
      else s.getAccountProxiedBalance c' u' := by
  apply (delegated_posts s c u x).entry_ite <;>
    simp [proxiedPosting, single_apply, eq_comm]

theorem released_entry (s : StateDB) (c u : Address) (x : Int) (c' u' : Address) :
    (s.released c u x).getAccountProxiedBalance c' u' =
      if c' = c ∧ u' = u then
        ⟨s.amounts (.proxied c u) + -x, s.amounts (.depositProxied c u) + 0,
          s.amounts (.pendingRefund c u) + 0⟩
      else s.getAccountProxiedBalance c' u' := by
  apply (released_posts s c u x).entry_ite <;>
    simp [proxiedPosting, single_apply, eq_comm, -single_neg]

theorem announced_entry (s : StateDB) (c u : Address) (x : Int) (c' u' : Address) :
    (s.announced c u x).getAccountProxiedBalance c' u' =
      if c' = c ∧ u' = u then
        ⟨s.amounts (.proxied c u) + 0, s.amounts (.depositProxied c u) + 0,
          s.amounts (.pendingRefund c u) + x⟩
      else s.getAccountProxiedBalance c' u' := by
  apply (announced_posts s c u x).entry_ite <;>
    simp [pendingPosting, single_apply, eq_comm]

theorem moveToDeposit_entry (s : StateDB) (c u : Address) (apb : AccountProxiedBalance)
    (c' u' : Address) :
    (moveToDeposit c s u apb).getAccountProxiedBalance c' u' =
      if c' = c ∧ u' = u then
        ⟨s.amounts (.proxied c u) + -apb.proxiedBalance,
          s.amounts (.depositProxied c u) + apb.proxiedBalance, s.amounts (.pendingRefund c u) + 0⟩
      else s.getAccountProxiedBalance c' u' := by
  apply (moveToDeposit_posts s c u apb).entry_ite <;>
    simp [proxiedPosting, depositPosting, single_apply, eq_comm, -single_neg]

/-! ## The votes of the next epoch are updated -/

/-- The deposits of a candidate are brought up to date: all or nothing of what a user has proxied
becomes a deposit. -/
structure Deposits (s s' : StateDB) (c : Address) : Prop where
  entry : ∀ u, s'.getAccountProxiedBalance c u = s.getAccountProxiedBalance c u ∨
    s'.getAccountProxiedBalance c u =
      ⟨0, s.amounts (.depositProxied c u) + s.amounts (.proxied c u), s.amounts (.pendingRefund c u)⟩
  other : ∀ c' u, c' ≠ c → s'.getAccountProxiedBalance c' u = s.getAccountProxiedBalance c' u
  candidate : ∀ a, s'.isCandidate a = s.isCandidate a
  refundSet : s'.delegateRefundSet = s.delegateRefundSet
  reward : ∀ a d, s'.amounts (.reward a d) = s.amounts (.reward a d)

theorem Deposits.refl (s : StateDB) (c : Address) : Deposits s s c :=
  ⟨fun _ => .inl rfl, fun _ _ _ => rfl, fun _ => rfl, rfl, fun _ _ => rfl⟩

theorem forEachProxied_deposits (s : StateDB) (it : Iteration Address) (c : Address) :
    Deposits s (s.forEachProxied it c (moveToDeposit c)) c where
  entry := by
    intro u
    rw [s.forEachProxied_entry (g := fun e =>
      ⟨0, e.depositProxiedBalance + e.proxiedBalance, e.pendingRefundBalance⟩) it c]
    · split
      · exact .inr rfl
      · exact .inl rfl
    · intro t v
      rw [moveToDeposit_entry, if_pos ⟨rfl, rfl⟩]
      simp [getAccountProxiedBalance]
    · intro t v w apb hw
      rw [moveToDeposit_entry, if_neg fun h => hw h.2]
  other := by
    intro c' u hc'
    refine s.forEachProxied_frame (fun t => t.getAccountProxiedBalance c' u) it c fun t v apb => ?_
    rw [moveToDeposit_entry, if_neg fun h => hc' h.1]
  candidate := fun a => s.forEachProxied_frame (fun t => t.isCandidate a) it c fun t v apb =>
    (moveToDeposit_posts t c v apb).isCandidate a
  refundSet := s.forEachProxied_frame (fun t => t.delegateRefundSet) it c fun t v apb => by
    simp [moveToDeposit, subProxiedBalanceByUser, addDepositProxiedBalanceByUser]
  reward := fun a d => s.forEachProxied_frame (fun t => t.amounts (.reward a d)) it c fun t v apb => by
    simp [(moveToDeposit_posts t c v apb).apply, proxiedPosting, depositPosting]

theorem updateNextEpochValidatorVoteSet_deposits
    (h : updateNextEpochValidatorVoteSet rt bc s c = .ok (s', ops)) : Deposits s s' c := by
  obtain ⟨-, ⟨-, rfl, -⟩ | ⟨rfl, -⟩⟩ := updateNextEpochValidatorVoteSet_ok h
  · exact forEachProxied_deposits s rt.trieOrder c
  · exact Deposits.refl _ c

theorem Open.deposits (h : Open s c) (hd : Deposits s s' c) : Open s' c := by
  intro u
  rcases hd.entry u with he | he
  · rw [he]
    exact h u
  rw [he]
  obtain ⟨hp, hr, hc⟩ := h u
  simp only [getAccountProxiedBalance] at hp hr hc
  refine ⟨le_refl 0, hr, ?_⟩
  show s.amounts (.pendingRefund c u) ≤ s.amounts (.depositProxied c u) + s.amounts (.proxied c u)
  omega

/-- The books are kept, and neither refunds nor rewards are changed. -/
theorem Kept.of_same (h : Kept s) (hb : SameBooks s s')
    (hset : s'.delegateRefundSet = s.delegateRefundSet)
    (hpending : ∀ c u, s'.amounts (.pendingRefund c u) = s.amounts (.pendingRefund c u))
    (hreward : ∀ a d, s'.amounts (.reward a d) = s.amounts (.reward a d)) : Kept s' where
  law := fun l hl => (hb.law l).trans (h.law l hl)
  marked := by
    intro c u hcu
    rw [hset]
    rw [hpending] at hcu
    exact h.marked c u hcu
  coherent := by
    rw [hset]
    exact h.coherent
  reward := by
    intro a d
    rw [hreward]
    exact h.reward a d

theorem Deposits.pending (h : Deposits s s' c) (c' u : Address) :
    s'.amounts (.pendingRefund c' u) = s.amounts (.pendingRefund c' u) := by
  by_cases hc : c' = c
  · subst hc
    rcases h.entry u with he | he <;>
      simp only [getAccountProxiedBalance, AccountProxiedBalance.mk.injEq] at he
    · exact he.2.2
    · exact he.2.2
  · exact congrArg AccountProxiedBalance.pendingRefundBalance (h.other c' u hc)

/-! ## The callbacks -/

/-- What a callback may do to the entries of an address. -/
inductive Change (tx : StakingTx) (s s' : StateDB) (c : Address) : Prop
  | kept (entry : ∀ u, s'.getAccountProxiedBalance c u = s.getAccountProxiedBalance c u)
      (candidate : s'.isCandidate c = s.isCandidate c)
  | opened (h : Open s' c)
  /-- The address has unregistered: the deposits are announced for refund. -/
  | quits (hcall : tx.call = .unRegister) (hsender : tx.sender = c) (h : Open s c)
      (candidate : s'.isCandidate c = false)
      (entry : ∀ u, s'.getAccountProxiedBalance c u =
        ⟨0, s.amounts (.depositProxied c u),
          s.amounts (.pendingRefund c u) + s.amounts (.depositProxied c u)⟩)

theorem setAccount_isCandidate_of_ne (s : StateDB) (f : Account → Account) (h : c ≠ a) :
    (s.setAccount a f).isCandidate c = s.isCandidate c := by
  rw [← (getOrNewStateObject_still s a).candidate c]
  simp [setAccount, markStateObjectDirty, isCandidate, Function.update_of_ne h]

theorem setAccount_isCandidate_self (s : StateDB) {f : Account → Account} {b : Bool}
    (hf : ∀ acc, (f acc).candidate = b) : (s.setAccount a f).isCandidate a = b := by
  simp [setAccount, markStateObjectDirty, isCandidate, hf]

/-- An address without keys in its trie has no entries. -/
theorem Sound.entry_eq_zero (h : Sound s) (hc : s.proxiedTrie c = ∅) (u : Address) :
    s.getAccountProxiedBalance c u = ⟨0, 0, 0⟩ := by
  by_contra hne
  have hu := (h.trie c u).2 hne
  rw [hc] at hu
  exact Finset.notMem_empty u hu

/-- A candidate is not about to leave. -/
theorem Sound.open_of_candidate (h : Sound s) (hc : s.isCandidate c = true) : Open s c := by
  rcases h.standing c with ho | ho
  · exact ho
  · rw [ho.notCandidate] at hc
    cases hc

@[simp] theorem delegated_refundSet (s : StateDB) (c u : Address) (x : Int) :
    (s.delegated c u x).delegateRefundSet = s.delegateRefundSet := by
  simp [delegated, subBalance, addDelegateBalance, addProxiedBalanceByUser]

@[simp] theorem released_refundSet (s : StateDB) (c u : Address) (x : Int) :
    (s.released c u x).delegateRefundSet = s.delegateRefundSet := by
  simp [released, subProxiedBalanceByUser, subDelegateBalance, addBalance]

@[simp] theorem announced_refundSet (s : StateDB) (c u : Address) (x : Int) :
    (s.announced c u x).delegateRefundSet = s.delegateRefundSet.mark c := by
  simp [announced, markDelegateAddressRefund, addPendingRefundBalanceByUser]

theorem Open.delegated (h : Open s c) (u : Address) (x : Nat) : Open (s.delegated c u x) c := by
  intro v
  rw [delegated_entry]
  split
  · obtain ⟨hp, hr, hc⟩ := h u
    simp only [getAccountProxiedBalance] at hp hr hc
    constructor <;> dsimp only <;> omega
  · exact h v

theorem applyForCandidate_amounts (s : StateDB) (a : Address) (pubkey : Bytes) (commission : Nat) :
    (s.applyForCandidate a pubkey commission).amounts = s.amounts :=
  setAccount_amounts s a _

theorem cancelCandidate_amounts (s : StateDB) (a : Address) (allRefund : Bool) :
    (s.cancelCandidate a allRefund).amounts = s.amounts :=
  setAccount_amounts s a _

theorem enrolled_amounts (s : StateDB) (a : Address) (pubkey : Bytes) (commission : Nat) (x : Int) :
    (s.enrolled a pubkey commission x).amounts = (s.getCandidateSet.delegated a a x).amounts :=
  applyForCandidate_amounts (s.getCandidateSet.delegated a a x) a pubkey commission

theorem enrolled_entry (s : StateDB) (a : Address) (pubkey : Bytes) (commission : Nat) (x : Int)
    (c u : Address) :
    (s.enrolled a pubkey commission x).getAccountProxiedBalance c u =
      (s.getCandidateSet.delegated a a x).getAccountProxiedBalance c u := by
  rw [getAccountProxiedBalance, enrolled_amounts]
  rfl

theorem enrolled_refundSet (s : StateDB) (a : Address) (pubkey : Bytes) (commission : Nat) (x : Int) :
    (s.enrolled a pubkey commission x).delegateRefundSet = s.delegateRefundSet := by
  simp [enrolled, markAddressCandidate, applyForCandidate, getCandidateSet]

theorem enrolled_isCandidate_of_ne (s : StateDB) (pubkey : Bytes) (commission : Nat)
    (x : Int) (hc : c ≠ a) : (s.enrolled a pubkey commission x).isCandidate c = s.isCandidate c := by
  have hset : ((s.getCandidateSet.delegated a a x).applyForCandidate a pubkey commission).isCandidate
      c = (s.getCandidateSet.delegated a a x).isCandidate c :=
    setAccount_isCandidate_of_ne _ _ hc
  rw [(delegated_posts s.getCandidateSet a a x).isCandidate] at hset
  exact hset

theorem registerApplyCb_change {pubkey signature : Bytes} {commission : Nat} (hs : Sound s)
    (h : registerApplyCb rt bc tx pubkey signature commission s = .ok (s', ops)) :
    Kept s' ∧ ∀ c, Change tx s s' c := by
  have hbooks := registerApplyCb_sameBooks h
  obtain ⟨hclean, -, -, -, h⟩ := registerApplyCb_ok h
  have hdep := updateNextEpochValidatorVoteSet_deposits h
  have hpostsd := delegated_posts s.getCandidateSet tx.sender tx.sender tx.value
  refine ⟨hs.toKept.of_same hbooks (hdep.refundSet.trans (enrolled_refundSet s _ _ _ _))
    (fun c u => ?_) fun a d => ?_, fun c => ?_⟩
  · rw [hdep.pending, enrolled_amounts, hpostsd.apply]
    simp [proxiedPosting, getCandidateSet]
  · rw [hdep.reward, enrolled_amounts, hpostsd.apply]
    simp [proxiedPosting, getCandidateSet]
  by_cases hc : c = tx.sender
  · subst hc
    have htrie : s.proxiedTrie tx.sender = ∅ := by
      simp only [isCleanAddress, Bool.and_eq_true, decide_eq_true_eq] at hclean
      exact hclean.2
    have hopen : Open s.getCandidateSet tx.sender := by
      intro u
      have hzero : s.getCandidateSet.getAccountProxiedBalance tx.sender u = ⟨0, 0, 0⟩ :=
        hs.entry_eq_zero htrie u
      rw [hzero]
      exact ⟨le_refl 0, le_refl 0, le_refl 0⟩
    have henrolled := (hopen.delegated tx.sender tx.value).of_entry
      (enrolled_entry s tx.sender (blsPubKey pubkey) commission tx.value tx.sender)
    exact .opened (henrolled.deposits hdep)
  · refine .kept (fun u => ?_) ?_
    · rw [hdep.other c u hc, enrolled_entry, delegated_entry, if_neg fun h => hc h.1]
      rfl
    · rw [hdep.candidate, enrolled_isCandidate_of_ne s _ _ _ hc]

theorem delegateApplyCb_change (hs : Sound s)
    (h : delegateApplyCb rt bc tx c s = .ok (s', ops)) : Kept s' ∧ ∀ c', Change tx s s' c' := by
  have hbooks := delegateApplyCb_sameBooks h
  obtain ⟨hcand, -, hcase⟩ := delegateApplyCb_ok h
  generalize htdef : (s.delegated c tx.sender tx.value).getOrNewStateObject tx.sender = t at hcase
  have hstill : Still (s.delegated c tx.sender tx.value) t := htdef ▸ getOrNewStateObject_still _ _
  have hdep : Deposits t s' c := by
    rcases hcase with ⟨rfl, -⟩ | h
    · exact Deposits.refl _ c
    · exact updateNextEpochValidatorVoteSet_deposits h
  have hposts := delegated_posts s c tx.sender tx.value
  refine ⟨hs.toKept.of_same hbooks ?_ (fun c' u => ?_) fun a d => ?_, fun c' => ?_⟩
  · rw [hdep.refundSet, hstill.delegateRefundSet, delegated_refundSet]
  · rw [hdep.pending, hstill.amounts _ rfl, hposts.apply]
    simp [proxiedPosting]
  · rw [hdep.reward, hstill.amounts _ rfl, hposts.apply]
    simp [proxiedPosting]
  by_cases hc : c' = c
  · subst hc
    have hopen := (hs.open_of_candidate hcand).delegated tx.sender tx.value
    exact .opened ((hopen.of_entry (hstill.entry c')).deposits hdep)
  · refine .kept (fun u => ?_) ?_
    · rw [hdep.other c' u hc, hstill.entry, delegated_entry, if_neg fun h => hc h.1]
    · rw [hdep.candidate, hstill.candidate, hposts.isCandidate]

/-- The part of `unDelegateApplyCb` that pays at once. -/
theorem released_change (hs : Sound s) (hp : (amount : Int) ≤ s.amounts (.proxied c tx.sender)) :
    Kept (s.released c tx.sender amount) ∧ ∀ c', Change tx s (s.released c tx.sender amount) c' := by
  have hposts := released_posts s c tx.sender amount
  refine ⟨hs.toKept.of_same (released_sameBooks s _ _ _) (released_refundSet s _ _ _) (fun c' u => ?_)
    fun a d => ?_, fun c' => ?_⟩
  · rw [hposts.apply]
    simp [proxiedPosting]
  · rw [hposts.apply]
    simp [proxiedPosting]
  by_cases hc : c' = c
  · subst hc
    rcases hs.standing c' with ho | ho
    · refine .opened fun u => ?_
      rw [released_entry]
      split
      · obtain ⟨-, hr, hcov⟩ := ho tx.sender
        simp only [getAccountProxiedBalance] at hr hcov
        constructor <;> dsimp only <;> omega
      · exact ho u
    -- nothing is proxied to a candidate that is leaving, so that the amount is zero
    · have hzero : (amount : Int) = 0 := by
        have hproxied := (ho.entry tx.sender).proxied
        simp only [getAccountProxiedBalance] at hproxied
        omega
      refine .kept (fun u => ?_) (hposts.isCandidate c')
      rw [released_entry, hzero]
      split
      · rename_i hu
        rw [hu.2]
        simp [getAccountProxiedBalance]
      · rfl
  · refine .kept (fun u => ?_) (hposts.isCandidate c')
    rw [released_entry, if_neg fun h => hc h.1]

/-- The part of `unDelegateApplyCb` that announces a refund. -/
theorem announced_change (hs : Sound s) (hlt : ¬ (amount : Int) ≤ s.amounts (.proxied c tx.sender))
    (hamount : (amount : Int) ≤ s.amounts (.proxied c tx.sender) +
      (s.amounts (.depositProxied c tx.sender) - s.amounts (.pendingRefund c tx.sender)))
    (hs' : s' = (s.announced c tx.sender (amount - s.amounts (.proxied c tx.sender))).released c
      tx.sender (s.amounts (.proxied c tx.sender))) :
    Kept s' ∧ ∀ c', Change tx s s' c' := by
  have hposts := (announced_posts s c tx.sender (amount - s.amounts (.proxied c tx.sender))).trans
    (released_posts _ c tx.sender (s.amounts (.proxied c tx.sender)))
  rw [← hs'] at hposts
  have hbooks : SameBooks s s' := hs' ▸ (announced_sameBooks s c tx.sender _).trans
    (released_sameBooks _ c tx.sender _)
  have hset : s'.delegateRefundSet = s.delegateRefundSet.mark c := by
    rw [hs', released_refundSet, announced_refundSet]
  have hentry (c' u : Address) : s'.getAccountProxiedBalance c' u =
      if c' = c ∧ u = tx.sender then
        ⟨0, s.amounts (.depositProxied c tx.sender), s.amounts (.pendingRefund c tx.sender) +
          (amount - s.amounts (.proxied c tx.sender))⟩
      else s.getAccountProxiedBalance c' u := by
    rw [hs', released_entry, (announced_posts s c tx.sender _).apply,
      (announced_posts s c tx.sender _).apply, (announced_posts s c tx.sender _).apply,
      announced_entry]
    split
    · simp [pendingPosting]
    · rfl
  refine ⟨⟨fun l hl => (hbooks.law l).trans (hs.law l hl), fun c' u hcu => ?_, hset ▸ hs.coherent.mark c,
    fun a d => ?_⟩, fun c' => ?_⟩
  · rw [hset, CachedSet.mem_addresses_mark]
    by_cases hc : c' = c
    · exact .inl hc
    have hr := congrArg AccountProxiedBalance.pendingRefundBalance (hentry c' u)
    rw [if_neg fun h => hc h.1] at hr
    simp only [getAccountProxiedBalance] at hr
    rw [hr] at hcu
    exact .inr (hs.marked c' u hcu)
  · rw [hposts.apply]
    simpa [proxiedPosting, pendingPosting] using hs.reward a d
  · by_cases hc : c' = c
    · subst hc
      rcases hs.standing c' with ho | ho
      · refine .opened fun u => ?_
        rw [hentry]
        split
        · obtain ⟨hp, hr, hcov⟩ := ho tx.sender
          simp only [getAccountProxiedBalance] at hp hr hcov
          constructor <;> dsimp only <;> omega
        · exact ho u
      · obtain ⟨hp, hd, hr⟩ := ho.entry tx.sender
        simp only [getAccountProxiedBalance] at hp hd hr
        omega
    · refine .kept (fun u => ?_) (hposts.isCandidate c')
      rw [hentry, if_neg fun h => hc h.1]

theorem unDelegateApplyCb_change (hs : Sound s)
    (h : unDelegateApplyCb bc tx c amount s = .ok (s', ops)) : Kept s' ∧ ∀ c', Change tx s s' c' := by
  obtain ⟨-, -, -, hamount, hs'⟩ := unDelegateApplyCb_ok h
  split at hs'
  · rename_i hle
    rw [hs']
    exact released_change hs hle
  · rename_i hlt
    exact announced_change hs hlt hamount hs'

theorem withdrawRewardApplyCb_change {d : Address} (hs : Sound s)
    (h : withdrawRewardApplyCb tx d s = .ok (s', ops)) : Kept s' ∧ ∀ c, Change tx s s' c := by
  have hbooks := withdrawRewardApplyCb_sameBooks h
  obtain ⟨-, -, hs'⟩ := withdrawRewardApplyCb_ok h
  have hposts : Posts s s' (rewardPosting tx.sender d (-s.amounts (.reward tx.sender d)) +
      single (.balance tx.sender) (s.amounts (.reward tx.sender d))) := by
    rw [hs']
    exact (subRewardBalanceByDelegateAddress_posts s tx.sender d _).trans
      (add_posts _ (.balance tx.sender) _)
  have hset : s'.delegateRefundSet = s.delegateRefundSet := by
    rw [hs']
    simp [subRewardBalanceByDelegateAddress, addBalance]
  have hentry (c u : Address) :
      s'.getAccountProxiedBalance c u = s.getAccountProxiedBalance c u := by
    apply hposts.getAccountProxiedBalance <;> simp [rewardPosting]
  refine ⟨⟨fun l hl => (hbooks.law l).trans (hs.law l hl), fun c u hcu => ?_, hset ▸ hs.coherent,
    fun a d' => ?_⟩, fun c => .kept (hentry c) (hposts.isCandidate c)⟩
  · rw [hset]
    have hr := congrArg AccountProxiedBalance.pendingRefundBalance (hentry c u)
    simp only [getAccountProxiedBalance] at hr
    rw [hr] at hcu
    exact hs.marked c u hcu
  · have hreward := hs.reward a d'
    rw [hposts.apply]
    by_cases hk : tx.sender = a ∧ d = d'
    · obtain ⟨rfl, rfl⟩ := hk
      simp [rewardPosting]
    · simpa [rewardPosting, single_apply, hk] using hreward

/-! ### Unregister -/

theorem releaseUser_entry_self (s : StateDB) (c u : Address) :
    (releaseUser c s u (s.getAccountProxiedBalance c u)).getAccountProxiedBalance c u =
      ⟨0, (s.getAccountProxiedBalance c u).depositProxiedBalance,
        if 0 < (s.getAccountProxiedBalance c u).depositProxiedBalance then
          (s.getAccountProxiedBalance c u).pendingRefundBalance +
            (s.getAccountProxiedBalance c u).depositProxiedBalance
        else (s.getAccountProxiedBalance c u).pendingRefundBalance⟩ := by
  have hreleased := released_entry s c u (s.getAccountProxiedBalance c u).proxiedBalance c u
  have hamounts := hreleased
  rw [getAccountProxiedBalance, AccountProxiedBalance.mk.injEq] at hamounts
  rw [releaseUser_eq]
  by_cases hd : 0 < (s.getAccountProxiedBalance c u).depositProxiedBalance
  · rw [if_pos hd, if_pos hd, announced_entry, if_pos ⟨rfl, rfl⟩, hamounts.1, hamounts.2.1,
      hamounts.2.2]
    simp [getAccountProxiedBalance]
  · rw [if_neg hd, if_neg hd, hreleased]
    simp [getAccountProxiedBalance]

theorem releaseUser_entry_of_ne (s : StateDB) {u c' u' : Address} (apb : AccountProxiedBalance)
    (h : ¬ (c' = c ∧ u' = u)) :
    (releaseUser c s u apb).getAccountProxiedBalance c' u' = s.getAccountProxiedBalance c' u' := by
  rw [releaseUser_eq]
  split
  · rw [announced_entry, if_neg h, released_entry, if_neg h]
  · rw [released_entry, if_neg h]

/-- What the loop of `unRegisterApplyCb` does to the entries of the candidate. -/
theorem forEachProxied_releaseUser_entry (hs : Sound s) (it : Iteration Address) (c u : Address) :
    (s.forEachProxied it c (releaseUser c)).getAccountProxiedBalance c u =
      ⟨0, s.amounts (.depositProxied c u),
        s.amounts (.pendingRefund c u) + s.amounts (.depositProxied c u)⟩ := by
  rw [s.forEachProxied_entry (g := fun e => ⟨0, e.depositProxiedBalance,
    if 0 < e.depositProxiedBalance then e.pendingRefundBalance + e.depositProxiedBalance
    else e.pendingRefundBalance⟩) it c (fun t v => releaseUser_entry_self t c v)
    fun t v w apb hw => releaseUser_entry_of_ne t apb fun h => hw h.2]
  by_cases hu : u ∈ s.proxiedTrie c
  · rw [if_pos hu]
    by_cases hd : 0 < (s.getAccountProxiedBalance c u).depositProxiedBalance
    · rw [if_pos hd]
      rfl
    · have hzero : s.amounts (.depositProxied c u) = 0 :=
        le_antisymm (Int.not_lt.1 hd) (hs.deposit_nonneg c u)
      rw [if_neg hd, hzero, add_zero]
      exact congrArg (fun x => AccountProxiedBalance.mk 0 x (s.amounts (.pendingRefund c u))) hzero
  · have hzero : s.getAccountProxiedBalance c u = ⟨0, 0, 0⟩ := by
      by_contra hne
      exact hu ((hs.trie c u).2 hne)
    have hamounts := hzero
    rw [getAccountProxiedBalance, AccountProxiedBalance.mk.injEq] at hamounts
    rw [if_neg hu, hzero, hamounts.2.1, hamounts.2.2]
    rfl

/-- What a round of that loop does to the refund set. -/
structure Marks (c : Address) (s s' : StateDB) : Prop where
  coherent : s.delegateRefundSet.Coherent → s'.delegateRefundSet.Coherent
  mono : ∀ a ∈ s.delegateRefundSet.addresses, a ∈ s'.delegateRefundSet.addresses
  deposit : ∀ u, s'.amounts (.depositProxied c u) = s.amounts (.depositProxied c u)

theorem releaseUser_refundSet (s : StateDB) (c u : Address) (apb : AccountProxiedBalance) :
    (releaseUser c s u apb).delegateRefundSet =
      if 0 < apb.depositProxiedBalance then s.delegateRefundSet.mark c else s.delegateRefundSet := by
  rw [releaseUser_eq]
  split
  · rw [announced_refundSet, released_refundSet]
  · rw [released_refundSet]

theorem releaseUser_marks (s : StateDB) (c u : Address) (apb : AccountProxiedBalance) :
    Marks c s (releaseUser c s u apb) where
  coherent := by
    intro h
    rw [releaseUser_refundSet]
    split
    · exact h.mark c
    · exact h
  mono := by
    intro a ha
    rw [releaseUser_refundSet]
    split
    · exact CachedSet.mem_addresses_mark.2 (.inr ha)
    · exact ha
  deposit := by
    intro v
    rw [releaseUser_eq]
    split
    · rw [(announced_posts _ c u _).apply, (released_posts s c u _).apply]
      simp [pendingPosting, proxiedPosting]
    · rw [(released_posts s c u _).apply]
      simp [proxiedPosting]

/-- The address is in the refund set if there was anything to refund. -/
theorem foldl_releaseUser_marks (c : Address) (l : List Address) (s : StateDB) :
    Marks c s (l.foldl (fun t u => releaseUser c t u (t.getAccountProxiedBalance c u)) s) ∧
      ∀ u ∈ l, 0 < s.amounts (.depositProxied c u) →
        c ∈ (l.foldl (fun t u => releaseUser c t u (t.getAccountProxiedBalance c u))
          s).delegateRefundSet.addresses := by
  induction l generalizing s with
  | nil => exact ⟨⟨fun h => h, fun _ h => h, fun _ => rfl⟩, fun _ h => absurd h List.not_mem_nil⟩
  | cons v _ ih =>
    have hround := releaseUser_marks s c v (s.getAccountProxiedBalance c v)
    obtain ⟨hrest, hmem⟩ := ih (releaseUser c s v (s.getAccountProxiedBalance c v))
    refine ⟨⟨fun h => hrest.coherent (hround.coherent h), fun a ha => hrest.mono a (hround.mono a ha),
      fun u => (hrest.deposit u).trans (hround.deposit u)⟩, fun u hu hpos => ?_⟩
    rcases List.mem_cons.1 hu with rfl | hu
    · refine hrest.mono c ?_
      have hpos' : 0 < (s.getAccountProxiedBalance c u).depositProxiedBalance := hpos
      rw [releaseUser_refundSet, if_pos hpos']
      exact CachedSet.mem_addresses_mark.2 (.inl rfl)
    · refine hmem u hu ?_
      rwa [hround.deposit u]

theorem dismissed_amounts (s : StateDB) (a : Address) (allRefund : Bool) :
    (s.dismissed a allRefund).amounts = s.amounts :=
  cancelCandidate_amounts s a allRefund

theorem dismissed_refundSet (s : StateDB) (a : Address) (allRefund : Bool) :
    (s.dismissed a allRefund).delegateRefundSet = s.delegateRefundSet := by
  simp [dismissed, getCandidateSet, clearCandidateSetByAddress, cancelCandidate]

theorem dismissed_isCandidate (s : StateDB) (a c : Address) (allRefund : Bool) :
    (s.dismissed a allRefund).isCandidate c = if c = a then false else s.isCandidate c := by
  show (s.cancelCandidate a allRefund).isCandidate c = _
  by_cases hc : c = a
  · subst hc
    rw [if_pos rfl]
    exact setAccount_isCandidate_self s fun _ => rfl
  · rw [if_neg hc]
    exact setAccount_isCandidate_of_ne s _ hc

/-- The entries of a candidate that has unregistered: the deposits are announced for refund. -/
theorem unRegisterApplyCb_entry (hs : Sound s) (h : unRegisterApplyCb rt bc tx s = .ok (s', ops))
    (u : Address) : s'.getAccountProxiedBalance tx.sender u =
      ⟨0, s.amounts (.depositProxied tx.sender u),
        s.amounts (.pendingRefund tx.sender u) + s.amounts (.depositProxied tx.sender u)⟩ := by
  obtain ⟨-, -, -, -, _, hs'⟩ := unRegisterApplyCb_ok h
  have hstill := getOrNewStateObject_still s tx.sender
  have hentry := forEachProxied_releaseUser_entry (hs.still hstill) rt.trieOrder tx.sender u
  rw [hstill.amounts _ rfl, hstill.amounts _ rfl] at hentry
  rw [← hentry, hs', getAccountProxiedBalance, dismissed_amounts]
  rfl

theorem unRegisterApplyCb_change (hs : Sound s) (hcall : tx.call = .unRegister)
    (h : unRegisterApplyCb rt bc tx s = .ok (s', ops)) : Kept s' ∧ ∀ c, Change tx s s' c := by
  have hbooks := unRegisterApplyCb_sameBooks h
  obtain ⟨hcand, -, -, -, _, hs'⟩ := unRegisterApplyCb_ok h
  have hopen := hs.open_of_candidate hcand
  have hstill := getOrNewStateObject_still s tx.sender
  have hsound := hs.still hstill
  generalize s.getOrNewStateObject tx.sender = s₀ at hs' hstill hsound
  have hframe {β : Type} (f : StateDB → β)
      (hf : ∀ t u apb, f (releaseUser tx.sender t u apb) = f t) :=
    s₀.forEachProxied_frame f rt.trieOrder tx.sender hf
  have hmarks := foldl_releaseUser_marks tx.sender (rt.trieOrder.list (s₀.proxiedTrie tx.sender)) s₀
  have hself := unRegisterApplyCb_entry hs h
  have hother (c u : Address) (hc : c ≠ tx.sender) :
      s'.getAccountProxiedBalance c u = s.getAccountProxiedBalance c u := by
    rw [hs', getAccountProxiedBalance, dismissed_amounts]
    have hentry := hframe (fun t => t.getAccountProxiedBalance c u) fun t v apb =>
      releaseUser_entry_of_ne t apb fun h => hc h.1
    exact hentry.trans (hstill.entry c u)
  have hset : s'.delegateRefundSet =
      (s₀.forEachProxied rt.trieOrder tx.sender (releaseUser tx.sender)).delegateRefundSet := by
    rw [hs', dismissed_refundSet]
  have hmono (a : Address) (ha : a ∈ s.delegateRefundSet.addresses) :
      a ∈ s'.delegateRefundSet.addresses := by
    rw [hset]
    refine hmarks.1.mono a ?_
    rwa [hstill.delegateRefundSet]
  refine ⟨⟨fun l hl => (hbooks.law l).trans (hs.law l hl), fun c u hcu => ?_, ?_, fun a d => ?_⟩,
    fun c => ?_⟩
  · by_cases hc : c = tx.sender
    · subst hc
      have hr := congrArg AccountProxiedBalance.pendingRefundBalance (hself u)
      simp only [getAccountProxiedBalance] at hr
      by_cases hold : 0 < s.amounts (.pendingRefund tx.sender u)
      · exact hmono _ (hs.marked _ u hold)
      -- a deposit that is announced now belongs to a user with a key in the trie
      · have hpos : 0 < s₀.amounts (.depositProxied tx.sender u) := by
          rw [hstill.amounts _ rfl]
          omega
        have hu : u ∈ s₀.proxiedTrie tx.sender := by
          rw [hsound.trie tx.sender u]
          intro hzero
          rw [getAccountProxiedBalance, AccountProxiedBalance.mk.injEq] at hzero
          omega
        rw [hset]
        exact hmarks.2 u ((rt.trieOrder.mem _ _).2 hu) hpos
    · have hr := congrArg AccountProxiedBalance.pendingRefundBalance (hother c u hc)
      simp only [getAccountProxiedBalance] at hr
      rw [hr] at hcu
      exact hmono c (hs.marked c u hcu)
  · rw [hset]
    refine hmarks.1.coherent ?_
    rw [hstill.delegateRefundSet]
    exact hs.coherent
  · have hreward := hframe (fun t => t.amounts (.reward a d)) fun t v apb => by
      rw [releaseUser_eq]
      split
      · rw [(announced_posts _ tx.sender v _).apply, (released_posts t tx.sender v _).apply]
        simp [pendingPosting, proxiedPosting]
      · rw [(released_posts t tx.sender v _).apply]
        simp [proxiedPosting]
    rw [hs', dismissed_amounts, hreward, hstill.amounts _ rfl]
    exact hs.reward a d
  · by_cases hc : c = tx.sender
    · subst hc
      refine .quits hcall rfl hopen ?_ hself
      rw [hs', dismissed_isCandidate, if_pos rfl]
    · refine .kept (fun u => hother c u hc) ?_
      have hcandidate := hframe (fun t => t.isCandidate c) fun t v apb => by
        rw [releaseUser_eq]
        split
        · rw [(announced_posts _ tx.sender v _).isCandidate, (released_posts t tx.sender v _).isCandidate]
        · rw [(released_posts t tx.sender v _).isCandidate]
      rw [hs', dismissed_isCandidate, if_neg hc, hcandidate, hstill.candidate]

/-- **What a callback does to the entries.** -/
theorem applyCb_change (hs : Sound s) (h : applyCb rt bc tx s = .ok (s', ops)) :
    Kept s' ∧ ∀ c, Change tx s s' c := by
  have hstill (ht : Still s s') : Kept s' ∧ ∀ c, Change tx s s' c :=
    ⟨hs.toKept.still ht, fun c => .kept (ht.entry c) (ht.candidate c)⟩
  rw [applyCb] at h
  cases hcall : tx.call with
  | register =>
    rw [hcall] at h
    exact registerApplyCb_change hs h
  | unRegister =>
    rw [hcall] at h
    exact unRegisterApplyCb_change hs hcall h
  | delegate =>
    rw [hcall] at h
    exact delegateApplyCb_change hs h
  | unDelegate =>
    rw [hcall] at h
    exact unDelegateApplyCb_change hs h
  | withdrawReward =>
    rw [hcall] at h
    exact withdrawRewardApplyCb_change hs h
  | setCommission =>
    rw [hcall] at h
    obtain ⟨-, -, rfl⟩ := setCommissionApplyCb_ok h
    exact hstill (setAccount_still s fun _ => rfl)
  | unBanned =>
    rw [hcall] at h
    obtain ⟨-, -, -, rfl⟩ := unBannedApplyCb_ok h
    have hnew := (getOrNewStateObject_still s tx.sender).trans (getOrNewStateObject_still _ tx.sender)
    exact hstill ((hnew.trans (setBanned_still _ tx.sender false)).trans
      (clearBannedSetByAddress_still _ tx.sender))

end StateDB

end NeatPoS
