import NeatPoS.Staking.Entries

/-!
# The refunds at the end of an epoch

Step 1 of the epoch switch pays the pending refunds: it goes through the refund set, and for each
address in it through the keys of its trie.  In a sound state every pending refund is found this
way, so that afterwards the refund of each entry has been taken from its deposit
(`Sound.refundDelegates_entry`).

The rest of the switch only shifts coins (`enterNewEpoch_shifts`).  Together this says what the
switch does to a sound state: it leads to one that may be written.
-/

set_option autoImplicit false

namespace NeatPoS

open DFinsupp Ledger

/-- The entry of a user after the refund is paid. -/
def AccountProxiedBalance.refunded (e : AccountProxiedBalance) : AccountProxiedBalance :=
  if 0 < e.pendingRefundBalance then
    ⟨e.proxiedBalance, e.depositProxiedBalance - e.pendingRefundBalance, 0⟩
  else e

namespace StateDB

variable {rt : Runtime} {s s' : StateDB}

/-! ## Step 1 of the switch -/

theorem refundUser_entry_self (s : StateDB) (c u : Address) :
    (refundUser c s u (s.getAccountProxiedBalance c u)).getAccountProxiedBalance c u =
      (s.getAccountProxiedBalance c u).refunded := by
  rw [AccountProxiedBalance.refunded]
  by_cases h : 0 < (s.getAccountProxiedBalance c u).pendingRefundBalance
  · rw [if_pos h, (refundUser_posts s c u h).entry]
    simp [depositPosting, pendingPosting, getAccountProxiedBalance, Int.sub_eq_add_neg]
  · rw [if_neg h, refundUser, if_neg h]

theorem refundUser_posted (s : StateDB) (c u : Address) (apb : AccountProxiedBalance) :
    ∃ Δ, Posts s (refundUser c s u apb) Δ ∧ (∀ a d, Δ (.reward a d) = 0) ∧
      ∀ c' u', ¬ (c' = c ∧ u' = u) → Δ (.proxied c' u') = 0 ∧ Δ (.depositProxied c' u') = 0 ∧
        Δ (.pendingRefund c' u') = 0 := by
  by_cases h : 0 < apb.pendingRefundBalance
  · refine ⟨_, refundUser_posts s c u h, ?_, ?_⟩
    · intro a d
      simp [depositPosting, pendingPosting]
    · intro c' u' hne
      have hne' : ¬ (c = c' ∧ u = u') := fun h => hne ⟨h.1.symm, h.2.symm⟩
      refine ⟨?_, ?_, ?_⟩ <;> simp [depositPosting, pendingPosting, single_apply, hne']
  · refine ⟨0, ?_, fun _ _ => rfl, fun _ _ _ => ⟨rfl, rfl, rfl⟩⟩
    rw [refundUser, if_neg h]
    exact Posts.refl s

theorem refundUser_entry_of_ne (s : StateDB) {c u c' u' : Address} (apb : AccountProxiedBalance)
    (h : ¬ (c' = c ∧ u' = u)) :
    (refundUser c s u apb).getAccountProxiedBalance c' u' = s.getAccountProxiedBalance c' u' := by
  obtain ⟨_, hposts, -, hΔ⟩ := refundUser_posted s c u apb
  obtain ⟨hp, hd, hr⟩ := hΔ c' u' h
  exact hposts.getAccountProxiedBalance hp hd hr

variable (rt : Runtime)

theorem refundAddress_eq (s : StateDB) (c : Address) :
    s.refundAddress rt c =
      if (s.forEachProxied rt.trieOrder c (refundUser c)).isCandidate c then
        s.forEachProxied rt.trieOrder c (refundUser c)
      else (s.forEachProxied rt.trieOrder c (refundUser c)).clearCommission c :=
  rfl

theorem refundAddress_still (s : StateDB) (c : Address) :
    Still (s.forEachProxied rt.trieOrder c (refundUser c)) (s.refundAddress rt c) := by
  rw [refundAddress_eq]
  split
  · exact Still.refl _
  · exact setAccount_still _ fun _ => rfl

theorem refundAddress_entry (s : StateDB) (c c' u : Address) :
    (s.refundAddress rt c).getAccountProxiedBalance c' u =
      if c' = c ∧ u ∈ s.proxiedTrie c then (s.getAccountProxiedBalance c' u).refunded
      else s.getAccountProxiedBalance c' u := by
  rw [(refundAddress_still rt s c).entry]
  by_cases hc : c' = c
  · subst hc
    rw [s.forEachProxied_entry rt.trieOrder c' (fun t v => refundUser_entry_self t c' v)
      fun t v w apb hw => refundUser_entry_of_ne t apb fun h => hw h.2]
    simp only [true_and]
  · rw [if_neg fun h => hc h.1]
    exact s.forEachProxied_frame (fun t => t.getAccountProxiedBalance c' u) rt.trieOrder c
      fun t v apb => refundUser_entry_of_ne t apb fun h => hc h.1

theorem refundAddress_candidate (s : StateDB) (c a : Address) :
    (s.refundAddress rt c).isCandidate a = s.isCandidate a := by
  rw [(refundAddress_still rt s c).candidate]
  refine s.forEachProxied_frame (fun t => t.isCandidate a) rt.trieOrder c fun t v apb => ?_
  obtain ⟨_, hposts, -⟩ := refundUser_posted t c v apb
  exact hposts.isCandidate a

theorem refundAddress_reward (s : StateDB) (c a d : Address) :
    (s.refundAddress rt c).amounts (.reward a d) = s.amounts (.reward a d) := by
  rw [(refundAddress_still rt s c).amounts _ rfl]
  refine s.forEachProxied_frame (fun t => t.amounts (.reward a d)) rt.trieOrder c fun t v apb => ?_
  obtain ⟨_, hposts, hreward, -⟩ := refundUser_posted t c v apb
  rw [hposts.apply, hreward, add_zero]

theorem refundDelegates_frame (s : StateDB) {β : Type} (f : StateDB → β)
    (hset : ∀ t S, f { t with delegateRefundSet := S } = f t)
    (hf : ∀ t c, f (refundAddress rt t c) = f t) : f (s.refundDelegates rt) = f s := by
  have hloop (l : List Address) (t : StateDB) : f (l.foldl (refundAddress rt) t) = f t := by
    induction l generalizing t with
    | nil => rfl
    | cons _ _ ih => rw [List.foldl_cons, ih, hf]
  rw [refundDelegates, clearDelegateRefundSet, hset, hloop, hset]

theorem refundDelegates_entry (s : StateDB) (c u : Address) :
    (s.refundDelegates rt).getAccountProxiedBalance c u =
      if c ∈ s.delegateRefundSet.addresses ∧ u ∈ s.proxiedTrie c then
        (s.getAccountProxiedBalance c u).refunded
      else s.getAccountProxiedBalance c u := by
  have hloop := foldl_pointwise (I := fun t : StateDB => t.proxiedTrie = s.proxiedTrie)
    (f := refundAddress rt) (r := fun t a => t.getAccountProxiedBalance a)
    (g := fun a f v => if v ∈ s.proxiedTrie a then (f v).refunded else f v)
    (fun t a ht => ((refundAddress_sameBooks rt t a).proxiedTrie).trans ht)
    (fun t a ht => by
      funext v
      rw [refundAddress_entry, ht]
      simp only [true_and])
    (fun t a b _ hb => by
      funext v
      rw [refundAddress_entry, if_neg fun h => hb h.1])
    (rt.refundOrder.list s.delegateRefundSet.addresses) (rt.refundOrder.nodup _)
    { s with delegateRefundSet := s.delegateRefundSet.load } rfl c
  have hentry := congrFun hloop u
  by_cases hc : c ∈ s.delegateRefundSet.addresses
  · rw [if_pos ((rt.refundOrder.mem _ _).2 hc)] at hentry
    simp only [hc, true_and]
    exact hentry
  · rw [if_neg fun h => hc ((rt.refundOrder.mem _ _).1 h)] at hentry
    rw [if_neg fun h => hc h.1]
    exact hentry

/-- **Step 1 pays all refunds.** -/
theorem Sound.refundDelegates_entry (h : Sound s) (rt : Runtime) (c u : Address) :
    (s.refundDelegates rt).getAccountProxiedBalance c u =
      ⟨s.amounts (.proxied c u),
        s.amounts (.depositProxied c u) - s.amounts (.pendingRefund c u), 0⟩ := by
  rw [StateDB.refundDelegates_entry]
  by_cases hpos : 0 < (s.getAccountProxiedBalance c u).pendingRefundBalance
  · have hu : u ∈ s.proxiedTrie c := by
      rw [h.trie c u]
      intro hzero
      rw [hzero] at hpos
      cases hpos
    rw [if_pos ⟨h.marked c u hpos, hu⟩, AccountProxiedBalance.refunded, if_pos hpos]
    rfl
  · have hzero : s.amounts (.pendingRefund c u) = 0 := by
      have hnonneg : 0 ≤ s.amounts (.pendingRefund c u) := by
        rcases h.standing c with ho | ho
        · exact (ho u).pending
        · exact (ho.entry u).deposit.trans (ho.entry u).pending
      exact le_antisymm (Int.not_lt.1 hpos) hnonneg
    have hrefunded : (s.getAccountProxiedBalance c u).refunded = s.getAccountProxiedBalance c u := by
      rw [AccountProxiedBalance.refunded, if_neg hpos]
    rw [hrefunded, ite_self, getAccountProxiedBalance, hzero, Int.sub_zero]

/-! ## The switch -/

/-- The entry of a user at the end of the switch: what it was after Step 1, shifted. -/
theorem Sound.enterNewEpoch_entry (h : Sound s) (rt : Runtime) (vs : ValidatorSet)
    (votes : Option EpochValidatorVoteSet) (c u : Address) :
    Shifted ⟨s.amounts (.proxied c u),
        s.amounts (.depositProxied c u) - s.amounts (.pendingRefund c u), 0⟩
      ((enterNewEpoch rt vs votes s).1.getAccountProxiedBalance c u) ∧
    (s.isCandidate c = false → (enterNewEpoch rt vs votes s).1.getAccountProxiedBalance c u =
      ⟨s.amounts (.proxied c u),
        s.amounts (.depositProxied c u) - s.amounts (.pendingRefund c u), 0⟩) := by
  have hshifts := enterNewEpoch_shifts rt vs votes s
  have hentry := hshifts.entry c u
  rw [h.refundDelegates_entry] at hentry
  refine ⟨hentry, fun hc => ?_⟩
  rw [hshifts.frozen c u, h.refundDelegates_entry]
  rw [refundDelegates_frame rt s (fun t => t.isCandidate c) (fun _ _ => rfl) fun t a =>
    refundAddress_candidate rt t a c]
  exact hc

theorem enterNewEpoch_sameBooks (vs : ValidatorSet)
    (votes : Option EpochValidatorVoteSet) (s : StateDB) : SameBooks s (enterNewEpoch rt vs votes s).1 :=
  (refundDelegates_sameBooks rt s).trans (enterNewEpoch_shifts rt vs votes s).books

theorem enterNewEpoch_candidate (vs : ValidatorSet)
    (votes : Option EpochValidatorVoteSet) (s : StateDB) (c : Address) :
    (enterNewEpoch rt vs votes s).1.isCandidate c = s.isCandidate c := by
  rw [(enterNewEpoch_shifts rt vs votes s).isCandidate]
  exact refundDelegates_frame rt s (fun t => t.isCandidate c) (fun _ _ => rfl) fun t a =>
    refundAddress_candidate rt t a c

/-- **The switch leads from a sound state to one that may be written.** -/
theorem Sound.enterNewEpoch (h : Sound s) (rt : Runtime) (vs : ValidatorSet)
    (votes : Option EpochValidatorVoteSet) : Unwritten (enterNewEpoch rt vs votes s).1 := by
  have hshifts := enterNewEpoch_shifts rt vs votes s
  have hbooks := enterNewEpoch_sameBooks rt vs votes s
  have hset : (NeatPoS.enterNewEpoch rt vs votes s).1.delegateRefundSet = .clear := by
    rw [hshifts.refundSet]
    rfl
  refine h.unwritten hbooks.toTouches ⟨fun l hl => (hbooks.law l).trans (h.law l hl), fun c u hcu => ?_,
    hset ▸ CachedSet.coherent_clear, fun a d => ?_⟩ fun c => ?_
  · have hpending := (h.enterNewEpoch_entry rt vs votes c u).1.pending
    simp only [getAccountProxiedBalance] at hpending
    omega
  · rw [hshifts.reward, refundDelegates_frame rt s (fun t => t.amounts (.reward a d))
      (fun _ _ => rfl) fun t c => refundAddress_reward rt t c a d]
    exact h.reward a d
  · rcases h.standing c with ho | ho
    · refine .inl fun u => ?_
      obtain ⟨hp, hr, hcov⟩ := ho u
      simp only [getAccountProxiedBalance] at hp hr hcov
      have hentry := (h.enterNewEpoch_entry rt vs votes c u).1
      obtain ⟨hp', hd'⟩ := hentry.nonneg hp (Int.sub_nonneg_of_le hcov)
      exact ⟨hp', hentry.pending.ge, hentry.pending.trans_le hd'⟩
    · refine .inr (.inr ⟨(enterNewEpoch_candidate rt vs votes s c).trans ho.notCandidate,
        fun u => ?_⟩)
      obtain ⟨hp, hd, hr⟩ := ho.entry u
      simp only [getAccountProxiedBalance] at hp hd hr
      rw [(h.enterNewEpoch_entry rt vs votes c u).2 ho.notCandidate]
      exact ⟨hp, Int.sub_nonpos_of_le hr, rfl⟩

end StateDB

end NeatPoS
