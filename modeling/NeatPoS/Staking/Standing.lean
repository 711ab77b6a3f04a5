import NeatPoS.Core.Sets
import NeatPoS.Staking.Shifts

/-!
# Where the candidates stand

The invariant of the staking state.  A delegation is kept in three numbers for each candidate and
user: what is proxied, what is deposited, and how much of the deposit is to be refunded at the end
of the epoch.  `Open` is the relation between the three that one expects: nothing is negative, and
the refund is part of the deposit.

It does not always hold.  When a candidate is unregistered, the whole deposit of each user is
announced for refund, on top of what the user has announced already.  `Leaving` is what is left
then, and `Left` what becomes of it when the refunds are paid: deposits may be negative.  `Finalise`
cannot write such an account, so that the chain stops there, and the deposits that are found in a
state that has been written are not negative after all (`Unwritten.deposit_nonneg`).

* `Sound` holds between transactions, and at the beginning of each block;
* `Unwritten` holds before `Finalise`, which leads from there to a sound state (`Unwritten.sound`),
  and so does `Commit` (`Unwritten.sound_commit`).
-/

set_option autoImplicit false

namespace NeatPoS

open DFinsupp Ledger

variable {c : Address} {p : Slot → Prop}

/-- The amounts of rewards. -/
def Slot.isReward : Slot → Bool
  | .rewardBalance _ | .reward _ _ => true
  | _ => false

theorem Law.forall_sums_proxied (h : ∀ u, p (.proxied c u))
    (k : Slot) (hk : (Law.proxied c).sums k = true) : p k := by
  cases k <;> simp only [Law.sums, beq_iff_eq, Bool.false_eq_true] at hk
  subst hk
  exact h _

theorem Law.forall_sums_depositProxied
    (h : ∀ u, p (.depositProxied c u)) (k : Slot) (hk : (Law.depositProxied c).sums k = true) : p k := by
  cases k <;> simp only [Law.sums, beq_iff_eq, Bool.false_eq_true] at hk
  subst hk
  exact h _

theorem Law.forall_sums_pendingRefund
    (h : ∀ u, p (.pendingRefund c u)) (k : Slot) (hk : (Law.pendingRefund c).sums k = true) : p k := by
  cases k <;> simp only [Law.sums, beq_iff_eq, Bool.false_eq_true] at hk
  subst hk
  exact h _

theorem AccountProxiedBalance.encodable_iff {apb : AccountProxiedBalance} :
    apb.encodable = true ↔
      0 ≤ apb.proxiedBalance ∧ 0 ≤ apb.depositProxiedBalance ∧ 0 ≤ apb.pendingRefundBalance := by
  simp only [encodable, Bool.and_eq_true, decide_eq_true_eq, and_assoc]

namespace AccountProxiedBalance

/-- The pending refund is part of the deposit. -/
structure Open (e : AccountProxiedBalance) : Prop where
  proxied : 0 ≤ e.proxiedBalance
  pending : 0 ≤ e.pendingRefundBalance
  covered : e.pendingRefundBalance ≤ e.depositProxiedBalance

/-- The whole deposit is to be refunded, and some of it perhaps twice. -/
structure Leaving (e : AccountProxiedBalance) : Prop where
  proxied : e.proxiedBalance = 0
  deposit : 0 ≤ e.depositProxiedBalance
  pending : e.depositProxiedBalance ≤ e.pendingRefundBalance

/-- The refunds are paid. -/
structure Left (e : AccountProxiedBalance) : Prop where
  proxied : e.proxiedBalance = 0
  deposit : e.depositProxiedBalance ≤ 0
  pending : e.pendingRefundBalance = 0

end AccountProxiedBalance

namespace StateDB

/-! ## Where a candidate stands -/

/-- The entries of an address that is, or could become, a candidate. -/
def Open (s : StateDB) (c : Address) : Prop := ∀ u, (s.getAccountProxiedBalance c u).Open

/-- The entries of a candidate that has been unregistered. -/
structure Leaving (s : StateDB) (c : Address) : Prop where
  notCandidate : s.isCandidate c = false
  entry : ∀ u, (s.getAccountProxiedBalance c u).Leaving

/-- The entries of such a candidate once the refunds are paid. -/
structure Left (s : StateDB) (c : Address) : Prop where
  notCandidate : s.isCandidate c = false
  entry : ∀ u, (s.getAccountProxiedBalance c u).Left

section Entries

variable {s s' : StateDB} {c : Address}
  (he : ∀ u, s'.getAccountProxiedBalance c u = s.getAccountProxiedBalance c u)
include he

theorem Open.of_entry (h : Open s c) : Open s' c := by
  intro u
  rw [he]
  exact h u

theorem Leaving.of_entry (h : Leaving s c) (hc : s'.isCandidate c = false) : Leaving s' c := by
  refine ⟨hc, fun u => ?_⟩
  rw [he]
  exact h.entry u

theorem Left.of_entry (h : Left s c) (hc : s'.isCandidate c = false) : Left s' c := by
  refine ⟨hc, fun u => ?_⟩
  rw [he]
  exact h.entry u

end Entries

/-- What holds at any time. -/
structure Kept (s : StateDB) : Prop where
  law : ∀ l : Law, l.isDelegate = false → weigh l.weight s.amounts = 0
  marked : ∀ c u, 0 < s.amounts (.pendingRefund c u) → c ∈ s.delegateRefundSet.addresses
  coherent : s.delegateRefundSet.Coherent
  reward : ∀ a d, 0 ≤ s.amounts (.reward a d)

/-- The entry of a user has a key in the trie if it is not zero. -/
def InTrie (s : StateDB) (c : Address) : Prop :=
  ∀ u, u ∈ s.proxiedTrie c ↔ s.getAccountProxiedBalance c u ≠ ⟨0, 0, 0⟩

/-- Between transactions. -/
structure Sound (s : StateDB) : Prop extends Kept s where
  standing : ∀ c, Open s c ∨ Leaving s c
  trie : ∀ c, InTrie s c

/-- Before `Finalise`. -/
structure Unwritten (s : StateDB) : Prop extends Kept s where
  standing : ∀ c, Open s c ∨ Leaving s c ∨ Left s c
  clean : ∀ c, c ∉ s.dirty → InTrie s c ∧ ∀ u, 0 ≤ s.amounts (.depositProxied c u)

variable {s s' : StateDB}

/-- No deposit is negative. -/
theorem Sound.deposit_nonneg (h : Sound s) (c u : Address) : 0 ≤ s.amounts (.depositProxied c u) := by
  rcases h.standing c with hc | hc
  · exact (hc u).pending.trans (hc u).covered
  · exact (hc.entry u).deposit

/-- After a sound state, before the next `Finalise`. -/
theorem Sound.unwritten (h : Sound s) (ht : Touches s s') (hk : Kept s')
    (hst : ∀ c, Open s' c ∨ Leaving s' c ∨ Left s' c) : Unwritten s' where
  toKept := hk
  standing := hst
  clean := by
    intro c hc
    have hsame : ∀ k : Slot, k.owner = c → s'.amounts k = s.amounts k := by
      intro k hk
      by_contra hne
      exact hc (hk ▸ ht.dirty_of_ne k hne)
    refine ⟨fun u => ?_, fun u => ?_⟩
    · rw [ht.proxiedTrie, h.trie c u, getAccountProxiedBalance, getAccountProxiedBalance,
        hsame (.proxied c u) rfl, hsame (.depositProxied c u) rfl, hsame (.pendingRefund c u) rfl]
    · rw [hsame (.depositProxied c u) rfl]
      exact h.deposit_nonneg c u

/-! ## Writing -/

/-- An account that counts as empty has no entries. -/
theorem Unwritten.entry_eq_zero_of_empty (h : Unwritten s) (hc : s.empty c = true)
    (u : Address) : s.getAccountProxiedBalance c u = ⟨0, 0, 0⟩ := by
  simp only [empty, Bool.and_eq_true, beq_iff_eq] at hc
  obtain ⟨⟨⟨⟨-, hp⟩, hd⟩, hr⟩, -⟩ := hc
  have hpending (hsign : ∀ v, 0 ≤ s.amounts (.pendingRefund c v)) :
      s.amounts (.pendingRefund c u) = 0 :=
    entries_eq_zero_of_nonneg (h.law (.pendingRefund c) rfl) hr.le (Law.forall_sums_pendingRefund hsign)
      (beq_self_eq_true c)
  have hdeposit (hsign : ∀ v, 0 ≤ s.amounts (.depositProxied c v)) :
      s.amounts (.depositProxied c u) = 0 :=
    entries_eq_zero_of_nonneg (h.law (.depositProxied c) rfl) hd.le (Law.forall_sums_depositProxied hsign)
      (beq_self_eq_true c)
  have hentries : s.amounts (.proxied c u) = 0 ∧ s.amounts (.depositProxied c u) = 0 ∧
      s.amounts (.pendingRefund c u) = 0 := by
    rcases h.standing c with ho | ho | ho
    · refine ⟨?_, hdeposit fun v => (ho v).pending.trans (ho v).covered,
        hpending fun v => (ho v).pending⟩
      exact entries_eq_zero_of_nonneg (h.law (.proxied c) rfl) hp.le
        (Law.forall_sums_proxied fun v => (ho v).proxied) (beq_self_eq_true c)
    · exact ⟨(ho.entry u).proxied, hdeposit fun v => (ho.entry v).deposit,
        hpending fun v => (ho.entry v).deposit.trans (ho.entry v).pending⟩
    · refine ⟨(ho.entry u).proxied, ?_, (ho.entry u).pending⟩
      exact entries_eq_zero_of_nonpos (h.law (.depositProxied c) rfl) hd.ge
        (Law.forall_sums_depositProxied fun v => (ho.entry v).deposit) (beq_self_eq_true c)
  rw [getAccountProxiedBalance, hentries.1, hentries.2.1, hentries.2.2]

/-- If the state can be written, all of the deposits are zero that should be. -/
theorem Unwritten.deposit_nonneg (h : Unwritten s) (hfin : s.finalise = .ok s') (c u : Address) :
    0 ≤ s.amounts (.depositProxied c u) := by
  rcases h.standing c with ho | ho | ho
  · exact (ho u).pending.trans (ho u).covered
  · exact (ho.entry u).deposit
  by_cases hdirty : c ∈ s.dirty
  · have htotal : 0 ≤ s.amounts (.depositProxiedBalance c) := by
      by_cases hempty : s.empty c = true
      · simp only [empty, Bool.and_eq_true, beq_iff_eq] at hempty
        exact hempty.1.1.2.ge
      · have henc := (finalise_ok hfin).2 c hdirty (by simpa using hempty)
        simp only [unencodable, List.any_eq_false, decide_eq_true_eq, not_lt] at henc
        exact henc _ (by simp [Slot.ofAccount])
    have hzero : s.amounts (.depositProxied c u) = 0 :=
      entries_eq_zero_of_nonpos (h.law (.depositProxied c) rfl) htotal
        (Law.forall_sums_depositProxied fun v => (ho.entry v).deposit) (beq_self_eq_true c)
    exact hzero.ge
  · exact (h.clean c hdirty).2 u

/-- An account that is deleted has no amounts but rewards. -/
theorem Unwritten.finalised_amounts (h : Unwritten s) {k : Slot} (hk : k.isReward = false) :
    s.finalised.amounts k = s.amounts k := by
  rw [StateDB.finalised_amounts]
  split
  · rfl
  rename_i hdel
  have hempty := empty_of_deletes hdel
  have hentry := h.entry_eq_zero_of_empty hempty k.user
  rw [getAccountProxiedBalance, AccountProxiedBalance.mk.injEq] at hentry
  simp only [empty, Bool.and_eq_true, beq_iff_eq] at hempty
  obtain ⟨⟨⟨⟨⟨⟨⟨⟨⟨⟨-, hb⟩, -⟩, hdep⟩, -⟩, -⟩, hdel⟩, hp⟩, hd⟩, hr⟩, hav⟩ := hempty
  cases k with
  | balance => exact hb.symm
  | depositBalance => exact hdep.symm
  | delegateBalance => exact hdel.symm
  | proxiedBalance => exact hp.symm
  | depositProxiedBalance => exact hd.symm
  | pendingRefundBalance => exact hr.symm
  | rewardBalance | reward => cases hk
  | availableRewardBalance => exact hav.symm
  | proxied => exact hentry.1.symm
  | depositProxied => exact hentry.2.1.symm
  | pendingRefund => exact hentry.2.2.symm

theorem Unwritten.finalised_entry (h : Unwritten s) (c u : Address) :
    s.finalised.getAccountProxiedBalance c u = s.getAccountProxiedBalance c u := by
  rw [getAccountProxiedBalance, getAccountProxiedBalance, h.finalised_amounts rfl,
    h.finalised_amounts rfl, h.finalised_amounts rfl]

theorem finalised_isCandidate (s : StateDB) (hc : s.isCandidate c = false) :
    s.finalised.isCandidate c = false := by
  rw [isCandidate, finalised]
  dsimp only
  split
  · rfl
  · exact hc

/-- The weighings that do not concern rewards are not changed by `Finalise`. -/
theorem Unwritten.weigh_finalised (h : Unwritten s) {l : Law} (hl : ∀ a, l ≠ .reward a) :
    weigh l.weight s.finalised.amounts = weigh l.weight s.amounts := by
  refine weigh_congr fun k hk => h.finalised_amounts ?_
  cases l with
  | reward a => exact absurd rfl (hl a)
  | _ => cases k <;> first | rfl | simp [Law.weight, Law.total, Law.sums] at hk

/-- What is true of all amounts of an account is true when some accounts are deleted. -/
theorem Kept.finalised (h : Unwritten s) : Kept s.finalised where
  law := by
    intro l hdelegate
    by_cases hl : ∃ a, l = .reward a
    · obtain ⟨a, rfl⟩ := hl
      by_cases hdel : s.deletes a = false
      · rw [← h.law (.reward a) rfl]
        refine weigh_congr fun k hk => ?_
        have howner : k.owner = a := by
          cases k <;> simp [Law.weight, Law.total, Law.sums] at hk <;> simp [Slot.owner, hk]
        rw [StateDB.finalised_amounts, howner, if_pos hdel]
      · have hzero : weigh (Law.reward a).weight s.finalised.amounts = weigh (Law.reward a).weight 0 := by
          refine weigh_congr fun k hk => ?_
          have howner : k.owner = a := by
            cases k <;> simp [Law.weight, Law.total, Law.sums] at hk <;> simp [Slot.owner, hk]
          rw [StateDB.finalised_amounts, howner, if_neg hdel]
          rfl
        rw [hzero, map_zero]
    · rw [← h.law l hdelegate]
      exact h.weigh_finalised fun a ha => hl ⟨a, ha⟩
  marked := by
    intro c u hcu
    rw [h.finalised_amounts rfl] at hcu
    have hmem := h.marked c u hcu
    rwa [← h.coherent.addresses_write] at hmem
  coherent := h.coherent.write
  reward := by
    intro a d
    rw [StateDB.finalised_amounts]
    split
    · exact h.reward a d
    · exact le_refl 0

theorem mem_trieUsers {u : Address} :
    u ∈ s.trieUsers c ↔ s.getAccountProxiedBalance c u ≠ ⟨0, 0, 0⟩ ∧
      (s.getAccountProxiedBalance c u).encodable = true := by
  simp only [trieUsers, Finset.mem_filter, Finset.mem_image, Bool.and_eq_true, Bool.not_eq_true',
    AccountProxiedBalance.isEmpty, beq_eq_false_iff_ne]
  constructor
  · exact fun h => h.2
  intro h
  refine ⟨?_, h⟩
  have hne := h.1
  rw [getAccountProxiedBalance, Ne, AccountProxiedBalance.mk.injEq] at hne
  by_cases hp : s.amounts (.proxied c u) = 0
  · by_cases hd : s.amounts (.depositProxied c u) = 0
    · have hr : s.amounts (.pendingRefund c u) ≠ 0 := fun hr => hne ⟨hp, hd, hr⟩
      exact ⟨.pendingRefund c u, mem_support_iff.2 hr, rfl⟩
    · exact ⟨.depositProxied c u, mem_support_iff.2 hd, rfl⟩
  · exact ⟨.proxied c u, mem_support_iff.2 hp, rfl⟩

/-- Where a candidate stands when the state has been written. -/
theorem Unwritten.standing_of_finalise (h : Unwritten s) (hfin : s.finalise = .ok s') (c : Address) :
    Open s c ∨ Leaving s c := by
  have hdeposit := h.deposit_nonneg hfin c
  rcases h.standing c with ho | ho | ho
  · exact .inl ho
  · exact .inr ho
  · refine .inr ⟨ho.notCandidate, fun u => ⟨(ho.entry u).proxied, hdeposit u, ?_⟩⟩
    exact (ho.entry u).deposit.trans_eq (ho.entry u).pending.symm

/-- **`Finalise` leads to a sound state**, if it does not panic. -/
theorem Unwritten.sound (h : Unwritten s) (hfin : s.finalise = .ok s') : Sound s' := by
  obtain ⟨rfl, -⟩ := finalise_ok hfin
  have hstanding := h.standing_of_finalise hfin
  refine ⟨Kept.finalised h, fun c => ?_, fun c u => ?_⟩
  · rcases hstanding c with ho | ho
    · exact .inl (ho.of_entry (h.finalised_entry c))
    · exact .inr (ho.of_entry (h.finalised_entry c) (finalised_isCandidate s ho.notCandidate))
  · rw [h.finalised_entry]
    have hencodable : (s.getAccountProxiedBalance c u).encodable = true := by
      rw [AccountProxiedBalance.encodable_iff]
      rcases hstanding c with ho | ho
      · exact ⟨(ho u).proxied, (ho u).pending.trans (ho u).covered, (ho u).pending⟩
      · exact ⟨(ho.entry u).proxied.ge, (ho.entry u).deposit,
          (ho.entry u).deposit.trans (ho.entry u).pending⟩
    show u ∈ (if s.deletes c then ∅ else if c ∈ s.dirty then s.trieUsers c else s.proxiedTrie c) ↔ _
    by_cases hdel : s.deletes c = true
    · have hne : ¬ s.deletes c = false := by simp [hdel]
      simp [hdel, h.entry_eq_zero_of_empty (empty_of_deletes hne) u]
    rw [if_neg hdel]
    by_cases hdirty : c ∈ s.dirty
    · rw [if_pos hdirty, mem_trieUsers, and_iff_left hencodable]
    · rw [if_neg hdirty]
      exact (h.clean c hdirty).1 u

/-- A sound state is found again by the next block. -/
theorem Sound.reload_amounts (h : Sound s) : s.reload.amounts = s.amounts := by
  ext k
  show (s.amounts.filter fun k => s.persisted k = true) k = _
  rw [filter_apply]
  split
  · rfl
  rename_i hk
  have hentry (c u : Address) (hu : ¬ u ∈ s.proxiedTrie c) :
      s.getAccountProxiedBalance c u = ⟨0, 0, 0⟩ := by
    by_contra hne
    exact hu ((h.trie c u).2 hne)
  simp only [getAccountProxiedBalance, AccountProxiedBalance.mk.injEq] at hentry
  cases k with
  | proxied c u => exact (hentry c u (by simpa [persisted] using hk)).1.symm
  | depositProxied c u => exact (hentry c u (by simpa [persisted] using hk)).2.1.symm
  | pendingRefund c u => exact (hentry c u (by simpa [persisted] using hk)).2.2.symm
  | reward a d => exact absurd (h.reward a d) (by simpa [persisted] using hk)
  | _ => exact absurd rfl hk

theorem Sound.reload (h : Sound s)
    (hset : s.delegateRefundSet.reload.addresses = s.delegateRefundSet.addresses) : Sound s.reload := by
  have hamounts := h.reload_amounts
  have hentry (c u : Address) :
      s.reload.getAccountProxiedBalance c u = s.getAccountProxiedBalance c u := by
    simp only [getAccountProxiedBalance, hamounts]
  refine ⟨⟨fun l hl => ?_, fun c u hcu => ?_, CachedSet.coherent_reload _, fun a d => ?_⟩, fun c => ?_,
    fun c u => ?_⟩
  · rw [hamounts]
    exact h.law l hl
  · rw [hamounts] at hcu
    have hmem := h.marked c u hcu
    rwa [← hset] at hmem
  · rw [hamounts]
    exact h.reward a d
  · rcases h.standing c with ho | ho
    · exact .inl (ho.of_entry (hentry c))
    · exact .inr (ho.of_entry (hentry c) ho.notCandidate)
  · rw [hentry]
    exact h.trie c u

theorem commit_ok (h : s.commit = .ok s') : ∃ t, s.finalise = .ok t ∧ s' = t.reload := by
  cases hf : s.finalise with
  | error =>
    rw [commit, hf] at h
    cases h
  | ok t =>
    rw [commit, hf] at h
    cases h
    exact ⟨t, rfl, rfl⟩

/-- **`Commit` leads to a sound state**, if it does not panic. -/
theorem Unwritten.sound_commit (h : Unwritten s) (hcommit : s.commit = .ok s') : Sound s' := by
  obtain ⟨_, hfin, rfl⟩ := commit_ok hcommit
  refine (h.sound hfin).reload ?_
  obtain ⟨rfl, -⟩ := finalise_ok hfin
  exact h.coherent.addresses_reload_write.trans h.coherent.addresses_write.symm

theorem Unwritten.commit_amounts (h : Unwritten s) (hcommit : s.commit = .ok s') {k : Slot}
    (hk : k.isReward = false) : s'.amounts k = s.amounts k := by
  obtain ⟨_, hfin, rfl⟩ := commit_ok hcommit
  rw [(h.sound hfin).reload_amounts]
  obtain ⟨rfl, -⟩ := finalise_ok hfin
  exact h.finalised_amounts hk

/-! ## Functions that have nothing to do with delegations -/

theorem Still.weigh_law (hs : Still s s') (l : Law) :
    weigh l.weight s'.amounts = weigh l.weight s.amounts := by
  refine weigh_congr fun k hk => hs.amounts k ?_
  cases k <;> first | rfl | (cases l <;> simp [Law.weight, Law.total, Law.sums] at hk)

theorem Kept.still (h : Kept s) (hs : Still s s') : Kept s' where
  law := fun l hl => (hs.weigh_law l).trans (h.law l hl)
  marked := by
    intro c u hcu
    rw [hs.amounts _ rfl] at hcu
    rw [hs.delegateRefundSet]
    exact h.marked c u hcu
  coherent := by
    rw [hs.delegateRefundSet]
    exact h.coherent
  reward := by
    intro a d
    rw [hs.amounts _ rfl]
    exact h.reward a d

theorem InTrie.still (h : InTrie s c) (hs : Still s s') : InTrie s' c := by
  intro u
  rw [hs.proxiedTrie, hs.entry]
  exact h u

theorem Sound.still (h : Sound s) (hs : Still s s') : Sound s' where
  toKept := h.toKept.still hs
  standing := by
    intro c
    rcases h.standing c with ho | ho
    · exact .inl (ho.of_entry (hs.entry c))
    · exact .inr (ho.of_entry (hs.entry c) ((hs.candidate c).trans ho.notCandidate))
  trie := fun c => (h.trie c).still hs

theorem Unwritten.still (h : Unwritten s) (hs : Still s s') : Unwritten s' where
  toKept := h.toKept.still hs
  standing := by
    intro c
    rcases h.standing c with ho | ho | ho
    · exact .inl (ho.of_entry (hs.entry c))
    · exact .inr (.inl (ho.of_entry (hs.entry c) ((hs.candidate c).trans ho.notCandidate)))
    · exact .inr (.inr (ho.of_entry (hs.entry c) ((hs.candidate c).trans ho.notCandidate)))
  clean := by
    intro c hc
    obtain ⟨htrie, hdep⟩ := h.clean c fun hmem => hc (hs.dirty_mono hmem)
    refine ⟨htrie.still hs, fun u => ?_⟩
    rw [hs.amounts _ rfl]
    exact hdep u

end StateDB

end NeatPoS
