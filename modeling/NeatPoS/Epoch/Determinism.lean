import NeatPoS.Epoch.Admission

/-!
# Does the switch depend on the runtime?

Every node computes the epoch switch for itself, and all of them must come to the same result.  But
the order in which Go ranges over the refund set and over the candidates is not the same on two
nodes, and neither need be what `sort.Slice` does with elements that compare equal.  Does this show?

The loops do not show it.  A round is about one address: it reads the account of this address and
nothing else, and changes nothing else, so that two rounds can be exchanged.  For the loops that
only move amounts this is said with charges (`AccountCharge`, `AccountCharge.comm`); the one about
bans changes accounts and is compared field by field (`dropIfBanned_comm`).  The votes for
candidates are sorted by a total order.

The cut at a hundred validators does show it, as validators with the same remaining epochs and the
same power are not ordered at all.  The result is the same in any case exactly if there is no such
tie among the first hundred (`Untied`, `cut_eq_iff`).  `switch_deterministic_iff` is the conclusion.
-/

set_option autoImplicit false

namespace NeatPoS

open DFinsupp

variable {a c : Address} {s t : StateDB} {v : Validator}

attribute [ext] StateDB

namespace StateDB

/-! ## Charges to one account -/

/-- The account of an address, with its amounts and its trie, is the same in two states. -/
structure SameAccount (a : Address) (s t : StateDB) : Prop where
  account : t.accounts a = s.accounts a
  amounts : ∀ k : Slot, k.owner = a → t.amounts k = s.amounts k
  proxiedTrie : t.proxiedTrie a = s.proxiedTrie a

/-- A charge that is about one address: it depends on the account of this address, and only this
account is charged. -/
structure AccountCharge (a : Address) (χ : StateDB → Charge) : Prop where
  touches : ∀ s, ∀ b ∈ (χ s).1, b = a
  resets : ∀ s, (χ s).2.1 = 0
  posts : ∀ s, ∀ k : Slot, k.owner ≠ a → (χ s).2.2 k = 0
  congr : ∀ {s t}, SameAccount a s t → χ t = χ s

namespace AccountCharge

variable {a b : Address} {χ χ' : StateDB → Charge}

/-- Other accounts are left alone. -/
theorem sameAccount (h : AccountCharge a χ) (hab : b ≠ a) (s : StateDB) :
    SameAccount b s (s.settle (χ s)) where
  account := by
    have hnot : b ∉ (χ s).1 := fun hb => hab (h.touches s b hb)
    simp [settle, hnot, h.resets s]
  amounts := by
    rintro k rfl
    show s.amounts k + (χ s).2.2 k = s.amounts k
    rw [h.posts s k hab, add_zero]
  proxiedTrie := rfl

/-- **Charges to two accounts can be exchanged.** -/
theorem comm (h : AccountCharge a χ) (h' : AccountCharge b χ') (hab : a ≠ b) (s : StateDB) :
    (s.settle (χ s)).settle (χ' (s.settle (χ s))) =
      (s.settle (χ' s)).settle (χ (s.settle (χ' s))) := by
  rw [h'.congr (h.sameAccount hab.symm s), h.congr (h'.sameAccount hab s), settle_settle,
    settle_settle, add_comm]

protected theorem zero (a : Address) : AccountCharge a fun _ => 0 :=
  ⟨fun _ _ hb => absurd hb (Multiset.notMem_zero _), fun _ => rfl, fun _ _ _ => rfl, fun _ => rfl⟩

protected theorem add (h : AccountCharge a χ) (h' : AccountCharge a χ') :
    AccountCharge a fun s => χ s + χ' s where
  touches := by
    intro s b hb
    rcases Multiset.mem_add.1 hb with hb | hb
    · exact h.touches s b hb
    · exact h'.touches s b hb
  resets := by
    intro s
    rw [Prod.snd_add, Prod.fst_add, h.resets, h'.resets, add_zero]
  posts := by
    intro s k hk
    rw [Prod.snd_add, Prod.snd_add, DFinsupp.add_apply, h.posts s k hk, h'.posts s k hk, add_zero]
  congr := by
    intro s t hst
    rw [h.congr hst, h'.congr hst]

protected theorem ite {p : StateDB → Prop} [DecidablePred p]
    (hp : ∀ {s t}, SameAccount a s t → (p t ↔ p s))
    (h : AccountCharge a χ) (h' : AccountCharge a χ') :
    AccountCharge a fun s => if p s then χ s else χ' s where
  touches := by
    intro s
    split
    · exact h.touches s
    · exact h'.touches s
  resets := by
    intro s
    split
    · exact h.resets s
    · exact h'.resets s
  posts := by
    intro s
    split
    · exact h.posts s
    · exact h'.posts s
  congr := by
    intro s t hst
    simp only [hp hst, h.congr hst, h'.congr hst]

/-- A loop over the entries of a candidate. -/
protected theorem sum {χ : Address → AccountProxiedBalance → Charge}
    (htouches : ∀ u apb, ∀ b ∈ (χ u apb).1, b = a) (hresets : ∀ u apb, (χ u apb).2.1 = 0)
    (hposts : ∀ u apb, ∀ k : Slot, k.owner ≠ a → (χ u apb).2.2 k = 0) :
    AccountCharge a fun s => ∑ u ∈ s.proxiedTrie a, χ u (s.getAccountProxiedBalance a u) where
  touches := by
    intro s b hb
    rw [Prod.fst_sum, Multiset.mem_sum] at hb
    obtain ⟨u, -, hu⟩ := hb
    exact htouches u _ b hu
  resets := by
    intro s
    rw [Prod.snd_sum, Prod.fst_sum]
    exact Finset.sum_eq_zero fun u _ => hresets u _
  posts := by
    intro s k hk
    rw [charge_sum_apply]
    exact Finset.sum_eq_zero fun u _ => hposts u _ k hk
  congr := by
    intro s t hst
    have hentry (u : Address) :
    t.getAccountProxiedBalance a u = s.getAccountProxiedBalance a u := by
      simp only [getAccountProxiedBalance, hst.amounts (.proxied a u) rfl,
        hst.amounts (.depositProxied a u) rfl, hst.amounts (.pendingRefund a u) rfl]
    simp only [hst.proxiedTrie, hentry]

end AccountCharge

/-! ## The votes for candidates -/

/-- The charge of `moveToDeposit`. -/
def depositCharge (c u : Address) (apb : AccountProxiedBalance) : Charge :=
  ({c} + {c}, 0, proxiedPosting c u (-apb.proxiedBalance) + depositPosting c u apb.proxiedBalance)

/-- What is charged to a candidate when its vote is made. -/
def voteCharge (c : Address) (s : StateDB) : Charge :=
  if s.isCandidate c = true ∧ 0 ≤ s.netProxied c then
    ∑ u ∈ s.proxiedTrie c, depositCharge c u (s.getAccountProxiedBalance c u)
  else 0

theorem SameAccount.isCandidate (h : SameAccount a s t) : t.isCandidate a = s.isCandidate a :=
  congrArg Account.candidate h.account

theorem SameAccount.netProxied (h : SameAccount a s t) : t.netProxied a = s.netProxied a := by
  simp only [StateDB.netProxied, getTotalProxiedBalance, getTotalDepositProxiedBalance,
    getTotalPendingRefundBalance, h.amounts (.proxiedBalance a) rfl,
    h.amounts (.depositProxiedBalance a) rfl, h.amounts (.pendingRefundBalance a) rfl]

/-- A shift between the two parts of a delegation is about the candidate. -/
theorem shift_apply_of_owner_ne {u : Address} {k : Slot} (hk : k.owner ≠ c) (x y : Int) :
    (proxiedPosting c u x + depositPosting c u y : Posting) k = 0 := by
  have hne (k' : Slot) (hk' : k'.owner = c) : k ≠ k' := fun h => hk (h ▸ hk')
  rw [proxiedPosting, depositPosting, DFinsupp.add_apply, DFinsupp.add_apply, DFinsupp.add_apply,
    single_eq_of_ne (hne (.proxied c u) rfl), single_eq_of_ne (hne (.proxiedBalance c) rfl),
    single_eq_of_ne (hne (.depositProxied c u) rfl),
    single_eq_of_ne (hne (.depositProxiedBalance c) rfl)]
  rfl

theorem shift_local (c u : Address) (x y : Int) :
    LocalTo c u (proxiedPosting c u x + depositPosting c u y) := by
  intro v hv
  simp [proxiedPosting, depositPosting, single_apply, Ne.symm hv]

theorem voteCharge_own (c : Address) : AccountCharge c (voteCharge c) := by
  refine AccountCharge.ite (fun h => by rw [h.isCandidate, h.netProxied])
    (AccountCharge.sum (χ := depositCharge c) ?_ (fun _ _ => rfl) ?_) (AccountCharge.zero c)
  · simp [depositCharge]
  · exact fun u apb k hk => shift_apply_of_owner_ne hk _ _

variable (rt : Runtime)

theorem candidateVote_fst (st : StateDB × List EpochValidatorVote) (c : Address) :
    (candidateVote rt st c).1 = st.1.settle (voteCharge c st.1) := by
  obtain ⟨s, _⟩ := st
  rw [candidateVote]
  dsimp only
  by_cases hc : s.isCandidate c = true
  · by_cases hneg : s.netProxied c < 0
    · rw [if_pos hc, if_pos hneg, voteCharge, if_neg fun h => absurd h.2 (Int.not_le.2 hneg),
        settle_zero]
    have hcharge : voteCharge c s = ∑ u ∈ s.proxiedTrie c,
      depositCharge c u (s.getAccountProxiedBalance c u) :=
      if_pos ⟨hc, Int.not_lt.1 hneg⟩
    rw [if_pos hc, if_neg hneg, hcharge, ← forEachProxied_eq s rt.trieOrder c
      (fun t u => moveToDeposit_eq t c u _) fun u apb => shift_local c u _ _]
    split <;> rfl
  · rw [if_neg hc, voteCharge, if_neg fun h => hc h.1, settle_zero]

theorem foldl_candidateVote_fst (l : List Address) (st : StateDB × List EpochValidatorVote) :
    (l.foldl (candidateVote rt) st).1 = l.foldl (fun s c => s.settle (voteCharge c s)) st.1 := by
  induction l generalizing st with
  | nil => rfl
  | cons _ _ ih => rw [List.foldl_cons, List.foldl_cons, ih, candidateVote_fst]

/-! ## Bans -/

theorem dropIfBanned_accounts (s : StateDB) (a b : Address) :
    (s.dropIfBanned a).accounts b =
      if b = a then
        { s.accounts b with
          live := true
          bannedTime :=
            if (s.accounts b).isBanned then (s.accounts b).bannedTime - 1
              else (s.accounts b).bannedTime }
      else s.accounts b := by
  have hdelete (t : StateDB) : (t.deleteCandidate a).accounts = t.accounts := rfl
  rw [dropIfBanned_eq, serveBan_eq]
  by_cases hb : b = a
  · subst hb
    cases hbanned : (s.accounts b).isBanned with
    | false => simp [getOrNewStateObject_accounts, hbanned]
    | true =>
      by_cases htime : 0 < (s.accounts b).bannedTime
      · simp [setBannedTime, setAccount_accounts, getOrNewStateObject_accounts, hdelete, htime,
          hbanned]
      · have hzero : (s.accounts b).bannedTime = 0 := by omega
        simp [getOrNewStateObject_accounts, hdelete, hzero, hbanned]
  · split
    · split <;> simp [setBannedTime, setAccount_accounts, getOrNewStateObject_accounts, hdelete, hb]
    · simp [getOrNewStateObject_accounts, hb]

theorem dropIfBanned_dirty (s : StateDB) (a : Address) :
    (s.dropIfBanned a).dirty =
      if (s.accounts a).live = true ∧
          ¬ ((s.accounts a).isBanned = true ∧ 0 < (s.accounts a).bannedTime) then s.dirty
      else insert a s.dirty := by
  have hdelete (t : StateDB) : (t.deleteCandidate a).accounts = t.accounts := rfl
  have hdirty (t : StateDB) : (t.deleteCandidate a).dirty = t.dirty := rfl
  rw [dropIfBanned_eq, serveBan_eq]
  cases hlive : (s.accounts a).live <;> cases hbanned : (s.accounts a).isBanned <;>
    by_cases htime : 0 < (s.accounts a).bannedTime <;>
    simp [setBannedTime, setAccount_eq, getOrNewStateObject_eq, hdelete, hdirty, hlive, htime]

theorem dropIfBanned_candidateSet (s : StateDB) (a : Address) :
    (s.dropIfBanned a).candidateSet =
      if (s.accounts a).isBanned then s.candidateSet.delete a else s.candidateSet := by
  rw [dropIfBanned_eq, serveBan_eq]
  split
  · split <;> simp [setBannedTime, deleteCandidate]
  · exact getOrNewStateObject_candidateSet s a

theorem dropIfBanned_bannedSet (s : StateDB) (a : Address) :
    (s.dropIfBanned a).bannedSet = s.bannedSet := by
  rw [dropIfBanned_eq, serveBan_eq]
  split
  · split <;> simp [setBannedTime, setAccount_eq, getOrNewStateObject_eq, deleteCandidate]
  · rw [getOrNewStateObject_eq]

/-- Two rounds of the loop over banned candidates can be exchanged. -/
theorem dropIfBanned_comm (s : StateDB) (a b : Address) :
    (s.dropIfBanned a).dropIfBanned b = (s.dropIfBanned b).dropIfBanned a := by
  by_cases hab : a = b
  · rw [hab]
  have hab' : ¬ b = a := fun h => hab h.symm
  ext1
  · rw [(dropIfBanned_posts _ b).amounts, (dropIfBanned_posts _ a).amounts,
      (dropIfBanned_posts _ a).amounts, (dropIfBanned_posts _ b).amounts]
  · funext c
    rw [dropIfBanned_accounts, dropIfBanned_accounts, dropIfBanned_accounts, dropIfBanned_accounts]
    by_cases hca : c = a
    · simp [hca, hab]
    · simp [hca]
  · rw [(dropIfBanned_posts _ b).proxiedTrie, (dropIfBanned_posts _ a).proxiedTrie,
      (dropIfBanned_posts _ a).proxiedTrie, (dropIfBanned_posts _ b).proxiedTrie]
  · rw [dropIfBanned_dirty, dropIfBanned_dirty, dropIfBanned_dirty, dropIfBanned_dirty,
      dropIfBanned_accounts, dropIfBanned_accounts, if_neg hab, if_neg hab']
    split <;> split <;> first | rfl | exact Finset.insert_comm _ _ _
  · rw [(dropIfBanned_shifts _ b).refundSet, (dropIfBanned_shifts _ a).refundSet,
      (dropIfBanned_shifts _ a).refundSet, (dropIfBanned_shifts _ b).refundSet]
  · rw [dropIfBanned_candidateSet, dropIfBanned_candidateSet, dropIfBanned_candidateSet,
      dropIfBanned_candidateSet, dropIfBanned_accounts, dropIfBanned_accounts, if_neg hab,
        if_neg hab']
    split <;> split <;> simp [CachedSet.delete, Finset.erase_right_comm]
  · rw [dropIfBanned_bannedSet, dropIfBanned_bannedSet, dropIfBanned_bannedSet,
      dropIfBanned_bannedSet]

/-! ## Knocked out -/

/-- What is charged to an address whose deposit is paid back. -/
def ownCharge (c : Address) (s : StateDB) : Charge :=
  if s.getDepositBalance c = 0 then
    if (s.accounts c).live = false ∨ s.empty c = true then ({c}, 0, 0) else 0
  else
    ({c} + {c}, 0, single (.depositBalance c) (-s.getDepositBalance c) +
      single (.balance c) (s.getDepositBalance c))

theorem getOrNewStateObject_of_not_live (h : (s.accounts c).live = false) :
    s.getOrNewStateObject c = s.settle ({c}, 0, 0) := by
  rw [getOrNewStateObject_eq, settle, h, Finset.union_comm]
  simp

theorem markStateObjectDirty_of_live (h : (s.accounts c).live = true) :
    s.markStateObjectDirty c = s.settle ({c}, 0, 0) := by
  have haccount (b : Address) : ((s.accounts b).live || decide (b = c)) = (s.accounts b).live := by
    by_cases hb : b = c
    · rw [hb, h, Bool.true_or]
    · rw [decide_eq_false hb, Bool.or_false]
  rw [markStateObjectDirty, settle, Finset.union_comm]
  simp [haccount]

theorem payOwn_eq (c : Address) (s : StateDB) :
    (s.subDepositBalance c (s.getDepositBalance c)).addBalance c (s.getDepositBalance c) =
      s.settle (ownCharge c s) := by
  rw [ownCharge, subDepositBalance, addBalance]
  by_cases hzero : s.getDepositBalance c = 0
  · have hpay : (s.sub (.depositBalance c) 0).add (.balance c) 0 =
        if (s.getOrNewStateObject c).empty c then (s.getOrNewStateObject c).markStateObjectDirty c
        else s.getOrNewStateObject c := by
      rw [sub, if_pos rfl, add, if_pos rfl, Slot.owner, Slot.owner, getOrNewStateObject_idem]
    rw [if_pos hzero, hzero, hpay]
    cases hlive : (s.accounts c).live with
    | false =>
      rw [getOrNewStateObject_of_not_live hlive,
        markStateObjectDirty_settle s (Multiset.mem_singleton_self c), ite_self, if_pos (.inl rfl)]
    | true =>
      have hnew : s.getOrNewStateObject c = s := by rw [getOrNewStateObject, if_pos hlive]
      rw [hnew]
      by_cases hempty : s.empty c = true
      · rw [if_pos hempty, if_pos (.inr hempty), markStateObjectDirty_of_live hlive]
      · rw [if_neg hempty, if_neg (by simp [hempty]), settle_zero]
  · rw [if_neg hzero, sub_eq _ _ hzero, add_eq _ _ hzero, settle_settle]
    rfl

/-- The charge of `moveToProxied`. -/
def proxiedCharge (c u : Address) (apb : AccountProxiedBalance) : Charge :=
  if 0 < apb.depositProxiedBalance then
    ({c} + {c}, 0,
      depositPosting c u (-apb.depositProxiedBalance) +
        proxiedPosting c u apb.depositProxiedBalance)
  else 0

/-- What is charged to a candidate whose delegations are given back. -/
def releaseCharge (c : Address) (s : StateDB) : Charge :=
  if s.isCandidate c = true then
    ∑ u ∈ s.proxiedTrie c, proxiedCharge c u (s.getAccountProxiedBalance c u)
  else 0

/-- What is charged to an address that is knocked out. -/
def knockoutCharge (c : Address) (s : StateDB) : Charge :=
  releaseCharge c s + ownCharge c (s.settle (releaseCharge c s))

theorem SameAccount.empty (h : SameAccount a s t) : t.empty a = s.empty a := by
  simp only [StateDB.empty, h.account, h.amounts (.balance a) rfl,
    h.amounts (.depositBalance a) rfl,
    h.amounts (.delegateBalance a) rfl, h.amounts (.proxiedBalance a) rfl,
    h.amounts (.depositProxiedBalance a) rfl, h.amounts (.pendingRefundBalance a) rfl,
    h.amounts (.availableRewardBalance a) rfl]

theorem ownCharge_own (c : Address) : AccountCharge c (ownCharge c) := by
  refine AccountCharge.ite (fun h => by rw [getDepositBalance, getDepositBalance, h.amounts _ rfl])
    (AccountCharge.ite (χ := fun _ => ({c}, 0, 0)) (fun h => by rw [h.account, h.empty]) ?_
      (AccountCharge.zero c)) ?_
  · exact ⟨fun _ _ hb => Multiset.mem_singleton.1 hb, fun _ => rfl, fun _ _ _ => rfl, fun _ => rfl⟩
  refine ⟨fun s b hb => by simpa using hb, fun _ => rfl, fun s k hk => ?_, fun h => ?_⟩
  · have hne (k' : Slot) (hk' : k'.owner = c) : k ≠ k' := fun h => hk (h ▸ hk')
    rw [DFinsupp.add_apply, single_eq_of_ne (hne (.depositBalance c) rfl),
      single_eq_of_ne (hne (.balance c) rfl), add_zero]
  · rw [getDepositBalance, getDepositBalance, h.amounts _ rfl]

theorem proxiedCharge_local (c u : Address) (apb : AccountProxiedBalance) :
    LocalTo c u (proxiedCharge c u apb).2.2 := by
  rw [proxiedCharge]
  split
  · rw [add_comm (depositPosting c u _)]
    exact shift_local c u _ _
  · exact fun _ _ => ⟨rfl, rfl, rfl⟩

theorem releaseCharge_own (c : Address) : AccountCharge c (releaseCharge c) := by
  refine AccountCharge.ite (fun h => by rw [h.isCandidate])
    (AccountCharge.sum (χ := proxiedCharge c) ?_ ?_ ?_) (AccountCharge.zero c)
  · intro u apb b hb
    rw [proxiedCharge] at hb
    split at hb
    · simpa using hb
    · exact absurd hb (Multiset.notMem_zero _)
  · intro u apb
    rw [proxiedCharge]
    split <;> rfl
  · intro u apb k hk
    rw [proxiedCharge]
    split
    · rw [add_comm (depositPosting c u _)]
      exact shift_apply_of_owner_ne hk _ _
    · rfl

/-- The account of an address after a charge to it. -/
theorem SameAccount.settle {χ : StateDB → Charge} (h : AccountCharge a χ)
    (hst : SameAccount a s t) : SameAccount a (s.settle (χ s)) (t.settle (χ t)) where
  account := by
    rw [h.congr hst]
    simp only [StateDB.settle, hst.account]
  amounts := by
    intro k hk
    rw [h.congr hst]
    show t.amounts k + _ = s.amounts k + _
    rw [hst.amounts k hk]
  proxiedTrie := hst.proxiedTrie

theorem knockoutCharge_own (c : Address) : AccountCharge c (knockoutCharge c) := by
  refine AccountCharge.add (releaseCharge_own c) ?_
  have hown := ownCharge_own c
  exact ⟨fun s => hown.touches _, fun s => hown.resets _, fun s => hown.posts _,
    fun hst => hown.congr (hst.settle (releaseCharge_own c))⟩

theorem payRefund_knockout (c : Address) (s : StateDB) :
    s.payRefund rt ⟨c, none, true⟩ = s.settle (knockoutCharge c s) := by
  have hrelease : (if s.isCandidate c then s.forEachProxied rt.trieOrder c (moveToProxied c)
      else s) = s.settle (releaseCharge c s) := by
    rw [releaseCharge]
    split
    · exact forEachProxied_eq s rt.trieOrder c (fun t u => moveToProxied_eq t c u _)
        (proxiedCharge_local c)
    · exact (settle_zero s).symm
  rw [knockoutCharge, ← settle_settle, ← payOwn_eq, ← hrelease]
  rfl

/-- Two addresses that are knocked out can be refunded in any order. -/
theorem payRefund_comm (a b : Address) (s : StateDB) :
    (s.payRefund rt ⟨a, none, true⟩).payRefund rt ⟨b, none, true⟩ =
      (s.payRefund rt ⟨b, none, true⟩).payRefund rt ⟨a, none, true⟩ := by
  by_cases hab : a = b
  · rw [hab]
  · simp only [payRefund_knockout]
    exact (knockoutCharge_own a).comm (knockoutCharge_own b) hab s

/-! ## The candidates are added -/

/-- The order in which a set is gone through makes a permutation. -/
theorem list_perm (it it' : Ledger.Iteration Address) (S : Finset Address) :
    (it.list S).Perm (it'.list S) := by
  refine (List.perm_ext_iff_of_nodup (it.nodup S) (it'.nodup S)).2 fun a => ?_
  rw [it.mem, it'.mem]

/-- **Adding the candidates does not depend on the runtime.** -/
theorem addCandidates_congr (rt rt' : Runtime) (s : StateDB) (vs : List Validator)
    (voteSet : EpochValidatorVoteSet) :
    (s.addCandidates rt' vs voteSet).1 = (s.addCandidates rt vs voteSet).1 := by
  rw [addCandidates, addCandidates]
  split
  · rfl
  have hbanned : (rt'.bannedOrder.list s.candidateSet.cache).foldl dropIfBanned s =
      (rt.bannedOrder.list s.candidateSet.cache).foldl dropIfBanned s :=
    (list_perm _ _ _).foldl_eq' (fun a _ b _ t => dropIfBanned_comm t a b) s
  rw [hbanned, foldl_candidateVote_fst, foldl_candidateVote_fst]
  refine (list_perm _ _ _).foldl_eq' (fun a _ b _ t => ?_) _
  by_cases hab : a = b
  · rw [hab]
  · exact (voteCharge_own a).comm (voteCharge_own b) hab t

end StateDB

/-! ## The cut -/

/-- Validators that are not tied among the first hundred: of two that are, in a list that has to be
cut, a hundred come before both. -/
def Untied (l : List Validator) : Prop :=
  100 < l.length → ∀ v ∈ l, ∀ w ∈ l, v.remainingEpoch = w.remainingEpoch →
    v.votingPower = w.votingPower → v = w ∨ 100 ≤ rank l v

theorem tied_iff {w : Validator} : validatorLess v w = false ∧ validatorLess w v = false ↔
    v.remainingEpoch = w.remainingEpoch ∧ v.votingPower = w.votingPower := by
  rw [not_validatorLess_iff, not_validatorLess_iff]
  omega

section Cut

variable {l : List Validator}

theorem sort_take_eq (rt rt' : Runtime) (h : Untied l) (hl : 100 < l.length) :
    (rt'.sortValidators.sort l).take 100 = (rt.sortValidators.sort l).take 100 := by
  refine SortSlice.take_eq _ _ validatorLess_irrefl 100 fun v hv w hw hvw hwv => ?_
  obtain ⟨hepoch, hpower⟩ := tied_iff.1 ⟨hvw, hwv⟩
  exact h hl v hv w hw hepoch hpower

theorem rank_eq_of_tied {w : Validator} (hepoch : v.remainingEpoch = w.remainingEpoch)
    (hpower : v.votingPower = w.votingPower) : rank l v = rank l w := by
  have hless (u : Validator) : validatorLess u v = validatorLess u w := by
    rw [validatorLess, validatorLess, hepoch, hpower]
  simp only [rank, SortSlice.ahead, hless]

theorem getElem?_cut_early (rt : Runtime) (hl : 100 < l.length) (hv : v ∈ l)
    (hrank : rank l v < 100) : ((rt.early v).cut l)[rank l v]? = some v := by
  rw [Runtime.cut, if_pos hl, List.getElem?_take_of_lt hrank]
  exact SortSlice.early_getElem? validatorLess_asymm not_validatorLess_trans rt.sortValidators hv

/-- **When the cut is the same**, however the validators are sorted. -/
theorem cut_eq_iff (rt : Runtime) :
    (∀ rt' : Runtime, rt'.trieOrder = rt.trieOrder → rt'.cut l = rt.cut l) ↔ Untied l := by
  constructor
  · intro h hl v hv w hw hepoch hpower
    by_contra hnot
    rw [not_or, Nat.not_le] at hnot
    have hsame := rank_eq_of_tied (l := l) hepoch hpower
    have hfirst := getElem?_cut_early rt hl hv hnot.2
    have hsecond := getElem?_cut_early rt hl hw (hsame ▸ hnot.2)
    rw [h (rt.early v) rfl] at hfirst
    rw [h (rt.early w) rfl, ← hsame, hfirst] at hsecond
    exact hnot.1 (Option.some.inj hsecond)
  · intro h rt' _
    rw [Runtime.cut, Runtime.cut]
    split
    · rename_i hl
      exact sort_take_eq rt rt' h hl
    · rfl

/-- Those who are knocked out are the same then, but their order need not be. -/
theorem knockout_perm (rt rt' : Runtime) (h : Untied l) :
    (rt'.knockout l).Perm (rt.knockout l) := by
  rw [Runtime.knockout, Runtime.knockout]
  split
  · rename_i hl
    refine List.Perm.map _ ?_
    rw [← List.perm_append_left_iff ((rt.sortValidators.sort l).take 100), List.take_append_drop,
      ← sort_take_eq rt rt' h hl, List.take_append_drop]
    exact (rt'.sortValidators.perm l).trans (rt.sortValidators.perm l).symm
  · exact List.Perm.refl _

end Cut

/-! ## The switch -/

/-- A vote adds at most one validator, and counts it. -/
theorem size_mergeVote_le (m : Merge) (w : EpochValidatorVote) :
    (mergeVote m w).validators.size + m.newValSize ≤ m.validators.size +
      (mergeVote m w).newValSize := by
  rw [mergeVote_eq]
  cases w.revealed with
  | none => exact Nat.le_refl _
  | some =>
    cases (m.validators.getByAddress w.address).2 with
    | none =>
      show (m.validators.validators ++ [_]).length + _ ≤ m.validators.validators.length +
        (m.newValSize + 1)
      rw [List.length_append, List.length_singleton]
      omega
    | some =>
      dsimp only
      split
      · exact Nat.add_le_add_right (List.eraseP_sublist).length_le _
      · exact Nat.le_of_eq (congrArg (· + m.newValSize) List.length_set)

theorem size_foldl_mergeVote_le (votes : List EpochValidatorVote) (m : Merge) :
    (votes.foldl mergeVote m).validators.size + m.newValSize ≤
      m.validators.size + (votes.foldl mergeVote m).newValSize := by
  induction votes generalizing m with
  | nil => exact Nat.le_refl _
  | cons w _ ih =>
    have hstep := size_mergeVote_le m w
    have hrest := ih (mergeVote m w)
    rw [List.foldl_cons]
    omega

/-- `updateEpochValidatorSet`, for any validator set: the votes are merged, and the set is cut. -/
theorem updateEpochValidatorSet_merge (rt : Runtime) (vs : ValidatorSet)
    (voteSet : EpochValidatorVoteSet)
    {m : Merge} (hm : voteSet.votes.foldl mergeVote ⟨vs, [], 0⟩ = m) :
    updateEpochValidatorSet rt vs voteSet =
      (⟨rt.cut (subtractRemainingEpoch m.validators).validators⟩,
        m.refund ++ rt.knockout (subtractRemainingEpoch m.validators).validators) := by
  have hsize : (subtractRemainingEpoch m.validators).size ≤ vs.size + m.newValSize := by
    have hle := size_foldl_mergeVote_le voteSet.votes ⟨vs, [], 0⟩
    rw [hm] at hle
    rw [subtractRemainingEpoch, ValidatorSet.size, List.length_map]
    exact hle
  rw [updateEpochValidatorSet, hm, Runtime.cut, Runtime.knockout]
  by_cases h : 100 < (subtractRemainingEpoch m.validators).validators.length
  · have hval : determineValSize (vs.size + m.newValSize) = 100 :=
      if_pos (Nat.lt_of_lt_of_le h hsize)
    rw [hval, if_pos h, if_pos h]
    exact if_pos h
  · have hval : ¬ determineValSize (vs.size + m.newValSize) <
      (subtractRemainingEpoch m.validators).size := by
      rw [determineValSize, maximumValidatorsSize, minimumValidatorsSize]
      split
      · exact h
      · split <;> omega
    rw [if_neg hval, if_neg h, if_neg h, List.append_nil]

section Switch

variable (vs : ValidatorSet) (votes : Option EpochValidatorVoteSet) (s : StateDB)

/-- The votes are merged into the validators that the loop leaves. -/
def merged : Merge :=
  ((votes.getD .new).votes ++ (afterLoop vs s).db.newVotes
    ((afterLoop vs s).db.contenders (afterLoop vs s).db.candidateSet.cache
      (afterLoop vs s).validators
      (votes.getD .new).votes)).foldl mergeVote ⟨⟨(afterLoop vs s).validators⟩, [], 0⟩

/-- The validators of the next epoch, before they are sorted and cut. -/
def unsorted : List Validator := (subtractRemainingEpoch (merged vs votes s).validators).validators

/-- If no address is in the set twice, these are the members of the next set. -/
theorem unsorted_eq (hnodup : (vs.validators.map (·.address)).Nodup) :
    unsorted vs votes s = s.nextMembers vs.validators votes := by
  have hvotes := addCandidates_nextVotes Runtime.sorted votes s hnodup
  rw [StateDB.addCandidates_votes, ← afterLoop_validators s hnodup] at hvotes
  rw [unsorted, merged, hvotes, afterLoop_validators s hnodup,
    foldl_mergeVote (s.survivors_nodup hnodup) (s.nextVotes_nodup _ votes)]
  rfl

/-- The switch, with everything but the sorting worked out. -/
theorem enterNewEpoch_eq_unsorted (rt : Runtime) :
    enterNewEpoch rt vs votes s =
      (((afterLoop vs s).refunds ++
          ((merged vs votes s).refund ++ rt.knockout (unsorted vs votes s))).foldl
          (StateDB.payRefund rt)
        (((rt.cut (unsorted vs votes s)).map (·.address)).foldl (StateDB.depositProxied rt)
          ((afterLoop vs s).db.addCandidates rt (afterLoop vs s).validators (votes.getD .new)).1),
        ⟨rt.cut (unsorted vs votes s)⟩) := by
  have hmerge := updateEpochValidatorSet_merge rt ⟨(afterLoop vs s).validators⟩
    ((afterLoop vs s).db.addCandidates rt (afterLoop vs s).validators (votes.getD .new)).2
    (m := merged vs votes s) (by rw [StateDB.addCandidates_votes, merged])
  rw [enterNewEpoch, StateDB.refundDelegates_eq]
  dsimp only
  rw [← afterLoop, hmerge]
  rfl

variable {vs votes s}

/-- Without ties, the whole switch is the same. -/
theorem enterNewEpoch_congr {rt rt' : Runtime} (htrie : rt'.trieOrder = rt.trieOrder)
    (h : Untied (unsorted vs votes s)) :
    enterNewEpoch rt' vs votes s = enterNewEpoch rt vs votes s := by
  have hdeposit : StateDB.depositProxied rt' = StateDB.depositProxied rt := by
    funext t a
    rw [StateDB.depositProxied, StateDB.depositProxied, htrie]
  have hpay : StateDB.payRefund rt' = StateDB.payRefund rt := by
    funext t r
    rw [StateDB.payRefund, StateDB.payRefund, htrie]
  have hknockout (r : RefundValidatorAmount) (hr : r ∈ rt'.knockout (unsorted vs votes s)) :
      r = ⟨r.address, none, true⟩ := by
    rw [Runtime.knockout] at hr
    split at hr
    · obtain ⟨_, -, rfl⟩ := List.mem_map.1 hr
      rfl
    · cases hr
  rw [enterNewEpoch_eq_unsorted, enterNewEpoch_eq_unsorted, (cut_eq_iff rt).2 h rt' htrie,
    StateDB.addCandidates_congr rt rt', hdeposit, hpay]
  simp only [List.foldl_append]
  congr 1
  refine (knockout_perm rt rt' h).foldl_eq' (fun r hr r' hr' t => ?_) _
  rw [hknockout r hr, hknockout r' hr']
  exact StateDB.payRefund_comm rt _ _ t

end Switch

/-- **Does the switch depend on the runtime?**  What `ShouldEnterNewEpoch` returns and the state it
leaves are the same for all orders of the maps and all sorting algorithms exactly if the validators
of the next epoch are not tied among the first hundred.  If no address is in the validator set
twice, these are the ones that the state, the votes and the validators before the switch tell. -/
theorem switch_deterministic_iff (rt : Runtime) (epoch : Epoch)
    (nextEpoch : Option (Option EpochValidatorVoteSet)) (height : Nat) (s : StateDB) :
    ((∀ rt' : Runtime, rt'.trieOrder = rt.trieOrder →
      shouldEnterNewEpoch rt' epoch nextEpoch height s =
        shouldEnterNewEpoch rt epoch nextEpoch height s) ↔
      ∀ votes, height = epoch.endBlock → nextEpoch = some votes →
        Untied (unsorted epoch.validators votes s)) ∧
    ∀ votes, (epoch.validators.validators.map (·.address)).Nodup →
      unsorted epoch.validators votes s = s.nextMembers epoch.validators.validators votes := by
  refine ⟨?_, fun votes hnodup => unsorted_eq epoch.validators votes s hnodup⟩
  constructor
  · rintro h votes rfl rfl
    refine (cut_eq_iff rt).1 fun rt' htrie => ?_
    have hrun := h rt' htrie
    rw [shouldEnterNewEpoch, shouldEnterNewEpoch, if_pos rfl, if_pos rfl] at hrun
    rw [enterNewEpoch_eq_unsorted, enterNewEpoch_eq_unsorted] at hrun
    have hset := (Prod.mk.inj hrun).2
    rw [SwitchResult.enter.injEq] at hset
    exact congrArg ValidatorSet.validators hset
  · intro h rt' htrie
    rw [shouldEnterNewEpoch.eq_def, shouldEnterNewEpoch.eq_def]
    by_cases hheight : height = epoch.endBlock
    · cases nextEpoch with
      | none => rfl
      | some votes =>
        dsimp only
        rw [enterNewEpoch_congr htrie (h votes hheight rfl)]
    · rw [if_neg hheight, if_neg hheight]

/-- The addresses of the set that is returned. -/
def SwitchResult.addresses : SwitchResult → List Address
  | .enter newValidators => newValidators.validators.map (·.address)
  | _ => []

theorem addresses_switch (rt : Runtime) (epoch : Epoch) (height : Nat)
    (hheight : height = epoch.endBlock)
    (hnodup : (epoch.validators.validators.map (·.address)).Nodup)
    (votes : Option EpochValidatorVoteSet)
    (s : StateDB) :
    (shouldEnterNewEpoch rt epoch (some votes) height s).2.addresses =
      (rt.cut (s.nextMembers epoch.validators.validators votes)).map (·.address) := by
  rw [shouldEnterNewEpoch, if_pos hheight]
  dsimp only
  rw [enterNewEpoch_validators rt votes s hnodup]
  rfl

/-- A vote of one coin. -/
def evenVote (i : Nat) : EpochValidatorVote := ⟨[i.toUInt8], some [], some 1, "neatio"⟩

/-- A hundred votes of the same amount. -/
def evenVotes : EpochValidatorVoteSet where
  votes := (List.range 100).map evenVote
  nodup := by
    rw [List.map_map]
    refine List.Nodup.map_on (fun i hi j hj h => ?_) List.nodup_range
    have hbyte : i.toUInt8.toNat = j.toUInt8.toNat := congrArg UInt8.toNat (List.cons.inj h).1
    rw [List.mem_range] at hi hj
    rw [Nat.toUInt8_eq, Nat.toUInt8_eq, UInt8.toNat_ofNat', UInt8.toNat_ofNat'] at hbyte
    omega

/-- The newcomer that one of these votes makes. -/
def evenMember (i : Nat) : Validator := ⟨[i.toUInt8], [], 1, 0⟩

/-- One address has a deposit, and is the only validator. -/
def oneDeposit : StateDB := StateDB.new.add (.depositBalance [200]) 5

def oneValidator : Epoch := shortEpoch [⟨[200], [], 5, 0⟩]

/-- **Two nodes get different validators.**  A validator with a deposit stays, and a hundred votes
of the same amount make a hundred newcomers, so that one of them is knocked out.  Which one it is
depends on the sorting algorithm. -/
theorem switch_not_deterministic :
    (Runtime.sorted.early (evenMember 0)).trieOrder =
      (Runtime.sorted.early (evenMember 99)).trieOrder ∧
    [99] ∉ (shouldEnterNewEpoch (Runtime.sorted.early (evenMember 0)) oneValidator
      (some (some evenVotes)) 3 oneDeposit).2.addresses ∧
    [99] ∈ (shouldEnterNewEpoch (Runtime.sorted.early (evenMember 99)) oneValidator
      (some (some evenVotes)) 3 oneDeposit).2.addresses := by
  refine ⟨rfl, ?_, ?_⟩
  · rw [addresses_switch _ oneValidator 3 rfl (by decide)]
    decide +kernel
  · rw [addresses_switch _ oneValidator 3 rfl (by decide)]
    decide +kernel

end NeatPoS
