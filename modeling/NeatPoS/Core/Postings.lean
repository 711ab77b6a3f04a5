import NeatPoS.Core.StateDB

/-!
# What the functions of the state database post

Each function of `NeatPoS.Core.StateDB` adds something to the ledger of amounts and leaves the rest
of the database nearly alone.  `Posts s s' Δ` says so once and for all: the amounts of `s'` are
those of `s` plus `Δ`, the keys of the tries and the flags of the accounts are the same, and every
account with a changed amount is dirty.

Postings are composed by adding them up (`Posts.trans`).  `forEachProxied_posts` does this for a
loop over the entries of a candidate: the callback for one user does not look at the entries of the
others, so that the loop posts the sum over the users of what the callback posts for the entry as it
was at the start.  `forEachProxied_entry` says the same about single entries.

Two weaker relations are for the callbacks, some of which change flags.  `Touches` keeps the part of
`Posts` that `Finalise` depends on, and `Still` is about functions that have nothing to do with
delegations.
-/

set_option autoImplicit false

namespace NeatPoS

open DFinsupp

/-- What is added to the amounts. -/
abbrev Posting := Π₀ _ : Slot, Int

/-- The amounts that concern their owner only. -/
def Slot.own : Slot → Bool
  | .balance _ | .depositBalance _ | .availableRewardBalance _ => true
  | _ => false

namespace StateDB

/-- The flags of an account that the epoch switch reads. -/
def flags (s : StateDB) (a : Address) : Bool × Bool × Bytes :=
  ((s.accounts a).candidate, (s.accounts a).isBanned, (s.accounts a).pubkey)

/-- From `s` to `s'`, the amounts `Δ` are posted. -/
structure Posts (s s' : StateDB) (Δ : Posting) : Prop where
  amounts : s'.amounts = s.amounts + Δ
  proxiedTrie : s'.proxiedTrie = s.proxiedTrie
  flags : ∀ a, s'.flags a = s.flags a
  dirty_mono : s.dirty ⊆ s'.dirty
  dirty_of_ne : ∀ k, Δ k ≠ 0 → k.owner ∈ s'.dirty

namespace Posts

variable {s s' s'' : StateDB} {Δ Δ' : Posting}

theorem refl (s : StateDB) : Posts s s 0 :=
  ⟨(add_zero _).symm, rfl, fun _ => rfl, Finset.Subset.refl _, fun _ h => absurd rfl h⟩

section

variable (h : Posts s s' Δ)
include h

theorem trans (h' : Posts s' s'' Δ') : Posts s s'' (Δ + Δ') where
  amounts := by rw [h'.amounts, h.amounts, add_assoc]
  proxiedTrie := h'.proxiedTrie.trans h.proxiedTrie
  flags := fun a => (h'.flags a).trans (h.flags a)
  dirty_mono := h.dirty_mono.trans h'.dirty_mono
  dirty_of_ne := by
    intro k hk
    by_cases hΔ : Δ k = 0
    · refine h'.dirty_of_ne k fun hΔ' => hk ?_
      rw [DFinsupp.add_apply, hΔ, hΔ', add_zero]
    · exact h'.dirty_mono (h.dirty_of_ne k hΔ)

/-- A part that posts nothing may be left out of the sum. -/
theorem trans_zero (h' : Posts s' s'' 0) : Posts s s'' Δ := by
  simpa using h.trans h'

omit h in
theorem zero_trans (h : Posts s s' 0) (h' : Posts s' s'' Δ) : Posts s s'' Δ := by
  simpa using h.trans h'

theorem apply (k : Slot) : s'.amounts k = s.amounts k + Δ k := by
  rw [h.amounts, DFinsupp.add_apply]

theorem isCandidate (a : Address) : s'.isCandidate a = s.isCandidate a :=
  congrArg Prod.fst (h.flags a)

theorem isBanned (a : Address) : (s'.accounts a).isBanned = (s.accounts a).isBanned :=
  congrArg (fun f => f.2.1) (h.flags a)

theorem pubkey (a : Address) : (s'.accounts a).pubkey = (s.accounts a).pubkey :=
  congrArg (fun f => f.2.2) (h.flags a)

/-- The entry of a user that nothing is posted to. -/
theorem getAccountProxiedBalance {a u : Address} (hp : Δ (.proxied a u) = 0)
    (hd : Δ (.depositProxied a u) = 0) (hr : Δ (.pendingRefund a u) = 0) :
    s'.getAccountProxiedBalance a u = s.getAccountProxiedBalance a u := by
  simp only [StateDB.getAccountProxiedBalance, h.apply, hp, hd, hr, add_zero]

end

end Posts

/-- The entry of a user after a posting. -/
theorem Posts.entry {s s' : StateDB} {Δ : Posting} (h : Posts s s' Δ) (a u : Address) :
    s'.getAccountProxiedBalance a u =
      ⟨s.amounts (.proxied a u) + Δ (.proxied a u),
        s.amounts (.depositProxied a u) + Δ (.depositProxied a u),
        s.amounts (.pendingRefund a u) + Δ (.pendingRefund a u)⟩ := by
  simp only [StateDB.getAccountProxiedBalance, h.apply]

/-- From `s` to `s'`, the tries are not written, and every account with a changed amount is
dirty. -/
structure Touches (s s' : StateDB) : Prop where
  proxiedTrie : s'.proxiedTrie = s.proxiedTrie
  dirty_mono : s.dirty ⊆ s'.dirty
  dirty_of_ne : ∀ k, s'.amounts k ≠ s.amounts k → k.owner ∈ s'.dirty

namespace Touches

variable {s s' s'' : StateDB} {Δ : Posting}

theorem of_amounts (ht : s'.proxiedTrie = s.proxiedTrie) (hd : s.dirty ⊆ s'.dirty)
    (ha : s'.amounts = s.amounts) : Touches s s' :=
  ⟨ht, hd, fun k hk => absurd (congrArg (fun f => f k) ha) hk⟩

theorem refl (s : StateDB) : Touches s s := of_amounts rfl (Finset.Subset.refl _) rfl

theorem trans (h : Touches s s') (h' : Touches s' s'') : Touches s s'' where
  proxiedTrie := h'.proxiedTrie.trans h.proxiedTrie
  dirty_mono := h.dirty_mono.trans h'.dirty_mono
  dirty_of_ne := by
    intro k hk
    by_cases hk' : s''.amounts k = s'.amounts k
    · rw [hk'] at hk
      exact h'.dirty_mono (h.dirty_of_ne k hk)
    · exact h'.dirty_of_ne k hk'

theorem of_posts (h : Posts s s' Δ) : Touches s s' where
  proxiedTrie := h.proxiedTrie
  dirty_mono := h.dirty_mono
  dirty_of_ne := by
    intro k hk
    refine h.dirty_of_ne k fun hΔ => hk ?_
    rw [h.apply, hΔ, add_zero]

end Touches

/-! ## Single functions -/

variable (s : StateDB) (a : Address)

theorem markStateObjectDirty_posts : Posts s (s.markStateObjectDirty a) 0 :=
  ⟨(add_zero _).symm, rfl, fun _ => rfl, Finset.subset_insert _ _, fun _ h => absurd rfl h⟩

/-- A change of an account that keeps its flags. -/
theorem setAccounts_posts {s : StateDB} {a : Address} {acc : Account}
    (h : (acc.candidate, acc.isBanned, acc.pubkey) = s.flags a) :
    Posts s { s with accounts := Function.update s.accounts a acc } 0 where
  amounts := (add_zero _).symm
  proxiedTrie := rfl
  flags := by
    intro b
    by_cases hb : b = a
    · subst hb
      simpa [StateDB.flags] using h
    · simp [StateDB.flags, Function.update_of_ne hb]
  dirty_mono := Finset.Subset.refl _
  dirty_of_ne := fun _ h => absurd rfl h

theorem getOrNewStateObject_posts : Posts s (s.getOrNewStateObject a) 0 := by
  rw [getOrNewStateObject]
  split
  · exact Posts.refl s
  · have hlive : Posts s
        { s with accounts := Function.update s.accounts a { s.accounts a with live := true } } 0 :=
      setAccounts_posts rfl
    exact hlive.trans_zero (markStateObjectDirty_posts _ a)

theorem getOrNewStateObject_accounts (a b : Address) :
    (s.getOrNewStateObject a).accounts b =
      if b = a then { s.accounts b with live := true } else s.accounts b := by
  rw [getOrNewStateObject]
  split
  · rename_i hlive
    split
    · rename_i hb
      rw [hb, ← hlive]
    · rfl
  · show Function.update s.accounts a { s.accounts a with live := true } b = _
    by_cases hb : b = a
    · rw [if_pos hb, hb, Function.update_self]
    · rw [if_neg hb, Function.update_of_ne hb]

theorem getOrNewStateObject_idem :
    (s.getOrNewStateObject a).getOrNewStateObject a = s.getOrNewStateObject a := by
  have hlive : ((s.getOrNewStateObject a).accounts a).live = true := by
    rw [getOrNewStateObject_accounts, if_pos rfl]
  rw [getOrNewStateObject, if_pos hlive]

/-- `setAccount` in closed form. -/
theorem setAccount_eq (f : Account → Account) :
    s.setAccount a f =
      { s with
        accounts := Function.update s.accounts a (f { s.accounts a with live := true })
        dirty := insert a s.dirty } := by
  by_cases hlive : (s.accounts a).live = true
  · have hacc : { s.accounts a with live := true } = s.accounts a := by rw [← hlive]
    simp only [setAccount, getOrNewStateObject, if_pos hlive, markStateObjectDirty, hacc]
  · simp only [setAccount, getOrNewStateObject, if_neg hlive, markStateObjectDirty,
      Function.update_self, Function.update_idem, Finset.insert_idem]

theorem setAccount_accounts (a b : Address) (f : Account → Account) :
    (s.setAccount a f).accounts b =
      if b = a then f { s.accounts b with live := true } else s.accounts b := by
  rw [setAccount_eq]
  show Function.update s.accounts a (f { s.accounts a with live := true }) b = _
  by_cases hb : b = a
  · rw [if_pos hb, hb, Function.update_self]
  · rw [if_neg hb, Function.update_of_ne hb]

@[simp] theorem getOrNewStateObject_amounts : (s.getOrNewStateObject a).amounts = s.amounts := by
  rw [getOrNewStateObject]
  split <;> rfl

@[simp] theorem setAccount_amounts (f : Account → Account) :
    (s.setAccount a f).amounts = s.amounts :=
  getOrNewStateObject_amounts s a

/-! ### Sets of addresses -/

@[simp] theorem getOrNewStateObject_refundSet :
    (s.getOrNewStateObject a).delegateRefundSet = s.delegateRefundSet := by
  rw [getOrNewStateObject]
  split <;> rfl

@[simp] theorem setAccount_refundSet (f : Account → Account) :
    (s.setAccount a f).delegateRefundSet = s.delegateRefundSet :=
  getOrNewStateObject_refundSet s a

variable (k : Slot) (x : Int)

@[simp] theorem add_refundSet : (s.add k x).delegateRefundSet = s.delegateRefundSet := by
  rw [← getOrNewStateObject_refundSet s k.owner, add]
  split
  · split <;> rfl
  · rfl

@[simp] theorem sub_refundSet : (s.sub k x).delegateRefundSet = s.delegateRefundSet := by
  rw [← getOrNewStateObject_refundSet s k.owner, sub]
  split <;> rfl

@[simp] theorem setEntry_refundSet : (s.setEntry k x).delegateRefundSet = s.delegateRefundSet :=
  getOrNewStateObject_refundSet s k.owner

@[simp] theorem getOrNewStateObject_candidateSet :
    (s.getOrNewStateObject a).candidateSet = s.candidateSet := by
  rw [getOrNewStateObject]
  split <;> rfl

@[simp] theorem setAccount_candidateSet (f : Account → Account) :
    (s.setAccount a f).candidateSet = s.candidateSet :=
  getOrNewStateObject_candidateSet s a

@[simp] theorem add_candidateSet : (s.add k x).candidateSet = s.candidateSet := by
  rw [← getOrNewStateObject_candidateSet s k.owner, add]
  split
  · split <;> rfl
  · rfl

@[simp] theorem setEntry_candidateSet : (s.setEntry k x).candidateSet = s.candidateSet :=
  getOrNewStateObject_candidateSet s k.owner

/-! ### Postings -/

theorem post_markStateObjectDirty_posts :
    Posts s ((s.post k x).markStateObjectDirty k.owner) (single k x) where
  amounts := rfl
  proxiedTrie := rfl
  flags := fun _ => rfl
  dirty_mono := Finset.subset_insert _ _
  dirty_of_ne := by
    intro k' hk'
    have hk : k' = k := by
      by_contra hne
      exact hk' (single_eq_of_ne hne)
    rw [hk]
    exact Finset.mem_insert_self _ _

theorem add_posts : Posts s (s.add k x) (single k x) := by
  rw [add]
  refine (getOrNewStateObject_posts s k.owner).zero_trans ?_
  by_cases hx : x = 0
  · rw [hx, single_zero, if_pos rfl]
    split
    · exact markStateObjectDirty_posts _ _
    · exact Posts.refl _
  · rw [if_neg hx]
    exact post_markStateObjectDirty_posts _ k x

theorem sub_posts : Posts s (s.sub k x) (single k (-x)) := by
  rw [sub]
  refine (getOrNewStateObject_posts s k.owner).zero_trans ?_
  by_cases hx : x = 0
  · rw [hx, neg_zero, single_zero, if_pos rfl]
    exact Posts.refl _
  · rw [if_neg hx]
    exact post_markStateObjectDirty_posts _ k (-x)

theorem setEntry_posts : Posts s (s.setEntry k x) (single k x) :=
  (getOrNewStateObject_posts s k.owner).zero_trans (post_markStateObjectDirty_posts _ k x)

theorem setAccount_posts {a : Address} {f : Account → Account}
    (hf : ∀ acc, ((f acc).candidate, (f acc).isBanned, (f acc).pubkey) =
      (acc.candidate, acc.isBanned, acc.pubkey)) : Posts s (s.setAccount a f) 0 := by
  rw [setAccount]
  refine (getOrNewStateObject_posts s a).zero_trans ?_
  refine (setAccounts_posts ?_).trans_zero (markStateObjectDirty_posts _ a)
  exact hf _

theorem clearCommission_posts : Posts s (s.clearCommission a) 0 :=
  setAccount_posts s fun _ => rfl

variable (n : Nat)

theorem setNonce_posts : Posts s (s.setNonce a n) 0 :=
  setAccount_posts s fun _ => rfl

theorem setBannedTime_posts : Posts s (s.setBannedTime a n) 0 :=
  setAccount_posts s fun _ => rfl

theorem setMinedBlocks_posts : Posts s (s.setMinedBlocks a n) 0 :=
  setAccount_posts s fun _ => rfl

theorem setAccount_proxiedTrie (f : Account → Account) :
    (s.setAccount a f).proxiedTrie = s.proxiedTrie :=
  (getOrNewStateObject_posts s a).proxiedTrie

theorem setAccount_touches (f : Account → Account) : Touches s (s.setAccount a f) :=
  Touches.of_amounts (setAccount_proxiedTrie s a f)
    ((getOrNewStateObject_posts s a).dirty_mono.trans (Finset.subset_insert _ _))
    (setAccount_amounts s a f)

/-! ## The two sides of a delegation

A change of a user's entry comes with the same change of the candidate's total. -/

/-- The proxied amount of a user. -/
def proxiedPosting (a u : Address) (x : Int) : Posting :=
  single (.proxied a u) x + single (.proxiedBalance a) x

/-- The deposit of a user. -/
def depositPosting (a u : Address) (x : Int) : Posting :=
  single (.depositProxied a u) x + single (.depositProxiedBalance a) x

/-- The pending refund of a user. -/
def pendingPosting (a u : Address) (x : Int) : Posting :=
  single (.pendingRefund a u) x + single (.pendingRefundBalance a) x

/-- The reward of an address. -/
def rewardPosting (a d : Address) (x : Int) : Posting :=
  single (.reward a d) x + single (.rewardBalance a) x

variable (u : Address)

theorem addProxiedBalanceByUser_posts (x : Int) :
    Posts s (s.addProxiedBalanceByUser a u x) (proxiedPosting a u x) :=
  (setEntry_posts s _ x).trans (add_posts _ (.proxiedBalance a) x)

theorem subProxiedBalanceByUser_posts (x : Int) :
    Posts s (s.subProxiedBalanceByUser a u x) (proxiedPosting a u (-x)) :=
  (setEntry_posts s _ (-x)).trans (sub_posts _ (.proxiedBalance a) x)

theorem addDepositProxiedBalanceByUser_posts (x : Int) :
    Posts s (s.addDepositProxiedBalanceByUser a u x) (depositPosting a u x) :=
  (setEntry_posts s _ x).trans (add_posts _ (.depositProxiedBalance a) x)

theorem subDepositProxiedBalanceByUser_posts (x : Int) :
    Posts s (s.subDepositProxiedBalanceByUser a u x) (depositPosting a u (-x)) :=
  (setEntry_posts s _ (-x)).trans (sub_posts _ (.depositProxiedBalance a) x)

theorem addPendingRefundBalanceByUser_posts (x : Int) :
    Posts s (s.addPendingRefundBalanceByUser a u x) (pendingPosting a u x) :=
  (setEntry_posts s _ x).trans (add_posts _ (.pendingRefundBalance a) x)

theorem subPendingRefundBalanceByUser_posts (x : Int) :
    Posts s (s.subPendingRefundBalanceByUser a u x) (pendingPosting a u (-x)) :=
  (setEntry_posts s _ (-x)).trans (sub_posts _ (.pendingRefundBalance a) x)

theorem addRewardBalanceByDelegateAddress_posts (a d : Address) (x : Int) :
    Posts s (s.addRewardBalanceByDelegateAddress a d x) (rewardPosting a d x) :=
  (setEntry_posts s _ x).trans (add_posts _ (.rewardBalance a) x)

theorem subRewardBalanceByDelegateAddress_posts (a d : Address) (x : Int) :
    Posts s (s.subRewardBalanceByDelegateAddress a d x) (rewardPosting a d (-x)) :=
  (setEntry_posts s _ (-x)).trans (sub_posts _ (.rewardBalance a) x)

/-! ## Loops over the entries of a candidate -/

/-- Nothing is posted to the entries of other users. -/
def LocalTo (a u : Address) (Δ : Posting) : Prop :=
  ∀ v, v ≠ u → Δ (.proxied a v) = 0 ∧ Δ (.depositProxied a v) = 0 ∧ Δ (.pendingRefund a v) = 0

variable {cb : StateDB → Address → AccountProxiedBalance → StateDB}

/-- **What a loop over the entries posts.** -/
theorem forEachProxied_posts
    {δ : Address → AccountProxiedBalance → Posting} (it : Ledger.Iteration Address) (a : Address)
    (hcb : ∀ t u, Posts t (cb t u (t.getAccountProxiedBalance a u))
      (δ u (t.getAccountProxiedBalance a u)))
    (hlocal : ∀ u apb, LocalTo a u (δ u apb)) :
    Posts s (s.forEachProxied it a cb)
      (∑ u ∈ s.proxiedTrie a, δ u (s.getAccountProxiedBalance a u)) := by
  rw [forEachProxied, ← it.sum_list]
  -- a round finds the entry of its user as it was before the loop
  refine Ledger.foldl_posts (R := fun u t =>
      t.getAccountProxiedBalance a u = s.getAccountProxiedBalance a u) Posts.refl Posts.trans ?_ ?_
    _ (it.nodup _) s fun _ _ => rfl
  · intro u t ht
    have hround := hcb t u
    rw [ht] at hround
    rwa [ht]
  · intro u v t huv _ hv
    obtain ⟨hp, hd, hr⟩ := hlocal u (t.getAccountProxiedBalance a u) v (Ne.symm huv)
    rw [(hcb t u).getAccountProxiedBalance hp hd hr, hv]

/-- What every round leaves alone, the loop leaves alone. -/
theorem forEachProxied_frame {β : Type} (f : StateDB → β) (it : Ledger.Iteration Address)
    (a : Address) (hcb : ∀ t u apb, f (cb t u apb) = f t) : f (s.forEachProxied it a cb) = f s := by
  rw [forEachProxied]
  induction it.list (s.proxiedTrie a) generalizing s with
  | nil => rfl
  | cons _ _ ih => rw [List.foldl_cons, ih, hcb]

/-- **What a loop over the entries does to one of them.** -/
theorem forEachProxied_entry
    {g : AccountProxiedBalance → AccountProxiedBalance} (it : Ledger.Iteration Address) (a : Address)
    (hself : ∀ t u, (cb t u (t.getAccountProxiedBalance a u)).getAccountProxiedBalance a u =
      g (t.getAccountProxiedBalance a u))
    (hother : ∀ t u v apb, v ≠ u →
      (cb t u apb).getAccountProxiedBalance a v = t.getAccountProxiedBalance a v) (u : Address) :
    (s.forEachProxied it a cb).getAccountProxiedBalance a u =
      if u ∈ s.proxiedTrie a then g (s.getAccountProxiedBalance a u)
      else s.getAccountProxiedBalance a u := by
  have hloop := Ledger.foldl_pointwise (I := fun _ => True)
    (r := fun t v => t.getAccountProxiedBalance a v) (g := fun _ => g)
    (fun _ _ _ => trivial) (fun t v _ => hself t v) (fun t v w _ hw => hother t v w _ hw)
    (it.list (s.proxiedTrie a)) (it.nodup _) s trivial u
  rw [forEachProxied, hloop]
  simp only [it.mem]

/-! ## Functions that have nothing to do with delegations -/

/-- From `s` to `s'`, nothing happens to delegations, rewards and candidates. -/
structure Still (s s' : StateDB) : Prop where
  amounts : ∀ k : Slot, k.own = false → s'.amounts k = s.amounts k
  proxiedTrie : s'.proxiedTrie = s.proxiedTrie
  candidate : ∀ a, s'.isCandidate a = s.isCandidate a
  delegateRefundSet : s'.delegateRefundSet = s.delegateRefundSet
  candidateSet : s'.candidateSet = s.candidateSet
  dirty_mono : s.dirty ⊆ s'.dirty

namespace Still

variable {s s' s'' : StateDB}

theorem refl (s : StateDB) : Still s s :=
  ⟨fun _ _ => rfl, rfl, fun _ => rfl, rfl, rfl, Finset.Subset.refl _⟩

theorem trans (h : Still s s') (h' : Still s' s'') : Still s s'' where
  amounts := fun k hk => (h'.amounts k hk).trans (h.amounts k hk)
  proxiedTrie := h'.proxiedTrie.trans h.proxiedTrie
  candidate := fun a => (h'.candidate a).trans (h.candidate a)
  delegateRefundSet := h'.delegateRefundSet.trans h.delegateRefundSet
  candidateSet := h'.candidateSet.trans h.candidateSet
  dirty_mono := h.dirty_mono.trans h'.dirty_mono

theorem foldl {α : Type} {f : StateDB → α → StateDB} (hf : ∀ t a, Still t (f t a)) (l : List α)
    (s : StateDB) : Still s (l.foldl f s) := by
  induction l generalizing s with
  | nil => exact refl s
  | cons a _ ih => exact (hf s a).trans (ih (f s a))

theorem entry (h : Still s s') (c u : Address) :
    s'.getAccountProxiedBalance c u = s.getAccountProxiedBalance c u := by
  simp only [getAccountProxiedBalance, h.amounts (.proxied c u) rfl,
    h.amounts (.depositProxied c u) rfl, h.amounts (.pendingRefund c u) rfl]

end Still

theorem markStateObjectDirty_still : Still s (s.markStateObjectDirty a) :=
  ⟨fun _ _ => rfl, rfl, fun _ => rfl, rfl, rfl, Finset.subset_insert _ _⟩

/-- A change of an account that keeps it a candidate, or not one. -/
theorem setAccounts_still {s : StateDB} {a : Address} {acc : Account}
    (h : acc.candidate = s.isCandidate a) :
    Still s { s with accounts := Function.update s.accounts a acc } where
  amounts := fun _ _ => rfl
  proxiedTrie := rfl
  candidate := by
    intro b
    by_cases hb : b = a
    · subst hb
      simpa [isCandidate] using h
    · simp [isCandidate, Function.update_of_ne hb]
  delegateRefundSet := rfl
  candidateSet := rfl
  dirty_mono := Finset.Subset.refl _

theorem getOrNewStateObject_still : Still s (s.getOrNewStateObject a) := by
  rw [getOrNewStateObject]
  split
  · exact Still.refl s
  · have hlive : Still s
        { s with accounts := Function.update s.accounts a { s.accounts a with live := true } } :=
      setAccounts_still rfl
    exact hlive.trans (markStateObjectDirty_still _ a)

theorem setAccount_still {a : Address} {f : Account → Account}
    (hf : ∀ acc, (f acc).candidate = acc.candidate) : Still s (s.setAccount a f) :=
  ((getOrNewStateObject_still s a).trans (setAccounts_still (hf _))).trans
    (markStateObjectDirty_still _ a)

theorem setNonce_still : Still s (s.setNonce a n) :=
  setAccount_still s fun _ => rfl

theorem setBanned_still (banned : Bool) : Still s (s.setBanned a banned) :=
  setAccount_still s fun _ => rfl

theorem setBannedTime_still : Still s (s.setBannedTime a n) :=
  setAccount_still s fun _ => rfl

theorem setMinedBlocks_still : Still s (s.setMinedBlocks a n) :=
  setAccount_still s fun _ => rfl

theorem markAddressBanned_still : Still s (s.markAddressBanned a) :=
  ⟨fun _ _ => rfl, rfl, fun _ => rfl, rfl, rfl, Finset.Subset.refl _⟩

theorem clearBannedSetByAddress_still : Still s (s.clearBannedSetByAddress a) :=
  ⟨fun _ _ => rfl, rfl, fun _ => rfl, rfl, rfl, Finset.Subset.refl _⟩

theorem post_still {k : Slot} (hk : k.own = true) (x : Int) : Still s (s.post k x) where
  amounts := by
    intro k' hk'
    have hne : k' ≠ k := by
      rintro rfl
      rw [hk] at hk'
      cases hk'
    simp [post, single_eq_of_ne hne]
  proxiedTrie := rfl
  candidate := fun _ => rfl
  delegateRefundSet := rfl
  candidateSet := rfl
  dirty_mono := Finset.Subset.refl _

theorem add_still {k : Slot} (hk : k.own = true) (x : Int) : Still s (s.add k x) := by
  rw [add]
  refine (getOrNewStateObject_still s k.owner).trans ?_
  split
  · split
    · exact markStateObjectDirty_still _ _
    · exact Still.refl _
  · exact (post_still _ hk x).trans (markStateObjectDirty_still _ _)

theorem sub_still {k : Slot} (hk : k.own = true) (x : Int) : Still s (s.sub k x) := by
  rw [sub]
  refine (getOrNewStateObject_still s k.owner).trans ?_
  split
  · exact Still.refl _
  · exact (post_still _ hk (-x)).trans (markStateObjectDirty_still _ _)

/-! ## Writing -/

section

variable {s s' : StateDB}

theorem finalise_ok (h : s.finalise = .ok s') :
    s' = s.finalised ∧ ∀ a ∈ s.dirty, s.empty a = false → s.unencodable a = false := by
  rw [finalise] at h
  split at h
  · cases h
  rename_i hpanic
  cases h
  refine ⟨rfl, fun a ha hempty => ?_⟩
  by_contra hne
  exact hpanic ⟨a, ha, hempty, by simpa using hne⟩

theorem finalised_amounts (s : StateDB) (k : Slot) :
    s.finalised.amounts k = if s.deletes k.owner = false then s.amounts k else 0 :=
  filter_apply _ _ _

theorem empty_of_deletes {a : Address} (h : ¬ s.deletes a = false) : s.empty a = true := by
  simp only [deletes, Bool.not_eq_false, Bool.and_eq_true] at h
  exact h.2

end

end StateDB

end NeatPoS
