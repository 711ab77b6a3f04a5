import NeatPoS.Core.Postings
import NeatPoS.Epoch.Switch

/-!
# Charges

What the epoch switch does to a state, exactly.  `Core/Postings.lean` follows the amounts only; here
the accounts that are created and marked dirty on the way are followed as well, so that two states
can be shown to be the same.

A `Charge` says which accounts are touched, whose commission is reset, and what is posted.  Charges
add up (`settle_settle`), and so does what a loop charges, in whatever order it goes
(`forEachProxied_eq`).  This gives Step 1 of the switch in closed form (`refundDelegates_eq`).
-/

set_option autoImplicit false

namespace NeatPoS

open DFinsupp

/-- What a part of the epoch switch does to the accounts: it touches some, resets the commission of
some, and posts amounts. -/
abbrev Charge := Multiset Address × Multiset Address × Posting

namespace StateDB

/-- A charge is entered. -/
def settle (s : StateDB) (m : Charge) : StateDB :=
  { s with
    amounts := s.amounts + m.2.2
    accounts := fun a =>
      { s.accounts a with
        live := (s.accounts a).live || decide (a ∈ m.1)
        commission := if a ∈ m.2.1 then 0 else (s.accounts a).commission }
    dirty := s.dirty ∪ m.1.toFinset }

variable (s : StateDB)

theorem settle_zero : s.settle 0 = s := by
  simp [settle]

theorem settle_settle (m m' : Charge) : (s.settle m).settle m' = s.settle (m + m') := by
  simp only [settle, Prod.fst_add, Prod.snd_add, Multiset.mem_add, Bool.decide_or, Bool.or_assoc,
    add_assoc, Multiset.toFinset_add, Finset.union_assoc]
  congr 1
  funext a
  congr 1
  by_cases h : a ∈ m.2.1 <;> by_cases h' : a ∈ m'.2.1 <;> simp [h, h']

/-- `GetOrNewStateObject` in closed form. -/
theorem getOrNewStateObject_eq (a : Address) :
    s.getOrNewStateObject a =
      { s with
        accounts := fun b => { s.accounts b with live := (s.accounts b).live || decide (b = a) }
        dirty := if (s.accounts a).live then s.dirty else insert a s.dirty } := by
  have haccounts : (s.getOrNewStateObject a).accounts =
      fun b => { s.accounts b with live := (s.accounts b).live || decide (b = a) } := by
    funext b
    rw [getOrNewStateObject]
    by_cases hb : b = a
    · subst hb
      by_cases h : (s.accounts b).live = true
      · rw [if_pos h, decide_eq_true rfl, Bool.or_true, ← h]
      · rw [if_neg h]
        simp [markStateObjectDirty]
    · split <;> simp [markStateObjectDirty, hb]
  rw [← haccounts, getOrNewStateObject]
  split <;> rfl

variable (k : Slot)

/-- An amount is posted to an account, which is touched. -/
theorem touch_eq (x : Int) (a : Address) :
    ((s.getOrNewStateObject a).post k x).markStateObjectDirty a = s.settle ({a}, 0, single k x) := by
  have hdirty : insert a (if (s.accounts a).live then s.dirty else insert a s.dirty) = s.dirty ∪ {a} := by
    rw [Finset.union_comm, ← Finset.insert_eq]
    split <;> simp
  rw [getOrNewStateObject_eq, post, markStateObjectDirty]
  simp only [hdirty, settle]
  simp

theorem setEntry_eq (x : Int) : s.setEntry k x = s.settle ({k.owner}, 0, single k x) :=
  touch_eq s k x k.owner

theorem add_eq {x : Int} (hx : x ≠ 0) : s.add k x = s.settle ({k.owner}, 0, single k x) := by
  rw [add, if_neg hx]
  exact touch_eq s k x k.owner

theorem sub_eq {x : Int} (hx : x ≠ 0) : s.sub k x = s.settle ({k.owner}, 0, single k (-x)) := by
  rw [sub, if_neg hx]
  exact touch_eq s k (-x) k.owner

variable {m : Charge}

theorem getOrNewStateObject_settle {a : Address} (ha : a ∈ m.1) :
    (s.settle m).getOrNewStateObject a = s.settle m := by
  rw [getOrNewStateObject, if_pos]
  simp [settle, ha]

theorem markStateObjectDirty_settle {a : Address} (ha : a ∈ m.1) :
    (s.settle m).markStateObjectDirty a = s.settle m := by
  have hdirty : a ∈ (s.settle m).dirty := Finset.mem_union_right _ (Multiset.mem_toFinset.2 ha)
  rw [markStateObjectDirty, Finset.insert_eq_self.2 hdirty]

/-- An addition to an account that has been touched. -/
theorem post_settle {k : Slot} (hk : k.owner ∈ m.1) (x : Int) :
    ((s.settle m).post k x).markStateObjectDirty k.owner =
      s.settle (m.1, m.2.1, m.2.2 + single k x) := by
  have hdirty : k.owner ∈ s.dirty ∪ m.1.toFinset :=
    Finset.mem_union_right _ (Multiset.mem_toFinset.2 hk)
  rw [post, markStateObjectDirty]
  simp only [settle, Finset.insert_eq_self.2 hdirty, add_assoc]

theorem add_settle {k : Slot} (hk : k.owner ∈ m.1) (x : Int) :
    (s.settle m).add k x = s.settle (m.1, m.2.1, m.2.2 + single k x) := by
  rw [add, getOrNewStateObject_settle s hk]
  by_cases hx : x = 0
  · rw [if_pos hx, markStateObjectDirty_settle s hk, ite_self, hx, single_zero, add_zero]
  · rw [if_neg hx, post_settle s hk]

theorem sub_settle {k : Slot} (hk : k.owner ∈ m.1) (x : Int) :
    (s.settle m).sub k x = s.settle (m.1, m.2.1, m.2.2 + single k (-x)) := by
  rw [sub, getOrNewStateObject_settle s hk]
  by_cases hx : x = 0
  · rw [if_pos hx, hx, neg_zero, single_zero, add_zero]
  · rw [if_neg hx, post_settle s hk]

/-! ## The functions of the switch -/

section Switch

variable (c u : Address) (x : Int)

theorem addProxiedBalanceByUser_eq :
    s.addProxiedBalanceByUser c u x = s.settle ({c}, 0, proxiedPosting c u x) := by
  rw [addProxiedBalanceByUser, setEntry_eq]
  exact add_settle s (Multiset.mem_singleton_self c) x

theorem subProxiedBalanceByUser_eq :
    s.subProxiedBalanceByUser c u x = s.settle ({c}, 0, proxiedPosting c u (-x)) := by
  rw [subProxiedBalanceByUser, setEntry_eq]
  exact sub_settle s (Multiset.mem_singleton_self c) x

theorem addDepositProxiedBalanceByUser_eq :
    s.addDepositProxiedBalanceByUser c u x = s.settle ({c}, 0, depositPosting c u x) := by
  rw [addDepositProxiedBalanceByUser, setEntry_eq]
  exact add_settle s (Multiset.mem_singleton_self c) x

theorem subDepositProxiedBalanceByUser_eq :
    s.subDepositProxiedBalanceByUser c u x = s.settle ({c}, 0, depositPosting c u (-x)) := by
  rw [subDepositProxiedBalanceByUser, setEntry_eq]
  exact sub_settle s (Multiset.mem_singleton_self c) x

theorem subPendingRefundBalanceByUser_eq :
    s.subPendingRefundBalanceByUser c u x = s.settle ({c}, 0, pendingPosting c u (-x)) := by
  rw [subPendingRefundBalanceByUser, setEntry_eq]
  exact sub_settle s (Multiset.mem_singleton_self c) x

theorem clearCommission_eq : s.clearCommission c = s.settle ({c}, {c}, 0) := by
  have hdirty : insert c (if (s.accounts c).live then s.dirty else insert c s.dirty) = s.dirty ∪ {c} := by
    rw [Finset.union_comm, ← Finset.insert_eq]
    split <;> simp
  rw [clearCommission, setAccount, getOrNewStateObject_eq, markStateObjectDirty]
  simp only [hdirty, settle]
  simp
  funext b
  by_cases hb : b = c
  · subst hb
    simp
  · simp [hb]

variable (apb : AccountProxiedBalance)

/-- Coins of a user go from the proxied part to the deposit. -/
theorem moveToDeposit_eq :
    moveToDeposit c s u apb = s.settle ({c} + {c}, 0,
      proxiedPosting c u (-apb.proxiedBalance) + depositPosting c u apb.proxiedBalance) := by
  rw [moveToDeposit, subProxiedBalanceByUser_eq, addDepositProxiedBalanceByUser_eq, settle_settle]
  rfl

theorem moveToProxied_eq :
    moveToProxied c s u apb = s.settle
      (if 0 < apb.depositProxiedBalance then ({c} + {c}, 0,
        depositPosting c u (-apb.depositProxiedBalance) + proxiedPosting c u apb.depositProxiedBalance)
      else 0) := by
  rw [moveToProxied]
  split
  · rw [subDepositProxiedBalanceByUser_eq, addProxiedBalanceByUser_eq, settle_settle]
    rfl
  · rw [settle_zero]

/-- The charge of a refund. -/
def refundCharge (c u : Address) (apb : AccountProxiedBalance) : Charge :=
  if 0 < apb.pendingRefundBalance then
    ({c} + {c} + {u} + {u}, 0,
      depositPosting c u (-apb.pendingRefundBalance) + pendingPosting c u (-apb.pendingRefundBalance) +
        single (.delegateBalance u) (-apb.pendingRefundBalance) +
        single (.balance u) apb.pendingRefundBalance)
  else 0

theorem refundUser_eq : refundUser c s u apb = s.settle (refundCharge c u apb) := by
  rw [refundUser, refundCharge]
  split
  · rename_i h
    have hne : apb.pendingRefundBalance ≠ 0 := Int.ne_of_gt h
    rw [subDepositProxiedBalanceByUser_eq, subPendingRefundBalanceByUser_eq, settle_settle,
      subDelegateBalance, sub_eq _ _ hne, settle_settle, addBalance, add_eq _ _ hne, settle_settle]
    rfl
  · rw [settle_zero]

end Switch

/-! ## Loops -/

theorem settle_entry (m : Charge) (c u : Address) :
    (s.settle m).getAccountProxiedBalance c u =
      ⟨s.amounts (.proxied c u) + m.2.2 (.proxied c u),
        s.amounts (.depositProxied c u) + m.2.2 (.depositProxied c u),
        s.amounts (.pendingRefund c u) + m.2.2 (.pendingRefund c u)⟩ :=
  rfl

/-- **A loop over the entries of a candidate** is charged at once. -/
theorem forEachProxied_eq {cb : StateDB → Address → AccountProxiedBalance → StateDB}
    {χ : Address → AccountProxiedBalance → Charge} (it : Ledger.Iteration Address) (c : Address)
    (hcb : ∀ t u, cb t u (t.getAccountProxiedBalance c u) =
      t.settle (χ u (t.getAccountProxiedBalance c u)))
    (hlocal : ∀ u apb, LocalTo c u (χ u apb).2.2) :
    s.forEachProxied it c cb =
      s.settle (∑ u ∈ s.proxiedTrie c, χ u (s.getAccountProxiedBalance c u)) := by
  rw [forEachProxied, ← it.sum_list]
  refine Ledger.foldl_posts (P := fun t t' m => t' = StateDB.settle t m)
    (R := fun u t => t.getAccountProxiedBalance c u = s.getAccountProxiedBalance c u)
    (fun t => (settle_zero t).symm) (fun h h' => by rw [h', h, settle_settle]) ?_ ?_ _ (it.nodup _) s
    fun _ _ => rfl
  · intro u t ht
    rw [hcb, ht]
  · intro u v t huv _ hv
    obtain ⟨hp, hd, hr⟩ := hlocal u (t.getAccountProxiedBalance c u) v (Ne.symm huv)
    rw [← hv, hcb, settle_entry, hp, hd, hr]
    simp [getAccountProxiedBalance]

theorem refundCharge_local (c u : Address) (apb : AccountProxiedBalance) :
    LocalTo c u (refundCharge c u apb).2.2 := by
  intro v hv
  rw [refundCharge]
  split
  · simp [depositPosting, pendingPosting, single_apply, Ne.symm hv]
  · exact ⟨rfl, rfl, rfl⟩

/-- What the refunds of one candidate are charged. -/
def addressCharge (s : StateDB) (c : Address) : Charge :=
  ∑ u ∈ s.proxiedTrie c, refundCharge c u (s.getAccountProxiedBalance c u) +
    if s.isCandidate c then 0 else ({c}, {c}, 0)

theorem refundAddress_eq_settle (rt : Runtime) (c : Address) :
    s.refundAddress rt c = s.settle (s.addressCharge c) := by
  rw [refundAddress, forEachProxied_eq s rt.trieOrder c (fun t u => refundUser_eq t c u _)
    (refundCharge_local c), addressCharge]
  have hcand (m : Charge) : (s.settle m).isCandidate c = s.isCandidate c := rfl
  rw [hcand]
  split
  · rw [add_zero]
  · rw [clearCommission_eq, settle_settle]

/-- The state with the refunds paid. -/
def refunded (s : StateDB) : StateDB :=
  { s.settle (∑ c ∈ s.delegateRefundSet.addresses, s.addressCharge c) with
    delegateRefundSet := .clear }

theorem charge_sum_apply {α : Type} (S : Finset α) (χ : α → Charge) (k : Slot) :
    (∑ a ∈ S, χ a).2.2 k = ∑ a ∈ S, (χ a).2.2 k := by
  rw [Prod.snd_sum, Prod.snd_sum, DFinsupp.finsetSum_apply]

theorem addressCharge_apply (c : Address) (k : Slot) :
    (s.addressCharge c).2.2 k =
      ∑ u ∈ s.proxiedTrie c, (refundCharge c u (s.getAccountProxiedBalance c u)).2.2 k := by
  have hcommission : (if s.isCandidate c then (0 : Charge) else ({c}, {c}, 0)).2.2 k = 0 := by
    split <;> rfl
  rw [addressCharge, Prod.snd_add, Prod.snd_add, DFinsupp.add_apply, hcommission, add_zero, charge_sum_apply]

/-- The refunds of one candidate do not concern the entries of another one. -/
theorem addressCharge_apply_of_ne {c c' : Address} (h : c' ≠ c) (u : Address) :
    (s.addressCharge c).2.2 (.proxied c' u) = 0 ∧ (s.addressCharge c).2.2 (.depositProxied c' u) = 0 ∧
      (s.addressCharge c).2.2 (.pendingRefund c' u) = 0 := by
  have hzero (v : Address) (apb : AccountProxiedBalance) :
      (refundCharge c v apb).2.2 (.proxied c' u) = 0 ∧
        (refundCharge c v apb).2.2 (.depositProxied c' u) = 0 ∧
        (refundCharge c v apb).2.2 (.pendingRefund c' u) = 0 := by
    rw [refundCharge]
    split
    · simp [depositPosting, pendingPosting, single_apply, Ne.symm h]
    · exact ⟨rfl, rfl, rfl⟩
  refine ⟨?_, ?_, ?_⟩ <;> rw [addressCharge_apply] <;> refine Finset.sum_eq_zero fun v _ => ?_
  · exact (hzero v _).1
  · exact (hzero v _).2.1
  · exact (hzero v _).2.2

/-- What the refunds of a candidate depend on. -/
theorem addressCharge_congr {s t : StateDB} {c : Address} (htrie : t.proxiedTrie = s.proxiedTrie)
    (hentry : ∀ u, t.getAccountProxiedBalance c u = s.getAccountProxiedBalance c u)
    (hcand : t.isCandidate c = s.isCandidate c) : t.addressCharge c = s.addressCharge c := by
  rw [addressCharge, addressCharge, htrie, hcand]
  simp only [hentry]

/-- **Step 1 of the switch in closed form.** -/
theorem refundDelegates_eq (rt : Runtime) : s.refundDelegates rt = s.refunded := by
  have hloop (t₀ : StateDB) (ht₀ : t₀ = { s with delegateRefundSet := s.delegateRefundSet.load }) :
      (rt.refundOrder.list s.delegateRefundSet.addresses).foldl (refundAddress rt) t₀ =
        t₀.settle (∑ c ∈ s.delegateRefundSet.addresses, s.addressCharge c) := by
    rw [← rt.refundOrder.sum_list]
    -- a round finds the entries of its candidate as they were before the loop
    refine Ledger.foldl_posts (P := fun t t' m => t' = StateDB.settle t m)
      (R := fun c t => t.proxiedTrie = s.proxiedTrie ∧
        (∀ u, t.getAccountProxiedBalance c u = s.getAccountProxiedBalance c u) ∧
        t.isCandidate c = s.isCandidate c)
      (fun t => (settle_zero t).symm) (fun h h' => by rw [h', h, settle_settle]) ?_ ?_ _
      (rt.refundOrder.nodup _) t₀ ?_
    · intro c t ht
      rw [refundAddress_eq_settle, addressCharge_congr ht.1 ht.2.1 ht.2.2]
    · intro c c' t hne _ hc'
      rw [refundAddress_eq_settle]
      refine ⟨hc'.1, fun u => ?_, hc'.2.2⟩
      obtain ⟨hp, hd, hr⟩ := addressCharge_apply_of_ne t (Ne.symm hne) u
      rw [← hc'.2.1 u, settle_entry, hp, hd, hr]
      simp [getAccountProxiedBalance]
    · subst ht₀
      exact fun c _ => ⟨rfl, fun _ => rfl, rfl⟩
  have hrun := hloop _ rfl
  rw [CachedSet.addresses] at hrun
  rw [refundDelegates]
  dsimp only
  rw [hrun]
  rfl

end StateDB

end NeatPoS
