import NeatPoS.Staking.Books

/-!
# Shifts

Much of what the callbacks and the epoch switch do is to move the coins of a user between the two parts of
the entry at one candidate, the proxied amount and the deposit.  `Shifts s s'` says that nothing else has
happened between two states, as far as entries, candidates and the refund set are concerned: what is delegated
to a candidate, less what it has to refund, is the same (`Shifts.netProxied`), and no part of an entry is
overdrawn.  The loops of the switch are shifts, and so the votes that are made for the candidates can be read
off the state before it.
-/

set_option autoImplicit false

namespace NeatPoS

open DFinsupp Ledger

namespace StateDB

/-- How the entry of a user may change: coins go from the proxied part to the deposit or back, and
neither part is overdrawn. -/
structure Shifted (e e' : AccountProxiedBalance) : Prop where
  sum : e'.proxiedBalance + e'.depositProxiedBalance = e.proxiedBalance + e.depositProxiedBalance
  pending : e'.pendingRefundBalance = e.pendingRefundBalance
  nonneg : 0 ≤ e.proxiedBalance → 0 ≤ e.depositProxiedBalance →
    0 ≤ e'.proxiedBalance ∧ 0 ≤ e'.depositProxiedBalance

theorem Shifted.refl (e : AccountProxiedBalance) : Shifted e e := ⟨rfl, rfl, fun h h' => ⟨h, h'⟩⟩

theorem Shifted.trans {e e' e'' : AccountProxiedBalance} (h : Shifted e e') (h' : Shifted e' e'') :
    Shifted e e'' where
  sum := h'.sum.trans h.sum
  pending := h'.pending.trans h.pending
  nonneg := fun hp hd => by
    obtain ⟨hp', hd'⟩ := h.nonneg hp hd
    exact h'.nonneg hp' hd'

/-- What the epoch switch does once the refunds are paid. -/
structure Shifts (s s' : StateDB) : Prop where
  posts : ∃ Δ, Posts s s' Δ
  books : SameBooks s s'
  refundSet : s'.delegateRefundSet = s.delegateRefundSet
  entry : ∀ c u, Shifted (s.getAccountProxiedBalance c u) (s'.getAccountProxiedBalance c u)
  frozen : ∀ c u, s.isCandidate c = false →
    s'.getAccountProxiedBalance c u = s.getAccountProxiedBalance c u
  own : ∀ a, s'.getBalance a + s'.getDepositBalance a = s.getBalance a + s.getDepositBalance a
  total : ∀ c, s'.getTotalProxiedBalance c + s'.getTotalDepositProxiedBalance c =
    s.getTotalProxiedBalance c + s.getTotalDepositProxiedBalance c
  pending : ∀ c, s'.getTotalPendingRefundBalance c = s.getTotalPendingRefundBalance c
  reward : ∀ a d, s'.amounts (.reward a d) = s.amounts (.reward a d)

namespace Shifts

variable {s s' s'' : StateDB}

/-- Nothing is posted. -/
theorem of_posts (h : Posts s s' 0) (hr : s'.delegateRefundSet = s.delegateRefundSet) :
    Shifts s s' := by
  have hsame : s'.amounts = s.amounts := by simpa using h.amounts
  have hentry (c u : Address) :
      s'.getAccountProxiedBalance c u = s.getAccountProxiedBalance c u := by
    simp only [getAccountProxiedBalance, hsame]
  refine ⟨⟨0, h⟩, h.sameBooks_zero, hr, fun c u => ?_, fun c u _ => hentry c u, fun a => ?_,
    fun c => ?_, fun c => ?_, fun a d => ?_⟩
  · rw [hentry]
    exact Shifted.refl _
  · simp only [getBalance, getDepositBalance, hsame]
  · simp only [getTotalProxiedBalance, getTotalDepositProxiedBalance, hsame]
  · simp only [getTotalPendingRefundBalance, hsame]
  · rw [hsame]

theorem refl (s : StateDB) : Shifts s s := of_posts (Posts.refl s) rfl

theorem isCandidate (h : Shifts s s') (c : Address) : s'.isCandidate c = s.isCandidate c := by
  obtain ⟨_, hΔ⟩ := h.posts
  exact hΔ.isCandidate c

theorem trans (h : Shifts s s') (h' : Shifts s' s'') : Shifts s s'' where
  posts := by
    obtain ⟨Δ, hΔ⟩ := h.posts
    obtain ⟨Δ', hΔ'⟩ := h'.posts
    exact ⟨Δ + Δ', hΔ.trans hΔ'⟩
  books := h.books.trans h'.books
  refundSet := h'.refundSet.trans h.refundSet
  entry := fun c u => (h.entry c u).trans (h'.entry c u)
  frozen := fun c u hc => by
    rw [h'.frozen c u ((h.isCandidate c).trans hc), h.frozen c u hc]
  own := fun a => (h'.own a).trans (h.own a)
  total := fun c => (h'.total c).trans (h.total c)
  pending := fun c => (h'.pending c).trans (h.pending c)
  reward := fun a d => (h'.reward a d).trans (h.reward a d)

theorem foldl {α : Type} {f : StateDB → α → StateDB} (hf : ∀ t a, Shifts t (f t a)) (l : List α)
    (s : StateDB) : Shifts s (l.foldl f s) := by
  induction l generalizing s with
  | nil => exact refl s
  | cons a _ ih => exact (hf s a).trans (ih (f s a))

end Shifts

/-- What is delegated to a candidate, net of refunds, is not changed. -/
theorem Shifts.netProxied {s s' : StateDB} (h : Shifts s s') (c : Address) :
    s'.netProxied c = s.netProxied c := by
  rw [StateDB.netProxied, StateDB.netProxied, h.total, h.pending]

/-- Coins of one user of a candidate go from the proxied part to the deposit, or back. -/
theorem Shifts.of_shift {s s' : StateDB} {c u : Address} {x : Int} (hc : s.isCandidate c = true)
    (h : Posts s s' (proxiedPosting c u (-x) + depositPosting c u x))
    (hr : s'.delegateRefundSet = s.delegateRefundSet)
    (hp : 0 ≤ s.amounts (.proxied c u) → 0 ≤ s.amounts (.depositProxied c u) →
      x ≤ s.amounts (.proxied c u) ∧ -x ≤ s.amounts (.depositProxied c u)) : Shifts s s' := by
  have hother (c' u' : Address) (hne : ¬ (c' = c ∧ u' = u)) :
      s'.getAccountProxiedBalance c' u' = s.getAccountProxiedBalance c' u' := by
    apply h.getAccountProxiedBalance <;>
      simp [proxiedPosting, depositPosting, single_apply] <;> tauto
  refine ⟨⟨_, h⟩, h.sameBooks (balanced_shift c u x), hr, ?_, ?_, ?_, ?_, ?_, ?_⟩
  · intro c' u'
    by_cases hcu : c' = c ∧ u' = u
    · obtain ⟨rfl, rfl⟩ := hcu
      constructor
      · simp [getAccountProxiedBalance, h.apply, proxiedPosting, depositPosting]
        omega
      · simp [getAccountProxiedBalance, h.apply, proxiedPosting, depositPosting]
      simp only [getAccountProxiedBalance, h.apply]
      intro h₁ h₂
      obtain - := hp h₁ h₂
      simp [proxiedPosting, depositPosting]
      omega
    · rw [hother c' u' hcu]
      exact Shifted.refl _
  · intro c' u' hc'
    refine hother c' u' fun hcu => ?_
    rw [hcu.1, hc] at hc'
    cases hc'
  · intro a
    simp [getBalance, getDepositBalance, h.apply, proxiedPosting, depositPosting]
  · intro c'
    simp only [getTotalProxiedBalance, getTotalDepositProxiedBalance, h.apply, proxiedPosting,
      depositPosting, DFinsupp.add_apply, single_apply]
    by_cases hc' : c = c' <;> simp [hc']
    omega
  · intro c'
    simp [getTotalPendingRefundBalance, h.apply, proxiedPosting, depositPosting]
  · intro a d
    simp [h.apply, proxiedPosting, depositPosting]

/-- A deposit is paid out. -/
theorem Shifts.of_payOut {s s' : StateDB} {a : Address} {x : Int}
    (h : Posts s s' (single (.depositBalance a) (-x) + single (.balance a) x))
    (hr : s'.delegateRefundSet = s.delegateRefundSet) : Shifts s s' := by
  have hentry (c u : Address) :
      s'.getAccountProxiedBalance c u = s.getAccountProxiedBalance c u := by
    apply h.getAccountProxiedBalance <;> simp
  refine ⟨⟨_, h⟩, h.sameBooks (balanced_payOut a x), hr, ?_, fun c u _ => hentry c u, ?_, ?_, ?_, ?_⟩
  · intro c u
    rw [hentry]
    exact Shifted.refl _
  · intro b
    by_cases hb : b = a
    · subst hb
      simp [getBalance, getDepositBalance, h.apply]
      omega
    · simp [getBalance, getDepositBalance, h.apply, single_apply, Ne.symm hb]
  · intro c
    simp [getTotalProxiedBalance, getTotalDepositProxiedBalance, h.apply]
  · intro c
    simp [getTotalPendingRefundBalance, h.apply]
  · intro b d
    simp [h.apply]

section Switch

variable (rt : Runtime) (s : StateDB)

theorem forEachProxied_shifts {cb : StateDB → Address → AccountProxiedBalance → StateDB}
    (it : Iteration Address) {c : Address} (hc : s.isCandidate c = true)
    (hcb : ∀ t u, t.isCandidate c = true → Shifts t (cb t u (t.getAccountProxiedBalance c u))) :
    Shifts s (s.forEachProxied it c cb) := by
  rw [forEachProxied]
  induction it.list (s.proxiedTrie c) generalizing s with
  | nil => exact Shifts.refl s
  | cons u _ ih =>
    have hhead := hcb s u hc
    exact hhead.trans (ih _ ((hhead.isCandidate c).trans hc))

theorem moveToDeposit_shifts {c : Address} (u : Address) (hc : s.isCandidate c = true) :
    Shifts s (moveToDeposit c s u (s.getAccountProxiedBalance c u)) := by
  refine Shifts.of_shift hc (moveToDeposit_posts s c u _) ?_ ?_
  · simp [moveToDeposit, subProxiedBalanceByUser, addDepositProxiedBalanceByUser]
  · intro hp hd
    simp only [getAccountProxiedBalance]
    omega

theorem moveToProxied_shifts {c : Address} (u : Address) (hc : s.isCandidate c = true) :
    Shifts s (moveToProxied c s u (s.getAccountProxiedBalance c u)) := by
  by_cases h : 0 < (s.getAccountProxiedBalance c u).depositProxiedBalance
  · have hposts := moveToProxied_posts s c u h
    rw [add_comm, ← neg_neg (s.getAccountProxiedBalance c u).depositProxiedBalance, neg_neg (-_)]
      at hposts
    refine Shifts.of_shift hc hposts ?_ ?_
    · rw [moveToProxied, if_pos h]
      simp [subDepositProxiedBalanceByUser, addProxiedBalanceByUser]
    · intro hp hd
      simp only [getAccountProxiedBalance]
      omega
  · rw [moveToProxied, if_neg h]
    exact Shifts.refl s

theorem payOut_shifts (a : Address) (x : Int) :
    Shifts s ((s.subDepositBalance a x).addBalance a x) :=
  Shifts.of_payOut (payOut_posts s a x) (by simp [subDepositBalance, addBalance])

theorem serveBan_shifts (a : Address) : Shifts s (s.serveBan a) := by
  refine Shifts.of_posts (serveBan_posts s a) ?_
  rw [serveBan_eq]
  split <;> simp [setBannedTime]

theorem dropIfBanned_shifts (a : Address) : Shifts s (s.dropIfBanned a) := by
  rw [dropIfBanned_eq]
  have hnew : Shifts s (s.getOrNewStateObject a) :=
    Shifts.of_posts (getOrNewStateObject_posts s a) (getOrNewStateObject_refundSet s a)
  split
  · exact (hnew.trans (Shifts.of_posts (deleteCandidate_posts _ a) rfl)).trans (serveBan_shifts _ a)
  · exact hnew

theorem candidateVote_shifts (st : StateDB × List EpochValidatorVote) (c : Address) :
    Shifts st.1 (candidateVote rt st c).1 := by
  obtain ⟨t, _⟩ := st
  rw [candidateVote]
  by_cases hc : t.isCandidate c = true
  · have hloop := forEachProxied_shifts t rt.trieOrder hc fun t' u hc' =>
      moveToDeposit_shifts t' u hc'
    simp only [hc, if_true]
    split
    · exact Shifts.refl t
    · split <;> exact hloop
  · rw [if_neg hc]
    exact Shifts.refl t

theorem candidateVotes_shifts (l : List Address) (st : StateDB × List EpochValidatorVote) :
    Shifts st.1 (l.foldl (candidateVote rt) st).1 := by
  induction l generalizing st with
  | nil => exact Shifts.refl _
  | cons c _ ih => exact (candidateVote_shifts rt st c).trans (ih _)

theorem addCandidates_shifts (vs : List Validator) (voteSet : EpochValidatorVoteSet) :
    Shifts s (s.addCandidates rt vs voteSet).1 := by
  have hdelete (l : List Address) (t : StateDB) : Shifts t (l.foldl deleteCandidate t) :=
    Shifts.foldl (fun t a => Shifts.of_posts (deleteCandidate_posts t a) rfl) l t
  rw [addCandidates]
  split
  · exact Shifts.refl s
  · exact (((Shifts.foldl dropIfBanned_shifts _ s).trans (hdelete _ _)).trans (hdelete _ _)).trans
      (candidateVotes_shifts rt _ (_, []))

theorem depositProxied_shifts (c : Address) : Shifts s (s.depositProxied rt c) := by
  rw [depositProxied]
  split
  · rename_i hc
    have hcand : s.isCandidate c = true := (Bool.and_eq_true_iff.1 hc).1
    refine forEachProxied_shifts s rt.trieOrder hcand fun t u ht => ?_
    split
    · exact moveToDeposit_shifts t u ht
    · exact Shifts.refl t
  · exact Shifts.refl s

theorem payRefund_shifts (r : RefundValidatorAmount) : Shifts s (s.payRefund rt r) := by
  rw [payRefund]
  split
  · exact payOut_shifts s _ _
  refine Shifts.trans ?_ (payOut_shifts _ _ _)
  split
  · rename_i hc
    exact forEachProxied_shifts s rt.trieOrder hc fun t u ht => moveToProxied_shifts t u ht
  · exact Shifts.refl s

end Switch

end StateDB

namespace LoopState

open StateDB

theorem visitValidator_shifts (st : LoopState) (p : Nat) (v : Validator) :
    Shifts st.db (st.visitValidator p v).db := by
  cases hd : st.db.drops v with
  | true =>
    rw [visitValidator_of_drops p hd]
    exact dropIfBanned_shifts st.db v.address
  | false =>
    rw [visitValidator_of_not_drops p hd]
    exact dropIfBanned_shifts st.db v.address

theorem visit_shifts (st : LoopState) (j : Nat) : Shifts st.db (st.visit j).db := by
  rw [visit]
  split
  · exact Shifts.refl _
  · split
    · exact Shifts.refl _
    · exact visitValidator_shifts st _ _

end LoopState

namespace StateDB

theorem validatorLoop_shifts (s : StateDB) (vs : List Validator) :
    Shifts s (validatorLoop s vs).db := by
  have hrun (l : List Nat) (st : LoopState) : Shifts st.db (l.foldl LoopState.visit st).db := by
    induction l generalizing st with
    | nil => exact Shifts.refl _
    | cons j _ ih => exact (LoopState.visit_shifts st j).trans (ih _)
  rw [validatorLoop]
  exact hrun (List.range vs.length) ⟨s, vs, List.range vs.length, vs.length, []⟩

/-- **What the switch does after Step 1.** -/
theorem enterNewEpoch_shifts (rt : Runtime) (vs : ValidatorSet)
    (votes : Option EpochValidatorVoteSet) (s : StateDB) :
    Shifts (s.refundDelegates rt) (enterNewEpoch rt vs votes s).1 := by
  have hload : Shifts (s.refundDelegates rt) (s.refundDelegates rt).getCandidateSet :=
    Shifts.of_posts ⟨(add_zero _).symm, rfl, fun _ => rfl, Finset.Subset.refl _,
      fun _ h => absurd rfl h⟩ rfl
  exact ((((hload.trans (validatorLoop_shifts _ _)).trans (addCandidates_shifts rt _ _ _)).trans
    (Shifts.foldl (depositProxied_shifts rt) _ _)).trans (Shifts.foldl (payRefund_shifts rt) _ _))

end StateDB

end NeatPoS
