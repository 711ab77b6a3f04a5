import NeatPoS.Epoch.Members
import NeatPoS.Staking.Books

/-!
# The deposits of the validators

`DepositBalance` is what a validator has deposited itself.  The genesis file gives it, and no
callback ever changes it; only Step 4 of the epoch switch does, when it pays the refunds that the
earlier steps have listed.  There are three kinds of them, one after the other:

* the validators that the loop has found banned get everything back;
* a validator whose vote is less than its power gets the difference, or its whole power if the vote
  is nothing;
* the validators that are cut at a hundred get everything back.

`enterNewEpoch_deposit` puts these together: it gives the deposit of an address after the switch.
The refund of the second kind is computed from powers and votes, and nobody compares it with the
deposit it is taken from.
-/

set_option autoImplicit false

namespace NeatPoS

open DFinsupp

/-- The amounts that neither the callbacks nor the first steps of the switch change. -/
def Slot.fixed : Slot → Bool
  | .depositBalance _ | .availableRewardBalance _ => true
  | _ => false

namespace StateDB

/-! ## Where the deposits stay as they are -/

/-- The deposits are what they were. -/
def Holds (s s' : StateDB) : Prop := ∀ k : Slot, k.fixed = true → s'.amounts k = s.amounts k

namespace Holds

variable {s s' s'' : StateDB}

theorem refl (s : StateDB) : Holds s s := fun _ _ => rfl

theorem trans (h : Holds s s') (h' : Holds s' s'') : Holds s s'' := fun k hk =>
  (h' k hk).trans (h k hk)

theorem foldl {α : Type} {f : StateDB → α → StateDB} (hf : ∀ t a, Holds t (f t a)) (l : List α)
    (s : StateDB) : Holds s (l.foldl f s) := by
  induction l generalizing s with
  | nil => exact refl s
  | cons a _ ih => exact (hf s a).trans (ih (f s a))

theorem of_posts {Δ : Posting} (h : Posts s s' Δ) (hΔ : ∀ k : Slot, k.fixed = true → Δ k = 0) :
    Holds s s' := by
  intro k hk
  rw [h.apply, hΔ k hk, add_zero]

theorem of_posts_zero (h : Posts s s' 0) : Holds s s' := of_posts h fun _ _ => rfl

theorem getDepositBalance (h : Holds s s') (a : Address) :
    s'.getDepositBalance a = s.getDepositBalance a :=
  h (.depositBalance a) rfl

end Holds

section Switch

variable (rt : Runtime) (s : StateDB)

theorem moveToDeposit_holds (c u : Address) (apb : AccountProxiedBalance) :
    Holds s (moveToDeposit c s u apb) := by
  refine Holds.of_posts (moveToDeposit_posts s c u apb) fun k hk => ?_
  cases k <;> simp [Slot.fixed, proxiedPosting, depositPosting] at hk ⊢

theorem moveToProxied_holds (c u : Address) (apb : AccountProxiedBalance) :
    Holds s (moveToProxied c s u apb) := by
  by_cases h : 0 < apb.depositProxiedBalance
  · refine Holds.of_posts (moveToProxied_posts s c u h) fun k hk => ?_
    cases k <;> simp [Slot.fixed, proxiedPosting, depositPosting] at hk ⊢
  · rw [moveToProxied, if_neg h]
    exact Holds.refl s

theorem refunded_holds : Holds s s.refunded := by
  intro k hk
  rw [refunded_amounts, Finset.sum_eq_zero, add_zero]
  intro c _
  refine Finset.sum_eq_zero fun u _ => refundCharge_apply_of_ne _ fun x => ?_
  cases k <;> simp [Slot.fixed, depositPosting, pendingPosting] at hk ⊢

theorem forEachProxied_holds {cb : StateDB → Address → AccountProxiedBalance → StateDB}
    (it : Ledger.Iteration Address) (c : Address) (hcb : ∀ t u apb, Holds t (cb t u apb)) :
    Holds s (s.forEachProxied it c cb) :=
  Holds.foldl (fun t u => hcb t u _) _ s

theorem candidateVote_holds (st : StateDB × List EpochValidatorVote) (c : Address) :
    Holds st.1 (candidateVote rt st c).1 := by
  obtain ⟨t, _⟩ := st
  have hloop := forEachProxied_holds t rt.trieOrder c (moveToDeposit_holds · c)
  rw [candidateVote]
  split
  · dsimp only
    split
    · exact Holds.refl t
    · split <;> exact hloop
  · exact Holds.refl t

theorem addCandidates_holds (vs : List Validator) (voteSet : EpochValidatorVoteSet) :
    Holds s (s.addCandidates rt vs voteSet).1 := by
  have hvotes (l : List Address) (st : StateDB × List EpochValidatorVote) :
      Holds st.1 (l.foldl (candidateVote rt) st).1 := by
    induction l generalizing st with
    | nil => exact Holds.refl _
    | cons c _ ih => exact (candidateVote_holds rt st c).trans (ih _)
  rw [addCandidates]
  split
  · exact Holds.refl s
  · exact (Holds.of_posts_zero (((foldl_dropIfBanned_posts _ s).zero_trans
      (foldl_deleteCandidate_posts _ _)).zero_trans (foldl_deleteCandidate_posts _ _))).trans
      (hvotes _ (_, []))

theorem depositProxied_holds (c : Address) : Holds s (s.depositProxied rt c) := by
  rw [depositProxied]
  split
  · refine forEachProxied_holds s rt.trieOrder c fun t u apb => ?_
    split
    · exact moveToDeposit_holds t c u apb
    · exact Holds.refl t
  · exact Holds.refl s

/-! ## The refunds are paid -/

end Switch

end StateDB

/-- What a refund leaves of a deposit. -/
def RefundValidatorAmount.deduct (deposit : Int) (r : RefundValidatorAmount) : Int :=
  if r.voteout then 0 else deposit - r.amount.getD 0

theorem foldl_deduct_of_voteout {l : List RefundValidatorAmount} (h : ∀ r ∈ l, r.voteout = true)
    (deposit : Int) : l.foldl RefundValidatorAmount.deduct deposit = if l = [] then deposit else 0 := by
  induction l using List.reverseRecOn with
  | nil => rfl
  | append_singleton _ r =>
    have hr : r.voteout = true := h r (by simp)
    rw [List.foldl_append, List.foldl_cons, List.foldl_nil, RefundValidatorAmount.deduct, if_pos hr,
      if_neg (by simp)]

/-- What a vote takes from the deposit of a validator. -/
def refundOf (vs : List Validator) (votes : List EpochValidatorVote) (a : Address) : Int :=
  match voteOf votes a, vs.find? fun v => v.address == a with
  | some (amount, _), some v =>
    if amount = 0 then v.votingPower
    else if amount < v.votingPower then v.votingPower - amount
    else 0
  | _, _ => 0

theorem voteRefund_address {vs : List Validator} {w : EpochValidatorVote} {r : RefundValidatorAmount}
    (h : voteRefund vs w = some r) : r.address = w.address := by
  rw [voteRefund] at h
  split at h
  · split at h
    · rw [← Option.some.inj h]
    · split at h
      · rw [← Option.some.inj h]
      · cases h
  · cases h

/-- The refunds for the votes, as far as they concern one address. -/
theorem foldl_deduct_voteRefund {vs : List Validator} {votes : List EpochValidatorVote}
    (hvotes : (votes.map (·.address)).Nodup) (a : Address) (deposit : Int) :
    ((votes.filterMap (voteRefund vs)).filter fun r => r.address = a).foldl
      RefundValidatorAmount.deduct deposit = deposit - refundOf vs votes a := by
  have hfilter : (votes.filterMap (voteRefund vs)).filter (fun r => r.address = a) =
      (votes.filter fun w => w.address == a).filterMap (voteRefund vs) := by
    rw [List.filter_filterMap, List.filterMap_filter]
    refine List.filterMap_congr fun w _ => ?_
    cases hw : voteRefund vs w with
    | none => simp
    | some =>
      have haddr := voteRefund_address hw
      by_cases ha : w.address = a <;> simp [Option.filter, haddr, ha]
  rw [hfilter, Keyed.filter_eq_find_toList hvotes, refundOf, voteOf]
  cases hfind : votes.find? fun w => w.address == a with
  | none => simp
  | some w =>
    have haddr : w.address = a := beq_iff_eq.1 (List.find?_some hfind :)
    subst haddr
    rw [Option.toList_some, Option.bind_some]
    cases hw : w.revealed with
    | none => simp [voteRefund, hw]
    | some x =>
      cases hv : vs.find? fun v => v.address == w.address with
      | none => simp [voteRefund, hw, hv]
      | some v =>
        by_cases hzero : x.1 = 0
        · simp [voteRefund, hw, hv, hzero, RefundValidatorAmount.deduct]
        · by_cases hlt : x.1 < v.votingPower
          · simp [voteRefund, hw, hv, hzero, hlt, RefundValidatorAmount.deduct]
          · simp [voteRefund, hw, hv, hzero, hlt]

namespace StateDB

variable (rt : Runtime) (s : StateDB)

theorem payOut_deposit (a b : Address) (x : Int) :
    ((s.subDepositBalance a x).addBalance a x).getDepositBalance b =
      if a = b then s.getDepositBalance b - x else s.getDepositBalance b := by
  rw [getDepositBalance, (payOut_posts s a x).apply]
  by_cases h : a = b
  · simp [h, getDepositBalance]
    omega
  · simp [h, getDepositBalance, single_apply]

theorem payRefund_deposit (r : RefundValidatorAmount) (a : Address) :
    (s.payRefund rt r).getDepositBalance a =
      if r.address = a then r.deduct (s.getDepositBalance a) else s.getDepositBalance a := by
  rw [payRefund, RefundValidatorAmount.deduct]
  cases r.voteout with
  | false =>
    rw [if_pos (by rfl), payOut_deposit]
    rfl
  | true =>
    have hmoved : Holds s (if s.isCandidate r.address then
        s.forEachProxied rt.trieOrder r.address (moveToProxied r.address) else s) := by
      split
      · exact forEachProxied_holds s rt.trieOrder r.address (moveToProxied_holds · r.address)
      · exact Holds.refl s
    rw [if_neg (by simp), if_pos rfl]
    dsimp only
    rw [payOut_deposit, hmoved.getDepositBalance, hmoved.getDepositBalance]
    split
    · rename_i h
      rw [h, sub_self]
    · rfl

theorem payRefund_availableReward (r : RefundValidatorAmount) (a : Address) :
    (s.payRefund rt r).amounts (.availableRewardBalance a) = s.amounts (.availableRewardBalance a) := by
  have hpay (t : StateDB) (x : Int) : ((t.subDepositBalance r.address x).addBalance r.address x).amounts
      (.availableRewardBalance a) = t.amounts (.availableRewardBalance a) := by
    rw [(payOut_posts t r.address x).apply]
    simp
  rw [payRefund]
  split
  · exact hpay s _
  · rw [hpay]
    split
    · exact forEachProxied_holds s rt.trieOrder r.address (moveToProxied_holds · r.address) _ rfl
    · rfl

theorem foldl_payRefund_deposit (l : List RefundValidatorAmount) (a : Address) :
    (l.foldl (payRefund rt) s).getDepositBalance a =
      (l.filter fun r => r.address = a).foldl RefundValidatorAmount.deduct (s.getDepositBalance a) := by
  induction l generalizing s with
  | nil => rfl
  | cons r _ ih =>
    rw [List.foldl_cons, ih, payRefund_deposit]
    by_cases h : r.address = a
    · rw [if_pos h, List.filter_cons_of_pos (by simpa using h), List.foldl_cons]
    · rw [if_neg h, List.filter_cons_of_neg (by simpa using h)]

end StateDB

/-! ## The deposits after the switch -/

namespace StateDB

section Remains

variable (s : StateDB) (vs : List Validator)

/-- The loop finds the address banned. -/
def VotedOut (a : Address) : Prop :=
  ∃ v ∈ vs, v.address = a ∧ v ∉ passedOver s.leaves vs ∧ (s.accounts a).isBanned = true

/-- The loop leaves the address in the set, with this power. -/
inductive Remains : Address → Int → Prop
  /-- A validator that is passed over keeps its power. -/
  | passed {v : Validator} (hv : v ∈ passedOver s.leaves vs) : Remains v.address v.votingPower
  /-- A validator that is looked at gets the power of its stake. -/
  | staked {v : Validator} (hv : v ∈ vs) (hvisited : v ∉ passedOver s.leaves vs)
      (hstays : s.leaves v = false) : Remains v.address (s.stake v.address - s.dueRefunds v.address)

end Remains

variable {s : StateDB} {vs : List Validator} {votes : Option EpochValidatorVoteSet} {a : Address}
  (hvs : (vs.map (·.address)).Nodup)
include hvs

theorem exists_mem_survivors_iff {p : Int} :
    (∃ w ∈ s.survivors vs, w.address = a ∧ w.votingPower = p) ↔ s.Remains vs a p := by
  simp only [mem_survivors_iff s hvs]
  constructor
  · rintro ⟨w, hpassed | ⟨v, hv, hvisited, hstays, rfl⟩, rfl, rfl⟩
    · exact .passed hpassed
    · exact Remains.staked (v := v) hv hvisited hstays
  · intro h
    cases h with
    | @passed v hv => exact ⟨v, .inl hv, rfl, rfl⟩
    | @staked v hv hvisited hstays => exact ⟨_, .inr ⟨v, hv, hvisited, hstays, rfl⟩, rfl, rfl⟩

theorem find_survivors_iff {v : Validator} :
    (s.survivors vs).find? (fun v => v.address == a) = some v ↔
      v ∈ s.survivors vs ∧ v.address = a :=
  Keyed.find_eq_some_iff (s.survivors_nodup hvs)

theorem Remains.stays {p : Int} (h : s.Remains vs a p) : s.Stays vs a := by
  obtain ⟨_, hw, rfl, -⟩ := (exists_mem_survivors_iff hvs).2 h
  exact (mem_survivors_address hvs).1 (List.mem_map_of_mem hw)

/-- No vote is made for a validator that remains. -/
theorem Remains.voteOf_nextVotes {p : Int} (h : s.Remains vs a p) :
    voteOf (s.nextVotes vs votes) a = vote votes a :=
  voteOf_nextVotes_of_not_contends hvs fun hc => hc.2.2.1 (h.stays hvs)

theorem VotedOut.not_remains (h : s.VotedOut vs a) (p : Int) : ¬ s.Remains vs a p := by
  intro hr
  obtain ⟨_, hv, haddr, hvisited, hbanned⟩ := h
  obtain ⟨_, hw, haddr', hstays⟩ := hr.stays hvs
  obtain rfl := List.inj_on_of_nodup_map hvs hv hw (haddr.trans haddr'.symm)
  rcases hstays with hpassed | hleaves
  · exact hvisited hpassed
  · rw [leaves, haddr, hbanned] at hleaves
    cases hleaves

theorem refundOf_of_remains {p x : Int} {key : Bytes} (h : s.Remains vs a p)
    (hvote : vote votes a = some (x, key)) :
    refundOf (s.survivors vs) (s.nextVotes vs votes) a =
      if x = 0 then p else if x < p then p - x else 0 := by
  obtain ⟨_, hw, haddr, rfl⟩ := (exists_mem_survivors_iff hvs).2 h
  rw [refundOf, h.voteOf_nextVotes hvs, hvote, (find_survivors_iff hvs).2 ⟨hw, haddr⟩]

theorem refundOf_of_vote_eq_none {p : Int} (h : s.Remains vs a p) (hvote : vote votes a = none) :
    refundOf (s.survivors vs) (s.nextVotes vs votes) a = 0 := by
  rw [refundOf, h.voteOf_nextVotes hvs, hvote]

theorem refundOf_of_not_remains (h : ∀ p, ¬ s.Remains vs a p) :
    refundOf (s.survivors vs) (s.nextVotes vs votes) a = 0 := by
  have hnone : (s.survivors vs).find? (fun v => v.address == a) = none := by
    rw [Keyed.find_eq_none_iff]
    intro hmem
    obtain ⟨w, hw, haddr⟩ := List.mem_map.1 hmem
    exact h _ ((exists_mem_survivors_iff hvs).1 ⟨w, hw, haddr, rfl⟩)
  rw [refundOf, hnone]
  split
  · rename_i h
    cases h
  · rfl

end StateDB

section Switch

variable (rt : Runtime) {vs : ValidatorSet} (votes : Option EpochValidatorVoteSet) (s : StateDB)
  (hnodup : (vs.validators.map (·.address)).Nodup)
include hnodup

/-- The refunds of the loop are paid to the banned validators that it looks at. -/
theorem mem_afterLoop_refunds {r : RefundValidatorAmount} (hr : r ∈ (afterLoop vs s).refunds) :
    r.voteout = true ∧ s.VotedOut vs.validators r.address := by
  rw [afterLoop, (validatorLoop_swept _ hnodup).2.1] at hr
  obtain ⟨v, hv, rfl⟩ := List.mem_map.1 hr
  obtain ⟨hv, hbanned⟩ := List.mem_filter.1 hv
  obtain ⟨⟨v, n⟩, hvisits, hn⟩ := List.mem_flatMap.1 hv
  obtain ⟨hn, rfl⟩ := List.mem_replicate.1 hn
  replace hvisits : (v, n) ∈ visits s.leaves 0 vs.validators := by
    rw [← StateDB.refunded_drops]
    exact hvisits
  have hmem := List.mem_map_of_mem (f := Prod.fst) hvisits
  rw [visits_map_fst] at hmem
  refine ⟨rfl, v, hmem, rfl, fun hpassed => hn ?_, hbanned⟩
  -- every validator is in the list of visits once
  have hfst : ((visits s.leaves 0 vs.validators).map Prod.fst).Nodup := by
    rw [visits_map_fst]
    exact hnodup.of_map _
  exact congrArg Prod.snd
    (List.inj_on_of_nodup_map hfst hvisits ((mem_passedOver_iff 0).1 hpassed) rfl)

/-- Up to Step 4 the deposits are what they were. -/
theorem holds_before_refunds : StateDB.Holds s
    (((rt.cut (s.nextMembers vs.validators votes)).map (·.address)).foldl (StateDB.depositProxied rt)
      ((afterLoop vs s).db.addCandidates rt (s.survivors vs.validators) (votes.getD .new)).1) :=
  (((StateDB.refunded_holds s).trans (.of_posts_zero (afterLoop_posts s hnodup))).trans
    (StateDB.addCandidates_holds rt _ _ _)).trans (.foldl (StateDB.depositProxied_holds rt) _ _)

/-- The available rewards are not touched at all. -/
theorem enterNewEpoch_availableReward (a : Address) :
    (enterNewEpoch rt vs votes s).1.amounts (.availableRewardBalance a) =
      s.amounts (.availableRewardBalance a) := by
  have hpay (l : List RefundValidatorAmount) (t : StateDB) :
      (l.foldl (StateDB.payRefund rt) t).amounts (.availableRewardBalance a) =
        t.amounts (.availableRewardBalance a) := by
    induction l generalizing t with
    | nil => rfl
    | cons _ _ ih => rw [List.foldl_cons, ih, StateDB.payRefund_availableReward]
  rw [enterNewEpoch_eq rt votes s hnodup, hpay]
  exact holds_before_refunds rt votes s hnodup _ rfl

/-- **The deposit of an address after the switch.** -/
theorem enterNewEpoch_deposit (a : Address) :
    (enterNewEpoch rt vs votes s).1.getDepositBalance a =
      if a ∈ (rt.knockout (s.nextMembers vs.validators votes)).map (·.address) then 0
      else (if a ∈ (afterLoop vs s).refunds.map (·.address) then 0 else s.getDepositBalance a) -
        refundOf (s.survivors vs.validators) (s.nextVotes vs.validators votes) a := by
  have hmem (l : List RefundValidatorAmount) :
      l.filter (fun r => r.address = a) = [] ↔ a ∉ l.map (·.address) := by
    rw [List.filter_eq_nil_iff, List.mem_map, not_exists]
    refine forall_congr' fun r => ?_
    rw [decide_eq_true_eq, not_and]
  have hloop : ∀ r ∈ (afterLoop vs s).refunds.filter (fun r => r.address = a), r.voteout = true :=
    fun r hr => (mem_afterLoop_refunds s hnodup (List.mem_filter.1 hr).1).1
  have hknock : ∀ r ∈ (rt.knockout (s.nextMembers vs.validators votes)).filter
      (fun r => r.address = a), r.voteout = true := by
    intro r hr
    have hr := (List.mem_filter.1 hr).1
    rw [Runtime.knockout] at hr
    split at hr
    · obtain ⟨_, -, rfl⟩ := List.mem_map.1 hr
      rfl
    · cases hr
  rw [enterNewEpoch_eq rt votes s hnodup, StateDB.foldl_payRefund_deposit,
    (holds_before_refunds rt votes s hnodup).getDepositBalance,
    List.filter_append, List.filter_append, List.foldl_append, List.foldl_append,
    foldl_deduct_of_voteout hloop, foldl_deduct_voteRefund (s.nextVotes_nodup vs.validators votes),
    foldl_deduct_of_voteout hknock]
  simp only [hmem]
  split <;> split <;> simp_all

end Switch

end NeatPoS
