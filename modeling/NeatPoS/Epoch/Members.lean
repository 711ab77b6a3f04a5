import NeatPoS.Epoch.NextSet

/-!
# Who is in the next set

`Epoch/NextSet.lean` computes the list of the next validators.  This file reads it off the state
before the switch, address by address: `Earns` says which power an address gets and why, and
`exists_mem_nextMembers_iff` that the list has just these addresses and powers.  It needs three
things of the state:

* what the pending refunds take from the stake of an address (`dueRefunds`);
* which validators the loop removes (`leaves`) and which it passes over (`passedOver`);
* for which candidates a vote is made (`Contends`).

The list is then cut at a hundred.  Who is cut in any case, however the validators are sorted, has a
hundred others before it (`forall_not_mem_cut_iff`).
-/

set_option autoImplicit false

namespace NeatPoS

open DFinsupp

namespace StateDB

variable (s : StateDB)

/-! ## After the refunds -/

/-- The refunds that the switch pays to the users of an address. -/
def dueRefunds (a : Address) : Int :=
  if a ∈ s.delegateRefundSet.addresses then
    ∑ u ∈ s.proxiedTrie a, max 0 (s.amounts (.pendingRefund a u))
  else 0

theorem refunded_amounts (k : Slot) :
    s.refunded.amounts k = s.amounts k +
      ∑ c ∈ s.delegateRefundSet.addresses, ∑ u ∈ s.proxiedTrie c,
        (refundCharge c u (s.getAccountProxiedBalance c u)).2.2 k := by
  show (s.amounts + _) k = _
  rw [DFinsupp.add_apply, charge_sum_apply]
  congr 1
  exact Finset.sum_congr rfl fun c _ => addressCharge_apply s c k

theorem refundCharge_apply_of_ne {c u : Address} {k : Slot} (apb : AccountProxiedBalance)
    (h : ∀ x : Int, (depositPosting c u x + pendingPosting c u x +
      single (.delegateBalance u) x + single (.balance u) (-x) : Posting) k = 0) :
    (refundCharge c u apb).2.2 k = 0 := by
  rw [refundCharge]
  split
  · have hk := h (-apb.pendingRefundBalance)
    rwa [neg_neg] at hk
  · rfl

theorem refundCharge_totalDeposit (c u a : Address) (apb : AccountProxiedBalance) :
    (refundCharge c u apb).2.2 (.depositProxiedBalance a) =
      if c = a then -max 0 apb.pendingRefundBalance else 0 := by
  rw [refundCharge]
  by_cases hc : c = a
  · subst hc
    split
    · simp [depositPosting, pendingPosting]
      omega
    · rename_i h
      show (0 : Int) = _
      rw [if_pos rfl, max_eq_left (Int.not_lt.1 h), neg_zero]
  · split
    · simp [depositPosting, pendingPosting, single_apply, hc]
    · rfl

theorem refundCharge_totalPending (c u a : Address) (apb : AccountProxiedBalance) :
    (refundCharge c u apb).2.2 (.pendingRefundBalance a) =
      (refundCharge c u apb).2.2 (.depositProxiedBalance a) := by
  rw [refundCharge]
  split
  · simp [depositPosting, pendingPosting, single_apply]
  · rfl

variable (a : Address)

theorem refunded_getTotalProxiedBalance :
    s.refunded.getTotalProxiedBalance a = s.getTotalProxiedBalance a := by
  rw [getTotalProxiedBalance, refunded_amounts, Finset.sum_eq_zero, add_zero, getTotalProxiedBalance]
  intro c _
  refine Finset.sum_eq_zero fun u _ => refundCharge_apply_of_ne _ fun x => ?_
  simp [depositPosting, pendingPosting]

theorem refunded_getDepositBalance : s.refunded.getDepositBalance a = s.getDepositBalance a := by
  rw [getDepositBalance, refunded_amounts, Finset.sum_eq_zero, add_zero, getDepositBalance]
  intro c _
  refine Finset.sum_eq_zero fun u _ => refundCharge_apply_of_ne _ fun x => ?_
  simp [depositPosting, pendingPosting]

theorem refunded_getTotalDepositProxiedBalance :
    s.refunded.getTotalDepositProxiedBalance a =
      s.getTotalDepositProxiedBalance a - s.dueRefunds a := by
  rw [getTotalDepositProxiedBalance, refunded_amounts, getTotalDepositProxiedBalance, dueRefunds,
    sub_eq_add_neg]
  have hinner (c : Address) : ∑ u ∈ s.proxiedTrie c,
      (refundCharge c u (s.getAccountProxiedBalance c u)).2.2 (.depositProxiedBalance a) =
        if c = a then -∑ u ∈ s.proxiedTrie c, max 0 (s.amounts (.pendingRefund c u)) else 0 := by
    simp only [refundCharge_totalDeposit]
    split
    · rw [← Finset.sum_neg_distrib]
      rfl
    · exact Finset.sum_const_zero
  simp only [hinner]
  rw [Finset.sum_ite_eq']
  split
  · rfl
  · rw [neg_zero]

theorem refunded_stake : s.refunded.stake a = s.stake a - s.dueRefunds a := by
  rw [stake, refunded_getTotalProxiedBalance, refunded_getTotalDepositProxiedBalance,
    refunded_getDepositBalance, stake]
  omega

theorem refunded_netProxied : s.refunded.netProxied a = s.netProxied a := by
  have hpending : s.refunded.getTotalPendingRefundBalance a =
      s.getTotalPendingRefundBalance a - s.dueRefunds a := by
    have hdeposit := refunded_getTotalDepositProxiedBalance s a
    rw [getTotalDepositProxiedBalance, refunded_amounts, getTotalDepositProxiedBalance] at hdeposit
    rw [getTotalPendingRefundBalance, refunded_amounts, getTotalPendingRefundBalance]
    simp only [refundCharge_totalPending]
    omega
  rw [netProxied, refunded_getTotalProxiedBalance, refunded_getTotalDepositProxiedBalance, hpending,
    netProxied]
  omega

theorem refunded_ballot : s.refunded.ballot a = s.ballot a := by
  rw [ballot, refunded_netProxied]
  rfl

/-- The loop removes a validator of the set: it is banned, or has no stake left when the refunds are
paid. -/
def leaves (v : Validator) : Bool :=
  (s.accounts v.address).isBanned || decide (s.stake v.address - s.dueRefunds v.address = 0)

theorem refunded_drops : s.refunded.drops = s.leaves := by
  funext v
  rw [drops, leaves, refunded_stake]
  rfl

end StateDB

/-! ## Who is passed over -/

/-- The validators that the loop passes over: each one behind a validator that is removed, except
the last. -/
def passedOver (drops : Validator → Bool) : List Validator → List Validator
  | v :: w :: u :: l =>
    if drops v then w :: passedOver drops (u :: l) else passedOver drops (w :: u :: l)
  | _ => []

section PassedOver

variable {drops : Validator → Bool} {vs : List Validator} {v : Validator}

theorem mem_passedOver_iff (k : Nat) : v ∈ passedOver drops vs ↔ (v, 0) ∈ visits drops k vs := by
  induction vs using List.twoStepInduction generalizing k with
  | nil | singleton => simp [passedOver, visits]
  | cons_cons _ u l ih ih' =>
    cases l with
    | nil => simp [passedOver, visits]
    | cons =>
      rw [passedOver, visits]
      split
      · rw [List.mem_cons, List.mem_cons, List.mem_cons, ih (k + 1)]
        simp
      · rw [List.mem_cons, ih' u k]
        simp

theorem passedOver_subset : passedOver drops vs ⊆ vs := by
  intro v hv
  have hmem := List.mem_map_of_mem (f := Prod.fst) ((mem_passedOver_iff 0).1 hv)
  rwa [visits_map_fst] at hmem

end PassedOver

namespace StateDB

variable (s : StateDB) {vs : List Validator} (hvs : (vs.map (·.address)).Nodup)
include hvs

/-- **The validators that the loop leaves**: those it passes over, as they are, and those that have
stake. -/
theorem mem_survivors_iff {w : Validator} :
    w ∈ s.survivors vs ↔ w ∈ passedOver s.leaves vs ∨
      ∃ v ∈ vs, v ∉ passedOver s.leaves vs ∧ s.leaves v = false ∧
        w = { v with votingPower := s.stake v.address - s.dueRefunds v.address } := by
  have hfst := visits_map_fst s.leaves 0 vs
  have hnodup : ((visits s.leaves 0 vs).map Prod.fst).Nodup := by
    rw [hfst]
    exact hvs.of_map _
  have houtcome (v : Validator × Nat) : s.refunded.outcome v = if v.2 = 0 then some v.1
      else if s.leaves v.1 then none
      else some { v.1 with votingPower := s.stake v.1.address - s.dueRefunds v.1.address } := by
    rw [outcome, refunded_drops, powered, refunded_stake]
  rw [survivors, refunded_drops, List.mem_filterMap]
  constructor
  · rintro ⟨v, hv, hw⟩
    rw [houtcome] at hw
    split at hw
    · rename_i h0
      have hzero : (v.1, 0) ∈ visits s.leaves 0 vs := h0 ▸ hv
      exact .inl ((mem_passedOver_iff 0).2 (Option.some.inj hw ▸ hzero))
    · rename_i h0
      split at hw
      · cases hw
      rename_i hleaves
      refine .inr ⟨v.1, hfst ▸ List.mem_map_of_mem hv, fun hpassed => h0 ?_, by simpa using hleaves,
        (Option.some.inj hw).symm⟩
      have heq := List.inj_on_of_nodup_map hnodup hv ((mem_passedOver_iff 0).1 hpassed) rfl
      rw [heq]
  · rintro (hpassed | ⟨v, hv, hpassed, hleaves, rfl⟩)
    · exact ⟨(w, 0), (mem_passedOver_iff 0).1 hpassed, houtcome _⟩
    rw [← hfst, List.mem_map] at hv
    obtain ⟨⟨v', n⟩, hv', rfl⟩ := hv
    refine ⟨(v', n), hv', ?_⟩
    have hn : n ≠ 0 := fun h0 => hpassed ((mem_passedOver_iff 0).2 (h0 ▸ hv'))
    rw [houtcome, if_neg hn, hleaves]
    rfl

end StateDB

/-! ## Who is in the next set -/

section Members

variable {vs : List Validator} {votes : List EpochValidatorVote} {a : Address}

theorem voteOf_of_mem (hvotes : (votes.map (·.address)).Nodup) {w : EpochValidatorVote} (hw : w ∈ votes) :
    voteOf votes w.address = w.revealed := by
  rw [voteOf, (Keyed.find_eq_some_iff hvotes).2 ⟨hw, rfl⟩]
  rfl

theorem exists_of_voteOf {x : Int × Bytes} (h : voteOf votes a = some x) :
    ∃ w ∈ votes, w.address = a ∧ w.revealed = some x := by
  rw [voteOf, Option.bind_eq_some_iff] at h
  obtain ⟨w, hfind, hw⟩ := h
  exact ⟨w, List.mem_of_find?_eq_some hfind, by simpa using List.find?_some hfind, hw⟩

theorem voteOf_append (votes votes' : List EpochValidatorVote) (a : Address)
    (h : a ∈ votes.map (·.address) → a ∉ votes'.map (·.address)) :
    voteOf (votes ++ votes') a = (voteOf votes a).or (voteOf votes' a) := by
  rw [voteOf, List.find?_append, voteOf, voteOf]
  cases hfind : votes.find? fun v => v.address == a with
  | none => rfl
  | some =>
    have hmem : a ∈ votes.map (·.address) := by
      by_contra hnot
      rw [Keyed.find_eq_none_iff.2 hnot] at hfind
      cases hfind
    rw [Keyed.find_eq_none_iff.2 (h hmem)]
    simp

/-- **Who is in the set**, and with which power. -/
theorem exists_mem_members_iff (hvotes : (votes.map (·.address)).Nodup) {x : Int} :
    (∃ v ∈ members vs votes, v.address = a ∧ v.votingPower = x) ↔
      (∃ v ∈ vs, v.address = a ∧ v.votingPower = x ∧ voteOf votes a = none) ∨
      ∃ key, voteOf votes a = some (x, key) ∧ (x = 0 → a ∉ vs.map (·.address)) := by
  constructor
  · rintro ⟨v, hv, rfl, rfl⟩
    obtain ⟨v, hcounted, rfl⟩ := List.mem_map.1 hv
    rcases mem_counted.1 hcounted with ⟨u, hu, huv⟩ | ⟨w, hw, hwv⟩
    · rw [afterVote] at huv
      split at huv
      · rename_i hnone
        obtain rfl := Option.some.inj huv
        exact .inl ⟨u, hu, rfl, rfl, hnone⟩
      · rename_i amount key hsome
        split at huv
        · cases huv
        · rename_i hne
          obtain rfl := Option.some.inj huv
          exact .inr ⟨key, hsome, fun h0 => absurd h0 hne⟩
    · rw [newcomer] at hwv
      split at hwv
      · cases hwv
      rename_i amount key hsome
      split at hwv
      · cases hwv
      · rename_i hmem
        obtain rfl := Option.some.inj hwv
        exact .inr ⟨key, (voteOf_of_mem hvotes hw).trans hsome, fun _ => hmem⟩
  · have hmember (v : Validator) (hv : v ∈ counted vs votes) :
        ∃ v' ∈ members vs votes, v'.address = v.address ∧ v'.votingPower = v.votingPower :=
      ⟨_, List.mem_map_of_mem hv, rfl, rfl⟩
    rintro (⟨v, hv, rfl, rfl, hnone⟩ | ⟨key, hsome, hzero⟩)
    · refine hmember v (mem_counted.2 (.inl ⟨v, hv, ?_⟩))
      rw [afterVote, hnone]
    by_cases hmem : a ∈ vs.map (·.address)
    · obtain ⟨u, hu, rfl⟩ := List.mem_map.1 hmem
      refine hmember { u with votingPower := x } (mem_counted.2 (.inl ⟨u, hu, ?_⟩))
      rw [afterVote, hsome]
      exact if_neg fun h0 => hzero h0 hmem
    · obtain ⟨w, hw, rfl, hrevealed⟩ := exists_of_voteOf hsome
      refine hmember ⟨w.address, key, x, 0⟩ (mem_counted.2 (.inr ⟨w, hw, ?_⟩))
      rw [newcomer, hrevealed]
      exact if_neg hmem

end Members

namespace StateDB

section Earns

variable (s : StateDB) (vs : List Validator) (votes : Option EpochValidatorVoteSet)

/-- What an address has voted for in the votes of the next epoch. -/
def vote (votes : Option EpochValidatorVoteSet) (a : Address) : Option (Int × Bytes) :=
  voteOf (votes.getD .new).votes a

/-- The loop leaves the address in the set. -/
def Stays (a : Address) : Prop :=
  ∃ v ∈ vs, v.address = a ∧ (v ∈ passedOver s.leaves vs ∨ s.leaves v = false)

/-- A vote is made for the candidate. -/
def Contends (a : Address) : Prop :=
  a ∈ s.candidateSet.addresses ∧ (s.accounts a).isBanned = false ∧ ¬ s.Stays vs a ∧
    a ∉ (votes.getD .new).votes.map (·.address) ∧
    s.isCandidate a = true ∧ 0 ≤ s.netProxied a ∧ (s.accounts a).pubkey.length = 128

/-- **The power of an address in the next epoch**, if it is one of the first hundred. -/
inductive Earns : Address → Int → Prop
  /-- A validator that is passed over keeps its power. -/
  | kept {v : Validator} (hv : v ∈ passedOver s.leaves vs) (hvote : vote votes v.address = none) :
      Earns v.address v.votingPower
  /-- A validator gets the power of its stake. -/
  | staked {v : Validator} (hv : v ∈ vs) (hvisited : v ∉ passedOver s.leaves vs)
      (hstays : s.leaves v = false) (hvote : vote votes v.address = none) :
      Earns v.address (s.stake v.address - s.dueRefunds v.address)
  /-- A vote counts for anybody; a vote of nothing removes a validator. -/
  | voted {a : Address} {x : Int} {key : Bytes} (hvote : vote votes a = some (x, key))
      (hzero : x = 0 → ¬ s.Stays vs a) : Earns a x
  /-- A candidate gets the power of what is delegated to it. -/
  | elected {a : Address} (ha : s.Contends vs votes a) : Earns a (s.netProxied a)

end Earns

variable {s : StateDB} {vs : List Validator} {votes : Option EpochValidatorVoteSet}
  (hvs : (vs.map (·.address)).Nodup)
include hvs

theorem mem_survivors_address {a : Address} :
    a ∈ (s.survivors vs).map (·.address) ↔ s.Stays vs a := by
  rw [List.mem_map]
  constructor
  · rintro ⟨w, hw, rfl⟩
    rcases (mem_survivors_iff s hvs).1 hw with hpassed | ⟨v, hv, -, hleaves, rfl⟩
    · exact ⟨w, passedOver_subset hpassed, rfl, .inl hpassed⟩
    · exact ⟨v, hv, rfl, .inr hleaves⟩
  · rintro ⟨v, hv, rfl, h⟩
    by_cases hpassed : v ∈ passedOver s.leaves vs
    · exact ⟨v, (mem_survivors_iff s hvs).2 (.inl hpassed), rfl⟩
    · exact ⟨_, (mem_survivors_iff s hvs).2
        (.inr ⟨v, hv, hpassed, h.resolve_left hpassed, rfl⟩), rfl⟩

/-- The votes that are made for candidates. -/
theorem mem_newVotes_contenders {w : EpochValidatorVote} :
    w ∈ s.refunded.newVotes (s.contenders s.candidateSet.addresses (s.survivors vs)
        (votes.getD .new).votes) ↔
      s.Contends vs votes w.address ∧
        w = ⟨w.address, some (s.accounts w.address).pubkey, some (s.netProxied w.address), "neatio"⟩ := by
  rw [mem_newVotes]
  constructor
  · rintro ⟨_, ha, hballot⟩
    rw [refunded_ballot, ballot] at hballot
    split at hballot
    · rename_i h
      cases hballot
      obtain ⟨hset, hbanned, hsurvives, hvotes⟩ := Finset.mem_filter.1 ha
      exact ⟨⟨hset, hbanned, fun hstays => hsurvives ((mem_survivors_address hvs).2 hstays), hvotes, h⟩,
        rfl⟩
    · cases hballot
  · rintro ⟨⟨hset, hbanned, hstays, hvotes, h⟩, hw⟩
    refine ⟨w.address, Finset.mem_filter.2 ⟨hset, hbanned, fun hmem => hstays ?_, hvotes⟩, ?_⟩
    · exact (mem_survivors_address hvs).1 hmem
    · rw [refunded_ballot, ballot, if_pos h, ← hw]

theorem voteOf_nextVotes_of_contends {a : Address} (h : s.Contends vs votes a) :
    voteOf (s.nextVotes vs votes) a = some (s.netProxied a, (s.accounts a).pubkey) := by
  have hmem : (⟨a, some (s.accounts a).pubkey, some (s.netProxied a), "neatio"⟩ : EpochValidatorVote) ∈
      s.nextVotes vs votes := List.mem_append_right _ ((mem_newVotes_contenders hvs).2 ⟨h, rfl⟩)
  rw [voteOf_of_mem (s.nextVotes_nodup vs votes) hmem]
  rfl

theorem voteOf_nextVotes_of_not_contends {a : Address} (h : ¬ s.Contends vs votes a) :
    voteOf (s.nextVotes vs votes) a = vote votes a := by
  have hnone : a ∉ (s.refunded.newVotes (s.contenders s.candidateSet.addresses (s.survivors vs)
      (votes.getD .new).votes)).map (·.address) := by
    intro hmem
    obtain ⟨_, hw, rfl⟩ := List.mem_map.1 hmem
    exact h ((mem_newVotes_contenders hvs).1 hw).1
  rw [nextVotes, voteOf_append _ _ _ fun _ => hnone, voteOf_eq_none hnone, Option.or_none, vote]

/-- **The validators of the next epoch**, address by address. -/
theorem exists_mem_nextMembers_iff {a : Address} {x : Int} :
    (∃ v ∈ s.nextMembers vs votes, v.address = a ∧ v.votingPower = x) ↔ s.Earns vs votes a x := by
  rw [nextMembers, exists_mem_members_iff (s.nextVotes_nodup vs votes), mem_survivors_address hvs]
  by_cases hcontends : s.Contends vs votes a
  · rw [voteOf_nextVotes_of_contends hvs hcontends]
    have hvote : vote votes a = none := voteOf_eq_none hcontends.2.2.2.1
    constructor
    · rintro (⟨_, -, -, -, h⟩ | ⟨key, h, -⟩)
      · cases h
      · cases h
        exact .elected hcontends
    · intro h
      cases h with
      | kept hv => exact absurd ⟨_, passedOver_subset hv, rfl, .inl hv⟩ hcontends.2.2.1
      | staked hv _ hleaves => exact absurd ⟨_, hv, rfl, .inr hleaves⟩ hcontends.2.2.1
      | voted h => rw [hvote] at h; cases h
      | elected => exact .inr ⟨_, rfl, fun _ => hcontends.2.2.1⟩
  · rw [voteOf_nextVotes_of_not_contends hvs hcontends]
    constructor
    · rintro (⟨_, hw, rfl, rfl, hnone⟩ | ⟨key, hsome, hzero⟩)
      · rcases (mem_survivors_iff s hvs).1 hw with hpassed | ⟨v, hv, hpassed, hleaves, rfl⟩
        · exact .kept hpassed hnone
        · exact Earns.staked (v := v) hv hpassed hleaves hnone
      · exact .voted hsome hzero
    · intro h
      cases h with
      | kept hv hvote => exact .inl ⟨_, (mem_survivors_iff s hvs).2 (.inl hv), rfl, rfl, hvote⟩
      | staked hv hvisited hleaves hvote =>
        exact .inl ⟨_, (mem_survivors_iff s hvs).2 (.inr ⟨_, hv, hvisited, hleaves, rfl⟩), rfl, rfl,
          hvote⟩
      | voted hvote hzero => exact .inr ⟨_, hvote, hzero⟩
      | elected ha => exact absurd ha hcontends

end StateDB

/-! ## Who is cut -/

section Cut

variable {l : List Validator} {v : Validator}

/-- How many come before a validator, however they are sorted. -/
def rank (l : List Validator) (v : Validator) : Nat := SortSlice.ahead validatorLess l v

variable (rt : Runtime)

theorem cut_sublist_perm (l : List Validator) : ∃ l', l'.Perm l ∧ (rt.cut l).Sublist l' := by
  rw [Runtime.cut]
  split
  · exact ⟨_, rt.sortValidators.perm l, List.take_sublist _ _⟩
  · exact ⟨l, List.Perm.refl l, List.Sublist.refl l⟩

theorem mem_of_mem_cut {rt : Runtime} (hv : v ∈ rt.cut l) : v ∈ l := by
  obtain ⟨_, hperm, hsub⟩ := cut_sublist_perm rt l
  exact hperm.mem_iff.1 (hsub.subset hv)

theorem cut_nodup (hl : (l.map (·.address)).Nodup) : ((rt.cut l).map (·.address)).Nodup := by
  obtain ⟨_, hperm, hsub⟩ := cut_sublist_perm rt l
  exact ((hperm.map _).nodup_iff.2 hl).sublist (hsub.map _)

theorem length_cut_le (l : List Validator) : (rt.cut l).length ≤ 100 := by
  rw [Runtime.cut]
  split
  · exact List.length_take_le _ _
  · omega

theorem cut_eq_nil_iff : rt.cut l = [] ↔ l = [] := by
  rw [Runtime.cut]
  split
  · rename_i h
    have hlen := (rt.sortValidators.perm l).length_eq
    refine iff_of_false (fun hnil => ?_) fun hnil => ?_
    · have htake := congrArg List.length hnil
      rw [List.length_take, List.length_nil] at htake
      omega
    · rw [hnil] at h
      cases h
  · rfl

theorem rank_lt_of_mem_cut {rt : Runtime} (hv : v ∈ rt.cut l) : rank l v < 100 := by
  rw [Runtime.cut] at hv
  split at hv
  · obtain ⟨i, hi, hget⟩ := List.getElem_of_mem hv
    rw [List.length_take] at hi
    rw [List.getElem_take] at hget
    have hsplit : rt.sortValidators.sort l = (rt.sortValidators.sort l).take i ++
        v :: (rt.sortValidators.sort l).drop (i + 1) := by
      rw [← hget, ← List.drop_eq_getElem_cons, List.take_append_drop]
    have hsorted := rt.sortValidators.sorted l
    rw [hsplit] at hsorted
    have hle := SortSlice.ahead_le validatorLess_irrefl hsorted
    rw [← hsplit, SortSlice.ahead, (rt.sortValidators.perm l).countP_eq, List.length_take] at hle
    rw [rank, SortSlice.ahead]
    omega
  · have hlt : rank l v < l.length := List.countP_lt_length_iff.2 ⟨v, hv, validatorLess_irrefl v⟩
    omega

theorem mem_cut_early (hv : v ∈ l) (h : rank l v < 100) : v ∈ (rt.early v).cut l := by
  rw [Runtime.cut]
  split
  · have hget := SortSlice.early_getElem? validatorLess_asymm not_validatorLess_trans rt.sortValidators hv
    refine List.mem_iff_getElem?.2 ⟨rank l v, ?_⟩
    rw [List.getElem?_take_of_lt h]
    exact hget
  · exact hv

/-- **Who is cut**, however the validators are sorted: those with a hundred before them. -/
theorem forall_not_mem_cut_iff (hv : v ∈ l) : (∀ rt : Runtime, v ∉ rt.cut l) ↔ 100 ≤ rank l v := by
  constructor
  · intro h
    by_contra hlt
    exact h _ (mem_cut_early Runtime.sorted hv (Nat.lt_of_not_le hlt))
  · intro h rt hmem
    exact absurd (rank_lt_of_mem_cut hmem) (Nat.not_lt_of_le h)

end Cut

namespace StateDB

variable (s : StateDB) (vs : List Validator) (votes : Option EpochValidatorVoteSet)

theorem nextMembers_nodup (hvs : (vs.map (·.address)).Nodup) :
    ((s.nextMembers vs votes).map (·.address)).Nodup := by
  rw [nextMembers, members_map_address]
  exact counted_nodup (s.survivors_nodup hvs) (s.nextVotes_nodup vs votes)

/-- A hundred others come before the address, however the validators are sorted. -/
def Outranked (a : Address) : Prop :=
  ∀ v ∈ s.nextMembers vs votes, v.address = a → 100 ≤ rank (s.nextMembers vs votes) v

end StateDB

/-- What holds of the returned set in any case. -/
theorem forall_enter_iff (epoch : Epoch) (votes : Option EpochValidatorVoteSet) (s : StateDB)
    (hvs : (epoch.validators.validators.map (·.address)).Nodup) (P : List Validator → Prop) :
    (∀ rt height newValidators, (shouldEnterNewEpoch rt epoch (some votes) height s).2 = .enter newValidators →
      P newValidators.validators) ↔
      ∀ rt : Runtime, P (rt.cut (s.nextMembers epoch.validators.validators votes)) := by
  have henter (rt : Runtime) (height : Nat) (newValidators : ValidatorSet) :
      (shouldEnterNewEpoch rt epoch (some votes) height s).2 = .enter newValidators ↔
        height = epoch.endBlock ∧
          newValidators = ⟨rt.cut (s.nextMembers epoch.validators.validators votes)⟩ := by
    rw [shouldEnterNewEpoch]
    split
    · rename_i hheight
      dsimp only
      rw [enterNewEpoch_validators rt votes s hvs, SwitchResult.enter.injEq]
      exact ⟨fun h => ⟨hheight, h.symm⟩, fun h => h.2.symm⟩
    · rename_i hheight
      exact iff_of_false (fun h => by cases h) fun h => hheight h.1
  simp only [henter]
  constructor
  · exact fun h rt => h rt _ _ ⟨rfl, rfl⟩
  · rintro h rt _ _ ⟨-, rfl⟩
    exact h rt

end NeatPoS
