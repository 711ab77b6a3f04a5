import NeatPoS.Epoch.Admission

/-!
# The dry run of the epoch switch

Some blocks before the end of an epoch a node computes what the next validators would be:
`DryRunUpdateEpochValidatorSet` (`epoch/epoch.go`).  It does not pay the pending refunds, as
`ShouldEnterNewEpoch` does, but subtracts their total from the stake, and it does not make votes for
the candidates.  Otherwise it is the same loop over the validators, with the same faults, and the
same merge.

The loop is the one of `Epoch/Loop.lean`, run on a state in which each validator has its reduced
stake as its deposit (`dryTwin`).  So the two sets can be compared (`dryRun_predicts`):

* what is subtracted must be what would be paid, at each validator;
* no vote may be made for a candidate.  A candidate that is a validator is passed by, but not if the
  loop has just removed it for having no stake: then it comes back with a power of 0.
-/

set_option autoImplicit false

namespace NeatPoS

open DFinsupp

/-! ## The dry run -/

/-- The stake of a validator less the pending refunds. -/
def StateDB.dryStake (s : StateDB) (addr : Address) : Int :=
  s.netProxied addr + s.getDepositBalance addr

namespace LoopState

/-- The body of the loop, at the validator that slot `p` points at. -/
def dryVisitValidator (st : LoopState) (p : Nat) (v : Validator) : LoopState :=
  let newVotingPower := st.db.dryStake v.address
  if newVotingPower = 0 then st.remove v.address
  else { st with heap := st.heap.set p { v with votingPower := newVotingPower } }

/-- Round `j` of the loop. -/
def dryVisit (st : LoopState) (j : Nat) : LoopState :=
  match st.slots[j]? with
  | none => st
  | some p =>
    match st.heap[p]? with
    | none => st
    | some v => st.dryVisitValidator p v

end LoopState

/-- The loop of `DryRunUpdateEpochValidatorSet`. -/
def dryRunLoop (db : StateDB) (validators : List Validator) : LoopState :=
  (List.range validators.length).foldl LoopState.dryVisit
    ⟨db, validators, List.range validators.length, validators.length, []⟩

/-- `DryRunUpdateEpochValidatorSet`, with what it leaves in `validators`. -/
def dryRunUpdateEpochValidatorSet (rt : Runtime) (s : StateDB) (validators : ValidatorSet)
    (voteSet : Option EpochValidatorVoteSet) : ValidatorSet :=
  (updateEpochValidatorSet rt ⟨(dryRunLoop s validators.validators).validators⟩
    (voteSet.getD .new)).1

/-! ## The loop -/

namespace StateDB

/-- A state in which each validator has its reduced stake as its deposit. -/
def dryTwin (s : StateDB) (vs : List Validator) : StateDB :=
  { StateDB.new with
    amounts := ∑ a ∈ (vs.map (·.address)).toFinset, single (.depositBalance a) (s.dryStake a) }

variable {s : StateDB} {vs : List Validator} {a : Address} {v : Validator}

theorem dryTwin_amounts (k : Slot) : (s.dryTwin vs).amounts k =
    ∑ a ∈ (vs.map (·.address)).toFinset,
      (single (.depositBalance a) (s.dryStake a) : Π₀ _ : Slot, Int) k := by
  rw [dryTwin, DFinsupp.finsetSum_apply]

theorem dryTwin_stake (ha : a ∈ vs.map (·.address)) : (s.dryTwin vs).stake a = s.dryStake a := by
  have hdeposit : (s.dryTwin vs).getDepositBalance a = s.dryStake a := by
    rw [getDepositBalance, dryTwin_amounts, Finset.sum_eq_single_of_mem _ (List.mem_toFinset.2 ha)]
    · exact single_eq_same
    · intro b _ hne
      exact single_eq_of_ne fun h => hne (Slot.depositBalance.inj h).symm
  have hzero : ∀ k : Slot, (∀ b, k ≠ .depositBalance b) → (s.dryTwin vs).amounts k = 0 := by
    intro k hk
    rw [dryTwin_amounts]
    exact Finset.sum_eq_zero fun b _ => single_eq_of_ne fun h => hk b h
  rw [stake, hdeposit, getTotalProxiedBalance, getTotalDepositProxiedBalance,
    hzero _ (by simp), hzero _ (by simp)]
  omega

theorem dryTwin_drops (ha : v.address ∈ vs.map (·.address)) :
    (s.dryTwin vs).drops v = decide (s.dryStake v.address = 0) := by
  rw [drops, dryTwin_stake ha]
  rfl

theorem dryTwin_powered (ha : v.address ∈ vs.map (·.address)) :
    (s.dryTwin vs).powered v = { v with votingPower := s.dryStake v.address } := by
  rw [powered, dryTwin_stake ha]

end StateDB

namespace LoopState

/-- The loop of the dry run, `dt`, is where the other loop is on the twin, `st`. -/
structure DryTwin (s : StateDB) (vs : List Validator) (dt st : LoopState) : Prop where
  db : dt.db = s
  twin : StateDB.Posts (s.dryTwin vs) st.db 0
  heap : dt.heap = st.heap
  slots : dt.slots = st.slots
  size : dt.size = st.size
  address : ∀ v ∈ st.heap, v.address ∈ vs.map (·.address)

variable {s : StateDB} {vs : List Validator} {dt st : LoopState}

theorem remove_heap (st : LoopState) (a : Address) : (st.remove a).heap = st.heap := by
  rw [remove]
  split <;> rfl

theorem DryTwin.remove (h : DryTwin s vs dt st) (a : Address) :
    (dt.remove a).slots = (st.remove a).slots ∧ (dt.remove a).size = (st.remove a).size := by
  rw [LoopState.remove, LoopState.remove, h.slots, h.size, h.heap]
  split
  · exact ⟨h.slots, h.size⟩
  · exact ⟨rfl, rfl⟩

theorem DryTwin.visitValidator (h : DryTwin s vs dt st) (p : Nat) {v : Validator}
    (hv : v ∈ st.heap) : DryTwin s vs (dt.dryVisitValidator p v) (st.visitValidator p v) := by
  have ha := h.address v hv
  have htwin := h.twin.zero_trans (StateDB.dropIfBanned_posts st.db v.address)
  have hdrops := (h.twin.drops v).trans (StateDB.dryTwin_drops ha)
  rw [dryVisitValidator, h.db]
  by_cases hzero : s.dryStake v.address = 0
  · rw [if_pos hzero, visitValidator_of_drops p (hdrops.trans (decide_eq_true hzero))]
    obtain ⟨hslots, hsize⟩ := h.remove v.address
    refine ⟨(remove_db dt _).trans h.db, htwin, ?_, hslots, hsize, ?_⟩
    · rw [remove_heap, h.heap]
      exact (remove_heap st _).symm
    · intro w hw
      rw [show (st.remove v.address).heap = st.heap from remove_heap st _] at hw
      exact h.address w hw
  · rw [if_neg hzero, visitValidator_of_not_drops p (hdrops.trans (decide_eq_false hzero))]
    refine ⟨rfl, htwin, ?_, h.slots, h.size, ?_⟩
    · rw [h.twin.powered, StateDB.dryTwin_powered ha, ← h.heap]
    · intro w hw
      rcases List.mem_or_eq_of_mem_set hw with hw | rfl
      · exact h.address w hw
      · exact ha

/-- One round of the two loops. -/
theorem DryTwin.visit (h : DryTwin s vs dt st) (j : Nat) :
    DryTwin s vs (dt.dryVisit j) (st.visit j) := by
  rw [dryVisit, LoopState.visit, h.slots]
  cases st.slots[j]? with
  | none => exact h
  | some p =>
    dsimp only
    rw [h.heap]
    cases hp : st.heap[p]? with
    | none => exact h
    | some => exact h.visitValidator p (List.mem_of_getElem? hp)

theorem DryTwin.run (h : DryTwin s vs dt st) (js : List Nat) :
    DryTwin s vs (js.foldl dryVisit dt) (js.foldl LoopState.visit st) := by
  induction js generalizing dt st with
  | nil => exact h
  | cons j _ ih => exact ih (h.visit j)

end LoopState

/-- **The loop of the dry run** is the loop of the switch on the twin. -/
theorem dryRunLoop_validators (s : StateDB) (vs : List Validator) :
    (dryRunLoop s vs).validators = (validatorLoop (s.dryTwin vs) vs).validators := by
  have hstart : LoopState.DryTwin s vs ⟨s, vs, List.range vs.length, vs.length, []⟩
      ⟨s.dryTwin vs, vs, List.range vs.length, vs.length, []⟩ :=
    ⟨rfl, StateDB.Posts.refl _, rfl, rfl, rfl, fun v hv => List.mem_map_of_mem hv⟩
  have hend := hstart.run (List.range vs.length)
  rw [LoopState.validators, LoopState.validators, dryRunLoop, validatorLoop, hend.slots, hend.size,
    hend.heap]

/-! ## The two sets -/

/-- The addresses of a set, with their powers. -/
def ValidatorSet.standings (vs : ValidatorSet) : List (Address × Int) :=
  vs.validators.map fun v => (v.address, v.votingPower)

/-- The dry run on a state gives the addresses and the powers that the switch gives. -/
def Predicts (rt : Runtime) (epoch : Epoch) (votes : Option EpochValidatorVoteSet) (s : StateDB) :
    Prop :=
  ∃ s' next, shouldEnterNewEpoch rt epoch (some votes) epoch.endBlock s = (s', .enter next) ∧
    (dryRunUpdateEpochValidatorSet rt s epoch.validators votes).standings.Perm next.standings

theorem visits_congr {drops drops' : Validator → Bool} {vs : List Validator}
    (h : ∀ v ∈ vs, drops v = drops' v) (k : Nat) : visits drops k vs = visits drops' k vs := by
  induction vs using List.twoStepInduction generalizing k with
  | nil | singleton => rfl
  | cons_cons v w l ih ih' =>
    cases l with
    | nil => rfl
    | cons =>
      rw [visits, visits, h v List.mem_cons_self,
        ih (fun x hx => h x (List.mem_cons_of_mem _ (List.mem_cons_of_mem _ hx))),
        ih' w fun x hx => h x (List.mem_cons_of_mem _ hx)]

namespace StateDB

variable {s : StateDB} {vs : List Validator} {votes : Option EpochValidatorVoteSet}

/-- What is subtracted from the stake of a validator is what would be paid. -/
def Settles (s : StateDB) (vs : List Validator) : Prop :=
  ∀ v ∈ vs, v.address ∈ s.delegateRefundSet.addresses →
    s.getTotalPendingRefundBalance v.address =
      ∑ u ∈ s.proxiedTrie v.address, max 0 (s.amounts (.pendingRefund v.address u))

instance (s : StateDB) (vs : List Validator) : Decidable (s.Settles vs) :=
  inferInstanceAs (Decidable (∀ v ∈ vs, _ → _))

/-- Then the reduced stake is the stake after the refunds. -/
theorem Settles.dryStake (h : s.Settles vs)
    (hpending : ∀ a, s.getTotalPendingRefundBalance a ≠ 0 → a ∈ s.delegateRefundSet.addresses)
    {v : Validator} (hv : v ∈ vs) :
    s.dryStake v.address = s.refunded.stake v.address := by
  have hdue : s.dueRefunds v.address = s.getTotalPendingRefundBalance v.address := by
    rw [dueRefunds]
    split
    · rename_i hmem
      exact (h v hv hmem).symm
    · rename_i hmem
      by_contra hne
      exact hmem (hpending _ fun h0 => hne h0.symm)
  rw [refunded_stake, hdue, StateDB.dryStake, netProxied, stake]
  omega

section

variable (hvs : (vs.map (·.address)).Nodup) (hbanned : ∀ a, (s.accounts a).isBanned = false)
  (hpending : ∀ a, s.getTotalPendingRefundBalance a ≠ 0 → a ∈ s.delegateRefundSet.addresses)
  (hsettles : s.Settles vs)
include hvs hbanned hpending hsettles

/-- The loop of the dry run leaves the same validators. -/
theorem dryRunLoop_eq_survivors : (dryRunLoop s vs).validators = s.survivors vs := by
  have hdrops : ∀ v ∈ vs, (s.dryTwin vs).drops v = s.refunded.drops v := by
    intro v hv
    rw [dryTwin_drops (List.mem_map_of_mem hv), hsettles.dryStake hpending hv, refunded_drops,
      leaves, hbanned, Bool.false_or, refunded_stake]
  have houtcome : ∀ x ∈ visits s.refunded.drops 0 vs,
      (s.dryTwin vs).outcome x = s.refunded.outcome x := by
    intro x hx
    have hv : x.1 ∈ vs := by
      have hmem := List.mem_map_of_mem (f := Prod.fst) hx
      rwa [visits_map_fst] at hmem
    rw [outcome, outcome, hdrops x.1 hv, dryTwin_powered (List.mem_map_of_mem hv),
      hsettles.dryStake hpending hv, powered]
  rw [dryRunLoop_validators, (validatorLoop_swept _ hvs).2.2, survivors, visits_congr hdrops,
    List.filterMap_congr houtcome]

/-- The set of the dry run, in closed form. -/
theorem dryRun_eq (rt : Runtime) : dryRunUpdateEpochValidatorSet rt s ⟨vs⟩ votes =
    ⟨rt.cut (members (s.survivors vs) (votes.getD .new).votes)⟩ := by
  rw [dryRunUpdateEpochValidatorSet, dryRunLoop_eq_survivors hvs hbanned hpending hsettles,
    updateEpochValidatorSet_eq_cut rt _ (s.survivors_nodup hvs)]

end

/-- Without a vote for a candidate the votes are those that there are. -/
theorem nextVotes_of_not_contends (hvs : (vs.map (·.address)).Nodup)
    (h : ∀ a, ¬ s.Contends vs votes a) : s.nextVotes vs votes = (votes.getD .new).votes := by
  rw [nextVotes]
  refine List.append_right_eq_self.2 (List.eq_nil_iff_forall_not_mem.2 fun w hw => ?_)
  exact h w.address ((mem_newVotes_contenders hvs).1 hw).1

/-- A candidate with a vote is in the next set, and nowhere in the other. -/
theorem Contends.mem_nextMembers (hvs : (vs.map (·.address)).Nodup) {a : Address}
    (h : s.Contends vs votes a) :
    a ∈ (s.nextMembers vs votes).map (·.address) ∧
      a ∉ (members (s.survivors vs) (votes.getD .new).votes).map (·.address) := by
  refine ⟨?_, fun hmem => ?_⟩
  · obtain ⟨v, hv, rfl, -⟩ := (exists_mem_nextMembers_iff hvs).2 (Earns.elected h)
    exact List.mem_map_of_mem hv
  obtain ⟨-, -, hstays, hvotes, -⟩ := h
  obtain ⟨v, hv, rfl⟩ := List.mem_map.1 hmem
  rcases (exists_mem_members_iff (votes.getD .new).nodup).1 ⟨v, hv, rfl, rfl⟩ with
    ⟨_, hw, haddr, -⟩ | ⟨_, hvote, -⟩
  · refine hstays ((mem_survivors_address hvs).1 ?_)
    rw [← haddr]
    exact List.mem_map_of_mem hw
  · rw [voteOf_eq_none hvotes] at hvote
    cases hvote

/-- Where a power comes from. -/
theorem Earns.address {a : Address} {x : Int} (h : s.Earns vs votes a x) :
    a ∈ vs.map (·.address) ∨ a ∈ (votes.getD .new).votes.map (·.address) ∨
      s.Contends vs votes a := by
  cases h with
  | kept hv => exact .inl (List.mem_map_of_mem (passedOver_subset hv))
  | staked hv => exact .inl (List.mem_map_of_mem hv)
  | voted hvote =>
    obtain ⟨_, hw, haddr, -⟩ := exists_of_voteOf hvote
    exact .inr (.inl (haddr ▸ List.mem_map_of_mem hw))
  | elected ha => exact .inr (.inr ha)

/-- If all the candidates are validators or have voted, so has everybody in the next set. -/
theorem length_nextMembers_le (hvs : (vs.map (·.address)).Nodup)
    (hcandidates : ∀ a ∈ s.candidateSet.addresses,
      a ∈ vs.map (·.address) ∨ a ∈ (votes.getD .new).votes.map (·.address)) :
    (s.nextMembers vs votes).length ≤ vs.length + (votes.getD .new).votes.length := by
  have hsub : (s.nextMembers vs votes).map (·.address) ⊆
      vs.map (·.address) ++ (votes.getD .new).votes.map (·.address) := by
    intro a ha
    obtain ⟨v, hv, rfl⟩ := List.mem_map.1 ha
    rw [List.mem_append]
    rcases ((exists_mem_nextMembers_iff hvs).1 ⟨v, hv, rfl, rfl⟩).address with
      hmem | hmem | hcontends
    · exact .inl hmem
    · exact .inr hmem
    · exact hcandidates _ hcontends.1
  have hle := (nextMembers_nodup s vs votes hvs).length_le_of_subset hsub
  rwa [List.length_map, List.length_append, List.length_map, List.length_map] at hle

end StateDB

/-- What is compared. -/
theorem predicts_iff (rt : Runtime) (epoch : Epoch) (votes : Option EpochValidatorVoteSet)
    (s : StateDB) (hvs : (epoch.validators.validators.map (·.address)).Nodup) :
    Predicts rt epoch votes s ↔
      (dryRunUpdateEpochValidatorSet rt s epoch.validators votes).standings.Perm
        (ValidatorSet.standings ⟨rt.cut (s.nextMembers epoch.validators.validators votes)⟩) := by
  have hswitch : shouldEnterNewEpoch rt epoch (some votes) epoch.endBlock s =
      ((enterNewEpoch rt epoch.validators votes s).1,
        .enter ⟨rt.cut (s.nextMembers epoch.validators.validators votes)⟩) := by
    rw [shouldEnterNewEpoch, if_pos rfl, ← enterNewEpoch_validators rt votes s hvs]
  constructor
  · rintro ⟨_, _, hnext, hperm⟩
    obtain ⟨-, h⟩ := Prod.mk.inj (hswitch.symm.trans hnext)
    rwa [SwitchResult.enter.inj h]
  · exact fun hperm => ⟨_, _, hswitch, hperm⟩

open StateDB in
/-- **The dry run predicts the switch** if no vote is made for a candidate, and, as long as nobody is
cut, only then. -/
theorem dryRun_predicts (rt : Runtime) (epoch : Epoch) (votes : Option EpochValidatorVoteSet)
    (s : StateDB) (hvs : (epoch.validators.validators.map (·.address)).Nodup)
    (hbanned : ∀ a, (s.accounts a).isBanned = false) (hcandidates : ∀ a ∈ s.candidateSet.addresses,
      a ∈ epoch.validators.validators.map (·.address) ∨
        a ∈ (votes.getD .new).votes.map (·.address))
    (hpending : ∀ a, s.getTotalPendingRefundBalance a ≠ 0 → a ∈ s.delegateRefundSet.addresses)
    (hsettles : s.Settles epoch.validators.validators) :
    ((∀ a, ¬ s.Contends epoch.validators.validators votes a) → Predicts rt epoch votes s) ∧
      (epoch.validators.validators.length + (votes.getD .new).votes.length ≤ 100 →
        Predicts rt epoch votes s → ∀ a, ¬ s.Contends epoch.validators.validators votes a) := by
  have hdry : dryRunUpdateEpochValidatorSet rt s epoch.validators votes =
      ⟨rt.cut (members (s.survivors epoch.validators.validators) (votes.getD .new).votes)⟩ :=
    dryRun_eq hvs hbanned hpending hsettles rt
  rw [predicts_iff rt epoch votes s hvs, hdry]
  refine ⟨fun hnone => ?_, fun hroom hperm a hcontends => ?_⟩
  · rw [nextMembers, nextVotes_of_not_contends hvs hnone]
  have hlength := length_nextMembers_le hvs hcandidates
  have hcut : rt.cut (s.nextMembers epoch.validators.validators votes) =
      s.nextMembers epoch.validators.validators votes := if_neg (by omega)
  obtain ⟨hmem, hnot⟩ := hcontends.mem_nextMembers hvs
  obtain ⟨_, hv, rfl⟩ := List.mem_map.1 hmem
  rw [hcut] at hperm
  obtain ⟨_, hw, hwv⟩ := List.mem_map.1 (hperm.mem_iff.2 (List.mem_map_of_mem hv))
  rw [← (Prod.mk.inj hwv).1] at hnot
  exact hnot (List.mem_map_of_mem (mem_of_mem_cut hw))

namespace Idle

/-- The first validator is a candidate, to whom a user has delegated and announced a refund, the
second has a deposit, and another candidate has voted. -/
def settled : StateDB :=
  { StateDB.new with
    amounts := single (.depositBalance [1]) 7 + single (.depositProxiedBalance [1]) 5 +
      single (.depositProxied [1] [3]) 5 + single (.pendingRefundBalance [1]) 2 +
      single (.pendingRefund [1] [3]) 2 + single (.delegateBalance [3]) 5 +
      single (.depositBalance [2]) 4 + single (.depositBalance [4]) 6
    accounts := fun a => if a = [1] ∨ a = [4] then
      { Account.absent with live := true, candidate := true, pubkey := List.replicate 128 7 }
      else .absent
    proxiedTrie := fun a => if a = [1] then {[3]} else ∅
    delegateRefundSet := ⟨{[1]}, none, false⟩
    candidateSet := ⟨{[1], [4]}, none, false⟩ }

/-- The vote of the other candidate. -/
def votes : EpochValidatorVoteSet :=
  ⟨[⟨[4], some (List.replicate 128 7), some 6, "neatio"⟩], by decide⟩

/-- The refund is paid as the dry run has it, and no vote is made for a candidate. -/
theorem dryRun_predicts_settled :
    Predicts Runtime.sorted (shortEpoch [⟨[1], [], 5, 0⟩, ⟨[2], [], 5, 0⟩]) (some votes) settled := by
  refine (dryRun_predicts _ _ _ _ (by decide) (fun a => ?_) (by decide) (fun a ha => ?_)
    (by decide +kernel)).1 fun a ha => ?_
  · dsimp only [settled]
    split <;> rfl
  · by_contra hnot
    have hne : a ≠ [1] := fun h => hnot (h ▸ by decide)
    exact ha (by simp [settled, StateDB.getTotalPendingRefundBalance, single_apply, hne.symm])
  · obtain ⟨hmem, -, hstays, hvotes, -⟩ := ha
    have hcases : a = [1] ∨ a = [4] := by simpa [settled, CachedSet.addresses, CachedSet.load] using hmem
    rcases hcases with rfl | rfl
    · exact hstays ⟨⟨[1], [], 5, 0⟩, by decide, rfl, .inr (by decide +kernel)⟩
    · exact hvotes (by decide)

/-- The first validator is a candidate, and nobody has any stake in it. -/
def noStake : StateDB :=
  { StateDB.new with
    amounts := single (.depositBalance [2]) 7
    accounts := fun a => if a = [1] then
      { Account.absent with live := true, candidate := true, pubkey := List.replicate 128 7 }
      else .absent
    candidateSet := ⟨{[1]}, none, false⟩ }

/-- A refund is pending, but its entry is not in the trie yet. -/
def unstored : StateDB :=
  { StateDB.new with
    amounts := single (.depositBalance [1]) 7 + single (.depositProxiedBalance [1]) 5 +
      single (.depositProxied [1] [3]) 5 + single (.pendingRefundBalance [1]) 2 +
        single (.pendingRefund [1] [3]) 2
    delegateRefundSet := ⟨{[1]}, none, false⟩ }

/-- **The dry run errs.**  It leaves out the validator without stake, who is then a validator with a
power of 0.  And it subtracts a refund that is not paid. -/
theorem dryRun_errs :
    ¬ Predicts Runtime.sorted (shortEpoch [⟨[1], [], 5, 0⟩, ⟨[2], [], 5, 0⟩]) none noStake ∧
      ¬ Predicts Runtime.sorted (shortEpoch [⟨[1], [], 5, 0⟩]) none unstored := by
  rw [predicts_iff _ _ _ _ (by decide), predicts_iff _ _ _ _ (by decide)]
  decide +kernel

end Idle

end NeatPoS
