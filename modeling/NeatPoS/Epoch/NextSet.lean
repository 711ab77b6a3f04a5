import NeatPoS.Epoch.Charges
import NeatPoS.Epoch.Votes
import NeatPoS.Staking.Shifts

/-!
# The validators of the next epoch

The set that `ShouldEnterNewEpoch` returns, in closed form.  It depends on the state after the
refunds of Step 1 (`StateDB.refunded`), in three layers:

* `survivors` are the validators that the loop leaves;
* `nextVotes` are the votes of the next epoch, with those that are made for candidates behind them;
* `nextMembers` are the validators once these votes are counted.

`enterNewEpoch_validators` says that the set is `nextMembers`, cut at a hundred.  None of the three
layers depends on how maps and tries are gone through, nor on how the votes are sorted; only the cut
does.
-/

set_option autoImplicit false

namespace NeatPoS

namespace StateDB

variable {rt : Runtime} {s s' : StateDB}

/-! ## Candidates -/

/-- The vote that is made for a candidate. -/
def ballot (s : StateDB) (a : Address) : Option EpochValidatorVote :=
  if s.isCandidate a = true ∧ 0 ≤ s.netProxied a ∧ (s.accounts a).pubkey.length = 128 then
    some ⟨a, some (s.accounts a).pubkey, some (s.netProxied a), "neatio"⟩
  else none

theorem Shifts.ballot (h : Shifts s s') (a : Address) : s'.ballot a = s.ballot a := by
  obtain ⟨_, hΔ⟩ := h.posts
  rw [StateDB.ballot, StateDB.ballot, h.isCandidate, h.netProxied, hΔ.pubkey]

theorem ballot_address {a : Address} {v : EpochValidatorVote} (h : s.ballot a = some v) :
    v.address = a := by
  rw [ballot] at h
  split at h
  · rw [← Option.some.inj h]
  · cases h

variable (rt : Runtime)

theorem candidateVote_snd (s : StateDB) (arr : List EpochValidatorVote) (a : Address) :
    (candidateVote rt (s, arr) a).2 = arr ++ (s.ballot a).toList := by
  rw [candidateVote, ballot]
  by_cases hc : s.isCandidate a = true
  · have hloop := forEachProxied_shifts s rt.trieOrder hc fun t u ht => moveToDeposit_shifts t u ht
    obtain ⟨_, hΔ⟩ := hloop.posts
    simp only [hc, if_true, true_and]
    split
    · rename_i hneg
      rw [if_neg fun h => absurd h.1 (Int.not_le.2 hneg), Option.toList_none, List.append_nil]
    rename_i hneg
    rw [hΔ.pubkey]
    by_cases hkey : (s.accounts a).pubkey.length = 128
    · rw [if_neg fun h => h hkey, if_pos ⟨Int.not_lt.1 hneg, hkey⟩]
      rfl
    · rw [if_pos hkey, if_neg fun h => hkey h.2]
      simp
  · rw [if_neg hc, if_neg fun h => hc h.1]
    simp

/-- The votes that are made for the candidates, in the order in which they are gone through. -/
theorem foldl_candidateVote_snd (l : List Address) (s : StateDB) (arr : List EpochValidatorVote) :
    (l.foldl (candidateVote rt) (s, arr)).2 = arr ++ l.filterMap s.ballot := by
  induction l generalizing s arr with
  | nil => exact (List.append_nil arr).symm
  | cons a _ ih =>
    have hshifts := candidateVote_shifts rt (s, arr) a
    have hballot : (candidateVote rt (s, arr) a).1.ballot = s.ballot := funext hshifts.ballot
    rw [List.foldl_cons, ← Prod.mk.eta (p := candidateVote rt (s, arr) a), ih, candidateVote_snd, hballot,
      List.append_assoc]
    cases ha : s.ballot a with
    | none => rw [List.filterMap_cons_none ha, Option.toList_none, List.nil_append]
    | some => rw [List.filterMap_cons_some ha, Option.toList_some, List.singleton_append]

/-- The votes of new addresses are stored behind the others. -/
theorem foldl_storeVote (l : List EpochValidatorVote) (voteSet : EpochValidatorVoteSet)
    (h : ((voteSet.votes ++ l).map (·.address)).Nodup) :
    (l.foldl EpochValidatorVoteSet.storeVote voteSet).votes = voteSet.votes ++ l := by
  induction l generalizing voteSet with
  | nil => exact (List.append_nil _).symm
  | cons v _ ih =>
    have hstore : (voteSet.storeVote v).votes = voteSet.votes ++ [v] := by
      rw [EpochValidatorVoteSet.storeVote]
      dsimp only
      rw [List.filter_eq_self.2]
      intro w hw
      rw [List.map_append, List.nodup_append] at h
      simpa using h.2.2 w.address (List.mem_map_of_mem hw) v.address
        (List.mem_map_of_mem List.mem_cons_self)
    rw [List.foldl_cons, ih, hstore, List.append_assoc, List.singleton_append]
    rwa [hstore, List.append_assoc, List.singleton_append]

variable (l : List Address)

theorem foldl_deleteCandidate_cache (s : StateDB) (a : Address) :
    a ∈ (l.foldl deleteCandidate s).candidateSet.cache ↔ a ∈ s.candidateSet.cache ∧ a ∉ l := by
  induction l generalizing s with
  | nil => simp
  | cons b l ih =>
    rw [List.foldl_cons, ih, List.mem_cons]
    show a ∈ s.candidateSet.cache.erase b ∧ a ∉ l ↔ _
    rw [Finset.mem_erase]
    tauto

theorem dropIfBanned_cache (s : StateDB) (a : Address) :
    (s.dropIfBanned a).candidateSet.cache =
      if (s.accounts a).isBanned then s.candidateSet.cache.erase a else s.candidateSet.cache := by
  rw [dropIfBanned_eq]
  by_cases h : (s.accounts a).isBanned = true
  · rw [if_pos h, if_pos h, serveBan_eq]
    split <;> simp [setBannedTime, deleteCandidate, CachedSet.delete]
  · rw [if_neg h, if_neg h, getOrNewStateObject_candidateSet]

theorem foldl_dropIfBanned_cache (s : StateDB) (a : Address) :
    a ∈ (l.foldl dropIfBanned s).candidateSet.cache ↔
      a ∈ s.candidateSet.cache ∧ ¬ ((s.accounts a).isBanned = true ∧ a ∈ l) := by
  induction l generalizing s with
  | nil => simp
  | cons b _ ih =>
    rw [List.foldl_cons, ih, (dropIfBanned_posts s b).isBanned, dropIfBanned_cache, List.mem_cons]
    by_cases hab : a = b
    · subst hab
      by_cases hb : (s.accounts a).isBanned = true <;> simp [hb]
    · by_cases hb : (s.accounts b).isBanned = true <;> simp [hb, hab]

/-- The votes of the candidates of a set, in the order in which they are stored. -/
def newVotes (s : StateDB) (S : Finset Address) : List EpochValidatorVote :=
  Runtime.sorted.sortVotes.sort ((Runtime.sorted.candidateOrder.list S).filterMap s.ballot)

/-- The order does not depend on how the set is gone through, nor on how the votes are sorted. -/
theorem sort_ballots (s : StateDB) (S : Finset Address) :
    rt.sortVotes.sort ((rt.candidateOrder.list S).filterMap s.ballot) = s.newVotes S := by
  have hperm : (rt.candidateOrder.list S).Perm (Runtime.sorted.candidateOrder.list S) := by
    refine (List.perm_ext_iff_of_nodup (rt.candidateOrder.nodup S)
      (Runtime.sorted.candidateOrder.nodup S)).2 fun a => ?_
    rw [rt.candidateOrder.mem, Runtime.sorted.candidateOrder.mem]
  refine SortSlice.sort_eq _ _ (hperm.filterMap _) fun v hv w hw hvw hwv => ?_
  obtain ⟨a, -, ha⟩ := List.mem_filterMap.1 hv
  obtain ⟨_, -, hb⟩ := List.mem_filterMap.1 hw
  have haddr := eq_of_not_voteLess hvw hwv
  rw [ballot_address ha, ballot_address hb] at haddr
  rw [haddr, hb] at ha
  exact (Option.some.inj ha).symm

theorem mem_newVotes {S : Finset Address} {v : EpochValidatorVote} :
    v ∈ s.newVotes S ↔ ∃ a ∈ S, s.ballot a = some v := by
  rw [newVotes, (Runtime.sorted.sortVotes.perm _).mem_iff, List.mem_filterMap]
  simp only [Runtime.sorted.candidateOrder.mem]

theorem newVotes_nodup (s : StateDB) (S : Finset Address) :
    ((s.newVotes S).map (·.address)).Nodup := by
  have hsub : (((Runtime.sorted.candidateOrder.list S).filterMap s.ballot).map (·.address)).Sublist
      ((Runtime.sorted.candidateOrder.list S).map id) :=
    Keyed.map_filterMap_sublist (fun _ _ => ballot_address) _
  rw [List.map_id] at hsub
  rw [newVotes, ((Runtime.sorted.sortVotes.perm _).map _).nodup_iff]
  exact (Runtime.sorted.candidateOrder.nodup S).sublist hsub

/-- The candidates for whom a vote may be made. -/
def contenders (s : StateDB) (S : Finset Address) (vs : List Validator)
    (votes : List EpochValidatorVote) : Finset Address :=
  S.filter fun a => (s.accounts a).isBanned = false ∧ a ∉ vs.map (·.address) ∧
    a ∉ votes.map (·.address)

theorem append_newVotes_nodup (s : StateDB) (S : Finset Address) (vs : List Validator)
    (voteSet : EpochValidatorVoteSet) :
    ((voteSet.votes ++ s.newVotes (s.contenders S vs voteSet.votes)).map (·.address)).Nodup := by
  rw [List.map_append, List.nodup_append]
  refine ⟨voteSet.nodup, newVotes_nodup s _, fun a ha b hb hab => ?_⟩
  obtain ⟨_, hv, rfl⟩ := List.mem_map.1 hb
  obtain ⟨_, hc, hcv⟩ := mem_newVotes.1 hv
  rw [ballot_address hcv] at hab
  exact (Finset.mem_filter.1 hc).2.2.2 (hab ▸ ha)

theorem newVotes_congr (h : Shifts s s') (S : Finset Address) : s'.newVotes S = s.newVotes S := by
  have hballot : s'.ballot = s.ballot := funext h.ballot
  rw [newVotes, newVotes, hballot]

theorem foldl_deleteCandidate_posts (s : StateDB) : Posts s (l.foldl deleteCandidate s) 0 := by
  induction l generalizing s with
  | nil => exact Posts.refl s
  | cons a _ ih => exact (deleteCandidate_posts s a).zero_trans (ih _)

theorem foldl_deleteCandidate_refundSet (s : StateDB) :
    (l.foldl deleteCandidate s).delegateRefundSet = s.delegateRefundSet := by
  induction l generalizing s with
  | nil => rfl
  | cons _ _ ih => exact ih _

/-- **The votes of the next epoch**, once the candidates are added. -/
theorem addCandidates_votes (s : StateDB) (vs : List Validator) (voteSet : EpochValidatorVoteSet) :
    (s.addCandidates rt vs voteSet).2.votes =
      voteSet.votes ++ s.newVotes (s.contenders s.candidateSet.cache vs voteSet.votes) := by
  rw [addCandidates]
  split
  · rename_i hempty
    have hnone : s.newVotes (s.contenders s.candidateSet.cache vs voteSet.votes) = [] := by
      refine List.eq_nil_iff_forall_not_mem.2 fun v hv => ?_
      obtain ⟨a, ha, -⟩ := mem_newVotes.1 hv
      rw [contenders, hempty] at ha
      exact Finset.notMem_empty a (Finset.mem_filter.1 ha).1
    rw [hnone, List.append_nil]
  · dsimp only
    generalize ht : (voteSet.votes.map (·.address)).foldl deleteCandidate
      ((vs.map (·.address)).foldl deleteCandidate
        ((rt.bannedOrder.list s.candidateSet.cache).foldl dropIfBanned s)) = t
    have hshifts : Shifts s t := by
      rw [← ht]
      refine Shifts.of_posts (((foldl_dropIfBanned_posts _ s).zero_trans
        (foldl_deleteCandidate_posts _ _)).zero_trans (foldl_deleteCandidate_posts _ _)) ?_
      rw [foldl_deleteCandidate_refundSet, foldl_deleteCandidate_refundSet]
      exact (Shifts.foldl dropIfBanned_shifts _ s).refundSet
    have hcache : t.candidateSet.cache = s.contenders s.candidateSet.cache vs voteSet.votes := by
      ext a
      rw [← ht, foldl_deleteCandidate_cache, foldl_deleteCandidate_cache, foldl_dropIfBanned_cache,
        rt.bannedOrder.mem, contenders, Finset.mem_filter]
      cases (s.accounts a).isBanned <;> simp
      tauto
    rw [foldl_candidateVote_snd, List.nil_append, sort_ballots, newVotes_congr hshifts, hcache]
    exact foldl_storeVote _ _ (append_newVotes_nodup s _ vs voteSet)

/-! ## The validators of the next epoch -/

/-- The validators that the loop leaves. -/
def survivors (s : StateDB) (vs : List Validator) : List Validator :=
  (visits s.refunded.drops 0 vs).filterMap s.refunded.outcome

/-- The votes that are counted. -/
def nextVotes (s : StateDB) (vs : List Validator) (votes : Option EpochValidatorVoteSet) :
    List EpochValidatorVote :=
  (votes.getD .new).votes ++ s.refunded.newVotes
    (s.contenders s.candidateSet.addresses (s.survivors vs) (votes.getD .new).votes)

/-- The validators of the next epoch, before they are cut at a hundred. -/
def nextMembers (s : StateDB) (vs : List Validator) (votes : Option EpochValidatorVoteSet) :
    List Validator :=
  members (s.survivors vs) (s.nextVotes vs votes)

theorem outcome_address {v : Validator × Nat} {w : Validator} (h : s.outcome v = some w) :
    w.address = v.1.address := by
  rw [outcome] at h
  split at h
  · rw [Option.some.inj h]
  · split at h
    · cases h
    · rw [← Option.some.inj h]
      rfl

theorem survivors_nodup (s : StateDB) {vs : List Validator} (hvs : (vs.map (·.address)).Nodup) :
    ((s.survivors vs).map (·.address)).Nodup := by
  have hsub : ((s.survivors vs).map (·.address)).Sublist
      ((visits s.refunded.drops 0 vs).map fun v => v.1.address) :=
    Keyed.map_filterMap_sublist (fun _ _ => outcome_address) _
  have hfst : (visits s.refunded.drops 0 vs).map (fun v => v.1.address) = vs.map (·.address) := by
    rw [← visits_map_fst s.refunded.drops 0 vs, List.map_map, visits_map_fst]
    rfl
  rw [hfst] at hsub
  exact hvs.sublist hsub

theorem nextVotes_nodup (s : StateDB) (vs : List Validator) (votes : Option EpochValidatorVoteSet) :
    ((s.nextVotes vs votes).map (·.address)).Nodup :=
  append_newVotes_nodup s.refunded _ _ _

end StateDB

/-- At most a hundred of a list of validators. -/
def Runtime.cut (rt : Runtime) (l : List Validator) : List Validator :=
  if 100 < l.length then (rt.sortValidators.sort l).take 100 else l

/-- The addresses that are knocked out by the limit. -/
def Runtime.knockout (rt : Runtime) (l : List Validator) : List RefundValidatorAmount :=
  if 100 < l.length then
    ((rt.sortValidators.sort l).drop 100).map fun k => ⟨k.address, none, true⟩
  else []

theorem updateEpochValidatorSet_eq_cut (rt : Runtime) {vs : List Validator}
    (voteSet : EpochValidatorVoteSet) (hvs : (vs.map (·.address)).Nodup) :
    updateEpochValidatorSet rt ⟨vs⟩ voteSet =
      (⟨rt.cut (members vs voteSet.votes)⟩,
        voteSet.votes.filterMap (voteRefund vs) ++ rt.knockout (members vs voteSet.votes)) := by
  rw [updateEpochValidatorSet_eq rt hvs, Runtime.cut, Runtime.knockout]
  split
  · rfl
  · rw [List.append_nil]

section Switch

variable (rt : Runtime) (vs : ValidatorSet) (votes : Option EpochValidatorVoteSet) (s : StateDB)

/-- The switch, up to the end of the loop. -/
def afterLoop : LoopState := validatorLoop s.refunded.getCandidateSet vs.validators

variable {vs} (hnodup : (vs.validators.map (·.address)).Nodup)
include hnodup

theorem afterLoop_validators : (afterLoop vs s).validators = s.survivors vs.validators :=
  (validatorLoop_swept s.refunded.getCandidateSet hnodup).2.2

theorem afterLoop_db :
    (afterLoop vs s).db = ((visited (visits s.refunded.drops 0 vs.validators)).map
      (·.address)).foldl StateDB.dropIfBanned s.refunded.getCandidateSet :=
  (validatorLoop_swept s.refunded.getCandidateSet hnodup).1

theorem afterLoop_posts : StateDB.Posts s.refunded (afterLoop vs s).db 0 := by
  have hload : StateDB.Posts s.refunded s.refunded.getCandidateSet 0 :=
    ⟨(add_zero _).symm, rfl, fun _ => rfl, Finset.Subset.refl _, fun _ h => absurd rfl h⟩
  rw [afterLoop_db s hnodup]
  exact hload.zero_trans (StateDB.foldl_dropIfBanned_posts _ _)

theorem afterLoop_shifts : StateDB.Shifts s.refunded (afterLoop vs s).db :=
  .of_posts (afterLoop_posts s hnodup)
    (StateDB.validatorLoop_shifts s.refunded.getCandidateSet vs.validators).refundSet

/-- The candidates that the loop has deleted are banned. -/
theorem contenders_afterLoop (l : List Validator) (l' : List EpochValidatorVote) :
    (afterLoop vs s).db.contenders (afterLoop vs s).db.candidateSet.cache l l' =
      s.contenders s.candidateSet.addresses l l' := by
  have hposts := afterLoop_posts s hnodup
  have hbanned (a : Address) :
      ((afterLoop vs s).db.accounts a).isBanned = (s.accounts a).isBanned := hposts.isBanned a
  ext a
  rw [StateDB.contenders, StateDB.contenders, Finset.mem_filter, Finset.mem_filter, hbanned,
    afterLoop_db s hnodup, StateDB.foldl_dropIfBanned_cache]
  show (a ∈ s.candidateSet.addresses ∧ ¬ ((s.accounts a).isBanned = true ∧ _)) ∧ _ ↔ _
  cases (s.accounts a).isBanned <;> simp

theorem addCandidates_nextVotes :
    ((afterLoop vs s).db.addCandidates rt (s.survivors vs.validators) (votes.getD .new)).2.votes =
      s.nextVotes vs.validators votes := by
  rw [StateDB.addCandidates_votes, contenders_afterLoop s hnodup,
    StateDB.newVotes_congr (afterLoop_shifts s hnodup), StateDB.nextVotes]

/-- **The switch**, with the set of the next epoch in closed form. -/
theorem enterNewEpoch_eq :
    enterNewEpoch rt vs votes s =
      (((afterLoop vs s).refunds ++ ((s.nextVotes vs.validators votes).filterMap
          (voteRefund (s.survivors vs.validators)) ++
          rt.knockout (s.nextMembers vs.validators votes))).foldl (StateDB.payRefund rt)
        (((rt.cut (s.nextMembers vs.validators votes)).map (·.address)).foldl (StateDB.depositProxied rt)
          ((afterLoop vs s).db.addCandidates rt (s.survivors vs.validators) (votes.getD .new)).1),
        ⟨rt.cut (s.nextMembers vs.validators votes)⟩) := by
  have hvotes := addCandidates_nextVotes rt votes s hnodup
  have hupdate := updateEpochValidatorSet_eq_cut rt
    ((afterLoop vs s).db.addCandidates rt (s.survivors vs.validators) (votes.getD .new)).2
    (s.survivors_nodup hnodup)
  rw [hvotes] at hupdate
  rw [enterNewEpoch, StateDB.refundDelegates_eq]
  dsimp only
  rw [← afterLoop, afterLoop_validators s hnodup, hupdate]
  rfl

/-- **The validators of the next epoch.** -/
theorem enterNewEpoch_validators :
    (enterNewEpoch rt vs votes s).2 = ⟨rt.cut (s.nextMembers vs.validators votes)⟩ := by
  rw [enterNewEpoch_eq rt votes s hnodup]

end Switch

end NeatPoS
