import NeatPoS.Staking.NonNegative

/-!
# Voting power and stake

A validator of the next epoch has its power from one of three places: the stake it has in the state,
a vote, or, if it is a candidate without a vote, what is delegated to it.  A vote is stored when
somebody delegates; nothing changes it when a delegation is taken back, nor when the candidate
unregisters or is banned.  So the power of a vote may be that of coins that are long gone.  A
validator that the loop passes over keeps the power it had an epoch ago.

`Backed` says what a switch needs, in terms of the state before it: the votes, and the powers that
are kept, are at most what will be staked when the pending refunds are paid.  `votingPower_le_stake`
says that it is enough, in every run.  The power of a candidate without a vote needs nothing; there
the argument is that the deposit of a validator is not negative, because a state where one is cannot
be written (`Encoded`).
-/

set_option autoImplicit false

namespace NeatPoS

open DFinsupp Ledger

namespace StateDB

variable {rt : Runtime} {bc : ChainView} {tx : StakingTx} {s s' : StateDB}
  {ops : List UpdateNextEpochOp}

/-! ## What is written is not negative -/

/-- The fields of the accounts can be written. -/
def Encoded (s : StateDB) : Prop := ∀ k : Slot, k ∈ Slot.ofAccount k.owner → 0 ≤ s.amounts k

/-- The fields of the accounts that are not going to be written have been written before. -/
def Pending (s : StateDB) : Prop :=
  ∀ k : Slot, k ∈ Slot.ofAccount k.owner → k.owner ∉ s.dirty → 0 ≤ s.amounts k

theorem Encoded.pending (h : Encoded s) (ht : Touches s s') : Pending s' := by
  intro k hk hclean
  by_contra hneg
  refine hclean (ht.dirty_of_ne k fun heq => hneg ?_)
  rw [heq]
  exact h k hk

/-- `Finalise` panics on a field that is negative. -/
theorem Pending.finalise (h : Pending s) (hfin : s.finalise = .ok s') : Encoded s' := by
  intro k hk
  obtain ⟨rfl, hencodable⟩ := finalise_ok hfin
  rw [finalised_amounts]
  split
  · rename_i hkept
    by_cases hdirty : k.owner ∈ s.dirty
    · have hempty : s.empty k.owner = false := by simpa [deletes, hdirty] using hkept
      have henc := hencodable k.owner hdirty hempty
      simp only [unencodable, List.any_eq_false, decide_eq_true_eq, not_lt] at henc
      exact henc k hk
    · exact h k hk hdirty
  · exact le_refl 0

theorem Encoded.applyTransactionEx (h : Encoded s)
    (htx : applyTransactionEx rt bc tx s = .ok (s', ops)) : Encoded s' := by
  obtain ⟨-, -, t, hcb, hfinish⟩ := applyTransactionEx_ok htx
  obtain ⟨-, t', hfin, rfl⟩ := finishTransaction_ok hfinish
  have htouches : Touches s
    (t.addBalance tx.sender ((tx.gasLimit - requiredGas) * tx.gasPrice : Nat)) :=
    ((Touches.of_posts (sub_posts s _ _)).trans (applyCb_sameBooks hcb).toTouches).trans
      (Touches.of_posts (add_posts t _ _))
  have hencoded := (h.pending htouches).finalise hfin
  intro k hk
  rw [(setNonce_posts t' tx.sender _).apply, DFinsupp.zero_apply, add_zero]
  exact hencoded k hk

/-! ## Due refunds -/

/-- The refunds that are due are all that are pending. -/
theorem Sound.dueRefunds_eq (hs : Sound s) (a : Address) :
    s.dueRefunds a = s.getTotalPendingRefundBalance a := by
  have hpending : s.refunded.getTotalPendingRefundBalance a = 0 := by
    have hlaw : weigh (Law.pendingRefund a).weight s.refunded.amounts = 0 := by
      rw [← refundDelegates_eq s .sorted, (refundDelegates_sameBooks .sorted s).law]
      exact hs.law _ rfl
    have hentry (u : Address) : s.refunded.amounts (.pendingRefund a u) = 0 := by
      have he := hs.refundDelegates_entry .sorted a u
      rw [refundDelegates_eq, getAccountProxiedBalance, AccountProxiedBalance.mk.injEq] at he
      exact he.2.2
    have hsum : s.refunded.sumOfEntries (.pendingRefund a) = 0 := by
      rw [sumOfEntries, ← map_zero (weigh fun k => if (Law.pendingRefund a).sums k then (1 : Int)
        else 0)]
      refine weigh_congr fun k hk => ?_
      cases k <;> simp [Law.sums] at hk
      subst hk
      exact hentry _
    rw [getTotalPendingRefundBalance]
    exact (eq_sumOfEntries hlaw).trans hsum
  have hnet := refunded_netProxied s a
  rw [netProxied, netProxied, refunded_getTotalProxiedBalance,
    refunded_getTotalDepositProxiedBalance, hpending] at hnet
  omega

/-! ## The switch -/

/-- **What a switch needs**: when the refunds are paid, the stake of an address is at least its
vote, and at least the power that it keeps because the loop passes it over.  The own deposit of a
validator that is found banned does not count, since it is paid out. -/
structure Backed (s : StateDB) (vs : List Validator) (votes : Option EpochValidatorVoteSet) :
    Prop where
  kept : ∀ v ∈ passedOver s.leaves vs, (∀ key, vote votes v.address ≠ some (0, key)) →
    v.votingPower ≤ s.stake v.address - s.dueRefunds v.address
  voted : ∀ a x key, vote votes a = some (x, key) → (x = 0 → ¬ s.Stays vs a) →
    x ≤ s.stake a - s.dueRefunds a
  votedOut : ∀ a x key, vote votes a = some (x, key) → s.VotedOut vs a →
    x ≤ s.stake a - s.dueRefunds a - s.getDepositBalance a

section Switch

variable (rt) {vs : ValidatorSet} {votes : Option EpochValidatorVoteSet} {a : Address}
  (hvs : (vs.validators.map (·.address)).Nodup)
include hvs

theorem not_mem_knockout {v : Validator} (hv : v ∈ rt.cut (s.nextMembers vs.validators votes)) :
    v.address ∉ (rt.knockout (s.nextMembers vs.validators votes)).map (·.address) := by
  have hnodup := s.nextMembers_nodup vs.validators votes hvs
  generalize s.nextMembers vs.validators votes = l at hv hnodup
  rw [Runtime.cut] at hv
  rw [Runtime.knockout]
  split at hv
  · rename_i hlen
    rw [if_pos hlen, List.map_map]
    rw [← ((rt.sortValidators.perm l).map _).nodup_iff, ← List.take_append_drop 100
      (rt.sortValidators.sort l), List.map_append, List.nodup_append] at hnodup
    intro hmem
    exact hnodup.2.2 _ (List.mem_map_of_mem hv) _ hmem rfl
  · rename_i hlen
    rw [if_neg hlen]
    exact List.not_mem_nil

/-- The stake of a validator of the next epoch. -/
theorem enterNewEpoch_stake (ha : a ∉ (rt.knockout (s.nextMembers vs.validators votes)).map
    (·.address)) : (enterNewEpoch rt vs votes s).1.stake a = s.stake a - s.dueRefunds a -
      (if a ∈ (afterLoop vs s).refunds.map (·.address) then s.getDepositBalance a else 0) -
      refundOf (s.survivors vs.validators) (s.nextVotes vs.validators votes) a := by
  have htotal := (enterNewEpoch_shifts rt vs votes s).total a
  have hdeposit := enterNewEpoch_deposit rt votes s hvs a
  rw [refundDelegates_eq, refunded_getTotalProxiedBalance, refunded_getTotalDepositProxiedBalance]
    at htotal
  rw [if_neg ha] at hdeposit
  rw [stake, stake, hdeposit]
  split <;> omega

theorem not_mem_refunds_of_remains {p : Int} (h : s.Remains vs.validators a p) :
    a ∉ (afterLoop vs s).refunds.map (·.address) := by
  intro hmem
  obtain ⟨_, hr, rfl⟩ := List.mem_map.1 hmem
  exact (mem_afterLoop_refunds s hvs hr).2.not_remains hvs p h

/-- **The power of a validator of the next epoch is backed.** -/
theorem Backed.enterNewEpoch (hb : s.Backed vs.validators votes) (hs : Sound s)
    (hdeposit : ∀ a, 0 ≤ s.getDepositBalance a) {v : Validator}
    (hv : v ∈ (enterNewEpoch rt vs votes s).2.validators) :
    v.votingPower ≤ (enterNewEpoch rt vs votes s).1.stake v.address := by
  rw [enterNewEpoch_validators rt votes s hvs] at hv
  have hcut := not_mem_knockout rt hvs hv
  have hearns := (exists_mem_nextMembers_iff hvs).1 ⟨v, mem_of_mem_cut hv, rfl, rfl⟩
  rw [enterNewEpoch_stake rt hvs hcut]
  generalize v.address = a, v.votingPower = x at hearns
  cases hearns with
  | @kept v hpassed hvote =>
    have hremains := Remains.passed (s := s) hpassed
    have hle := hb.kept v hpassed fun key h => by rw [hvote] at h; cases h
    rw [if_neg (not_mem_refunds_of_remains hvs hremains),
      refundOf_of_vote_eq_none hvs hremains hvote]
    omega
  | @staked v hmem hvisited hstays hvote =>
    have hremains := Remains.staked (s := s) hmem hvisited hstays
    rw [if_neg (not_mem_refunds_of_remains hvs hremains),
      refundOf_of_vote_eq_none hvs hremains hvote]
    omega
  | @voted _ _ key hvote hzero =>
    have hle := hb.voted a x key hvote hzero
    by_cases hremains : ∃ p, s.Remains vs.validators a p
    · obtain ⟨p, hp⟩ := hremains
      have hx : x ≠ 0 := fun h => hzero h (hp.stays hvs)
      rw [if_neg (not_mem_refunds_of_remains hvs hp), refundOf_of_remains hvs hp hvote, if_neg hx]
      split
      · rename_i hlt
        have hpower : p ≤ s.stake a - s.dueRefunds a := by
          cases hp with
          | passed hpassed =>
            refine hb.kept _ hpassed fun key' h => hx ?_
            rw [hvote] at h
            exact congrArg Prod.fst (Option.some.inj h)
          | staked => exact le_refl _
        omega
      · omega
    · rw [refundOf_of_not_remains hvs (not_exists.1 hremains)]
      split
      · rename_i hmem
        obtain ⟨r, hr, rfl⟩ := List.mem_map.1 hmem
        have := hb.votedOut _ x key hvote (mem_afterLoop_refunds s hvs hr).2
        omega
      · omega
  | @elected _ hcontends =>
    have hloop : a ∉ (afterLoop vs s).refunds.map (·.address) := by
      intro hmem
      obtain ⟨r, hr, rfl⟩ := List.mem_map.1 hmem
      obtain ⟨-, -, -, -, hbanned⟩ := (mem_afterLoop_refunds s hvs hr).2
      rw [hcontends.2.1] at hbanned
      cases hbanned
    have hnot (p : Int) (hp : s.Remains vs.validators a p) : False := hcontends.2.2.1 (hp.stays hvs)
    have hdue := hs.dueRefunds_eq a
    have hown := hdeposit a
    rw [if_neg hloop, refundOf_of_not_remains hvs hnot, stake, netProxied]
    omega

end Switch

section Congr

variable {vs : List Validator} {votes : Option EpochValidatorVoteSet}
  (h : Posts s s' 0) (hset : s'.delegateRefundSet = s.delegateRefundSet)
include h hset

theorem Backed.congr (hb : s.Backed vs votes) : s'.Backed vs votes := by
  have hleaves := leaves_congr h hset
  have hdeposit (a : Address) : s'.getDepositBalance a = s.getDepositBalance a :=
    (Holds.of_posts_zero h).getDepositBalance a
  refine ⟨fun v hv hvote => ?_, fun a x key hvote hzero => ?_, fun a x key hvote hout => ?_⟩
  · rw [h.stake, dueRefunds_congr h hset]
    exact hb.kept v (hleaves ▸ hv) hvote
  · rw [h.stake, dueRefunds_congr h hset]
    refine hb.voted a x key hvote fun hx hstays => hzero hx ?_
    rw [Stays, hleaves]
    exact hstays
  · rw [h.stake, dueRefunds_congr h hset, hdeposit]
    refine hb.votedOut a x key hvote ?_
    rw [VotedOut, hleaves, h.isBanned] at hout
    exact hout

end Congr

end StateDB

namespace Chain

variable {checkConsensusPubKey : Address → Bytes → Bytes → Bool} {rt : Runtime} {c c' : Chain}

/-! ## Runs -/

/-- Every switch is backed. -/
def KeepsBacked (c : Chain) : Action → Prop
  | .finalize _ => c.height + 1 = c.epoch.endBlock → ∀ votes, c.nextEpoch.map (·.2) = some votes →
      c.db.Backed c.epoch.validators.validators votes
  | _ => True

/-- The fields of the accounts have been written, or are about to be. -/
structure Written (c : Chain) : Prop where
  applying : c.phase = .applying → c.db.Encoded
  finalized : ∀ newValidators, c.phase = .finalized newValidators → c.db.Pending

theorem Written.of_applying (hphase : c.phase = .applying) (h : c.db.Encoded) : c.Written := by
  refine ⟨fun _ => h, fun newValidators hfin => ?_⟩
  rw [hphase] at hfin
  cases hfin

theorem Written.of_finalized {newValidators : Option ValidatorSet}
    (hphase : c.phase = .finalized newValidators) (h : c.db.Pending) : c.Written := by
  refine ⟨fun happ => ?_, fun _ _ => h⟩
  rw [hphase] at happ
  cases happ

theorem DbStep.written {a : Action} (hs : c.Sound) (hw : c.Written)
    (h : DbStep checkConsensusPubKey rt c c' a) : c'.Written := by
  cases h with
  | tx _ _ hphase hphase' h =>
    exact .of_applying hphase' ((hw.applying hphase).applyTransactionEx h)
  | reward a d x hphase hphase' h =>
    refine .of_applying hphase' fun k hk => ?_
    have hold := hw.applying hphase k hk
    rw [h, (StateDB.addRewardBalanceByDelegateAddress_posts c.db a d x).apply]
    simp only [StateDB.rewardPosting, DFinsupp.add_apply, single_apply]
    split <;> split <;> simp <;> omega
  | nextEpoch _ hphase h =>
    refine ⟨fun happ => ?_, fun newValidators hfin => ?_⟩
    · rw [h]
      exact hw.applying (hphase ▸ happ)
    · rw [h]
      exact hw.finalized newValidators (hphase ▸ hfin)
  | stay _ hphase hphase' h =>
    refine .of_finalized hphase' fun k hk _ => ?_
    rw [updateBannedState_amounts h]
    exact hw.applying hphase k hk
  | enter _ s votes hphase _ _ hban h hphase' =>
    have hencoded : s.Encoded := by
      intro k hk
      rw [updateBannedState_amounts hban]
      exact hw.applying hphase k hk
    refine .of_finalized hphase' ?_
    rw [h]
    exact hencoded.pending (StateDB.enterNewEpoch_sameBooks rt c.epoch.validators votes s).toTouches
  | write newValidators hphase hphase' h =>
    obtain ⟨_, hfin, ht⟩ := StateDB.commit_ok h
    have hencoded := (hw.finalized newValidators hphase).finalise hfin
    refine .of_applying hphase' fun k hk => ?_
    rw [ht, ((hs.finalized newValidators hphase).sound hfin).reload_amounts]
    exact hencoded k hk

theorem genesis_written (alloc : GenesisAlloc) (epoch : Epoch)
    (voteSet : Option EpochValidatorVoteSet) : (genesis alloc epoch voteSet).Written := by
  refine .of_applying rfl fun k _ => ?_
  show 0 ≤ alloc.toState.amounts k
  rw [GenesisAlloc.toState, (GenesisAlloc.written_sound alloc).reload_amounts]
  exact (GenesisAlloc.allocated_fresh alloc).nonneg k

/-- **Voting power is backed by stake.**  In any run in which the switches find votes and powers
that are backed, each validator of a set that a switch returns has at most the power of its stake in
the state that the switch leaves. -/
theorem votingPower_le_stake {alloc : GenesisAlloc} {epoch : Epoch}
    (voteSet : Option EpochValidatorVoteSet)
    (hvs : (epoch.validators.validators.map (·.address)).Nodup)
    (h : Reaches checkConsensusPubKey KeepsBacked (genesis alloc epoch voteSet) c)
    {newValidators : ValidatorSet} (hphase : c.phase = .finalized (some newValidators))
    {v : Validator}
    (hv : v ∈ newValidators.validators) :
    v.votingPower ≤ c.db.getDepositBalance v.address +
      c.db.getTotalDepositProxiedBalance v.address + c.db.getTotalProxiedBalance v.address := by
  have hinv : c.Sound ∧ c.Distinct ∧ c.Written ∧ ∀ newValidators,
      c.phase = .finalized (some newValidators) →
        ∀ v ∈ newValidators.validators, v.votingPower ≤ c.db.stake v.address := by
    clear hphase hv
    induction h with
    | start =>
      refine ⟨genesis_sound alloc epoch voteSet, ⟨hvs, fun _ hphase => ?_⟩,
        genesis_written alloc epoch voteSet, fun _ hphase => ?_⟩ <;> cases hphase
    | @move c c' rt a _ hok hstep ih =>
      obtain ⟨hs, hd, hw, hold⟩ := ih
      have hdb := step_ok hstep
      refine ⟨hdb.sound hs, step_distinct hd hstep, hdb.written hs hw,
        fun newValidators hphase' => ?_⟩
      cases hdb with
      | tx _ _ _ happ | reward _ _ _ _ happ | write _ _ happ => rw [happ] at hphase'; cases hphase'
      | nextEpoch _ hsame hdb =>
        rw [hdb]
        exact hold newValidators (hsame ▸ hphase')
      | stay _ _ hnone => rw [hnone] at hphase'; cases hphase'
      | enter _ s votes hphase hend hvotes hban hdb hnew =>
        obtain ⟨hposts, hset⟩ := updateBannedState_of_end hend hban
        have hbacked := (hok hend votes hvotes).congr hposts hset
        have hdeposit (a : Address) : 0 ≤ s.getDepositBalance a := by
          rw [StateDB.getDepositBalance, updateBannedState_amounts hban]
          exact hw.applying hphase _ (by simp [Slot.ofAccount, Slot.owner])
        rw [hnew] at hphase'
        have hset' := Option.some.inj (Phase.finalized.inj hphase')
        intro v hv
        rw [← hset'] at hv
        rw [hdb]
        exact hbacked.enterNewEpoch rt hd.validators
          ((hs.applying hphase).still (updateBannedState_still hban)) hdeposit hv
  have hle := hinv.2.2.2 newValidators hphase v hv
  rw [StateDB.stake] at hle
  omega

/-! ## A vote that outlives its delegation -/

namespace StaleVote

/-- A candidate and a user. -/
def alloc : GenesisAlloc :=
  [([1], ⟨2000000000000000000, 0, false, 0, 0, [], false, 0⟩),
    ([2], ⟨1000000, 0, false, 0, 0, [], false, 0⟩)]

/-- Two empty blocks, and a third one in which the candidate registers and the user delegates five
coins to it. -/
def delegates : List Action :=
  [.finalize none, .write, .finalize none, .write, .nextEpoch firstEpoch,
    .tx ⟨[1], 0, 1000000000000000000, 21000, 1, .register [7] [] 0⟩,
    .tx ⟨[2], 0, 5, 21000, 1, .delegate [1]⟩]

/-- The third block is written, and the fourth one is finalized. -/
def endsEpoch : List Action := [.finalize none, .write, .finalize none]

/-- The condition of a switch, for the votes and validators there are. -/
def test (c : Chain) : Action → Bool
  | .finalize _ => match c.nextEpoch with
    | none => true
    | some next =>
      (passedOver c.db.leaves c.epoch.validators.validators).isEmpty &&
        (next.2.getD .new).votes.all fun w =>
          decide ((w.amount.getD 0) ≤ c.db.stake w.address - c.db.dueRefunds w.address) &&
            decide (c.db.getDepositBalance w.address = 0)
  | _ => true

theorem keepsBacked_of_test (c : Chain) (a : Action) (h : test c a = true) : KeepsBacked c a := by
  cases a with
  | finalize =>
    intro _ votes hvotes
    obtain ⟨next, hnext, rfl⟩ := Option.map_eq_some_iff.1 hvotes
    simp only [test, hnext, Bool.and_eq_true, List.isEmpty_iff, List.all_eq_true,
      decide_eq_true_eq] at h
    have hvote (a : Address) (x : Int) (key : Bytes)
        (hvote : StateDB.vote next.2 a = some (x, key)) :
        x ≤ c.db.stake a - c.db.dueRefunds a ∧ c.db.getDepositBalance a = 0 := by
      obtain ⟨w, hw, rfl, hrevealed⟩ := exists_of_voteOf hvote
      have hx : w.amount.getD 0 = x := by
        rw [EpochValidatorVote.revealed] at hrevealed
        split at hrevealed
        · rename_i amount pubKey hamount _
          split at hrevealed
          · cases hrevealed
          · rw [hamount]
            exact congrArg Prod.fst (Option.some.inj hrevealed)
        · cases hrevealed
      rw [← hx]
      exact h.2 w hw
    refine ⟨fun v hv _ => ?_, fun a x key hv _ => (hvote a x key hv).1, fun a x key hv _ => ?_⟩
    · rw [h.1] at hv
      cases hv
    · have := hvote a x key hv
      omega
  | _ => trivial

theorem exists_of_newValidators {c : Chain} {P : Validator → Prop} [DecidablePred P]
    (h : c.phase.newValidators.any
      (fun newValidators => newValidators.validators.any fun v => decide (P v)) = true) :
    ∃ newValidators, c.phase = .finalized (some newValidators) ∧
      ∃ v ∈ newValidators.validators, P v := by
  rw [Option.any_eq_true] at h
  obtain ⟨newValidators, hphase, hany⟩ := h
  obtain ⟨v, hv, hP⟩ := List.any_eq_true.1 hany
  rw [Phase.newValidators.eq_def] at hphase
  split at hphase
  · cases hphase
  · rename_i heq
    exact ⟨newValidators, hphase ▸ heq, v, hv, of_decide_eq_true hP⟩

theorem votingPower_le_stake_delegates :
    ∃ c, Reaches (fun _ _ _ => true) KeepsBacked (genesis alloc shortEpoch none) c ∧
      ∃ newValidators, c.phase = .finalized (some newValidators) ∧
        ∃ v ∈ newValidators.validators, v.votingPower = 1000000000000000005 ∧
          v.votingPower ≤ c.db.getDepositBalance v.address +
            c.db.getTotalDepositProxiedBalance v.address +
              c.db.getTotalProxiedBalance v.address := by
  have hvs : (shortEpoch.validators.validators.map (·.address)).Nodup := by decide
  obtain ⟨c, hc, htest⟩ : ∃ c,
      Reaches (fun _ _ _ => true) KeepsBacked (genesis alloc shortEpoch none) c ∧
      c.phase.newValidators.any (fun newValidators =>
        newValidators.validators.any fun v => decide (v.votingPower = 1000000000000000005)) :=
    exists_of_runsIf keepsBacked_of_test .sorted (delegates ++ endsEpoch) (by decide +kernel)
  obtain ⟨newValidators, hphase, v, hv, hpower⟩ := exists_of_newValidators htest
  exact ⟨c, hc, newValidators, hphase, v, hv, hpower, votingPower_le_stake none hvs hc hphase hv⟩

/-- The user takes the five coins back in the same block and has them at once.  The vote still
counts them, and the candidate becomes a validator with their power. -/
theorem votingPower_gt_stake :
    ∃ c, Reaches (fun _ _ _ => true) (fun _ _ => True) (genesis alloc shortEpoch none) c ∧
      ∃ newValidators, c.phase = .finalized (some newValidators) ∧
        ∃ v ∈ newValidators.validators, v.votingPower = 1000000000000000005 ∧
          c.db.getDepositBalance v.address + c.db.getTotalDepositProxiedBalance v.address +
            c.db.getTotalProxiedBalance v.address = 1000000000000000000 := by
  obtain ⟨c, hc, htest⟩ : ∃ c, Reaches (fun _ _ _ => true) (fun _ _ => True)
      (genesis alloc shortEpoch none) c ∧ c.phase.newValidators.any (fun newValidators =>
        newValidators.validators.any fun v => decide (v.votingPower = 1000000000000000005 ∧
          c.db.getDepositBalance v.address + c.db.getTotalDepositProxiedBalance v.address +
            c.db.getTotalProxiedBalance v.address = 1000000000000000000)) = true :=
    exists_of_run .sorted (delegates ++ [.tx ⟨[2], 1, 0, 21000, 1, .unDelegate [1] 5⟩] ++ endsEpoch)
      (by decide +kernel)
  exact ⟨c, hc, exists_of_newValidators htest⟩

end StaleVote

end Chain

end NeatPoS
