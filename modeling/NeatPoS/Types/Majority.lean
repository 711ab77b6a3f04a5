import NeatPoS.Types.Tally

/-!
# The majority of a vote set

`maj23` is set once, when the votes for a block reach the threshold, and from then on a vote for
that block replaces whatever its validator has voted before.  The file follows it through a run.

* `MajorityHeld`: once there is a majority, its block has reached the threshold, and the canonical
  vote of everybody counted there is for it.
* `Unreached`: as long as there is none, no block has reached the threshold.  This needs a positive
  threshold, since only a vote that takes a block from below the threshold to it is noticed.

`tallyLaw_iff` puts the two together with `Tallied`.  They describe every run, except in the
sixty-one rounds so low that the threshold wraps round to a number that is not positive: there every
block has reached it from the start, and no majority is ever found.

The other result, `recorded_iff`, is about a law that the source documents and does not keep: a
vote that replaces the canonical one is stored by its validator before it is decided whether to
count it for its block.
-/

set_option autoImplicit false

namespace NeatPoS

namespace VoteSet

open Quorum

variable {lib : Neatlib} {vs vs' : VoteSet} {vote : Vote} {val : Validator}

/-! ## Once there is a majority -/

/-- The block of the majority has reached the threshold, and who is counted for it has a canonical
vote for it. -/
def MajorityHeld (lib : Neatlib) (vs : VoteSet) : Prop :=
  ∀ b, vs.maj23 = some b → ∃ bv, vs.votesByBlock (b.key lib) = some bv ∧ vs.threshold ≤ bv.sum ∧
    ∀ i v, bv.votes.getD i none = some v →
      ∃ w, vs.canonical i = some w ∧ w.blockID.key lib = b.key lib

/-- A canonical vote for the majority is replaced by votes for the majority only. -/
theorem exists_canonical_stored_key {b : BlockID} {i : Nat} (hmaj : vs.maj23 = some b)
    (hi : vote.validatorIndex < vs.votes.length) (p : Int)
    (h : ∃ w, vs.canonical i = some w ∧ w.blockID.key lib = b.key lib) :
    ∃ w, (vs.stored lib vote p).canonical i = some w ∧ w.blockID.key lib = b.key lib := by
  obtain ⟨w, hw, hkey⟩ := h
  rw [canonical_stored hi]
  split
  · rename_i hst
    obtain ⟨rfl, hst⟩ := hst
    rw [stores, hw, hmaj] at hst
    have hsame : b.key lib = vote.blockID.key lib := by simpa using hst
    exact ⟨vote, rfl, hsame.symm⟩
  · exact ⟨w, hw, hkey⟩

theorem MajorityHeld.stored (h : vs.MajorityHeld lib)
    (hi : vote.validatorIndex < vs.votes.length) (p : Int) :
    (vs.stored lib vote p).MajorityHeld lib := by
  intro b hb
  rw [stored_maj23] at hb
  obtain ⟨bv, hbv, hthr, hcan⟩ := h b hb
  exact ⟨bv, hbv, hthr, fun i v hv ↦ exists_canonical_stored_key hb hi p (hcan i v hv)⟩

theorem tracked_eq {key : Bytes} {bv : BlockVotes} (h : vs.votesByBlock key = some bv) :
    vs.tracked key = bv := by
  rw [tracked, h, Option.getD_some]

/-- A vote that is counted when there is a majority already. -/
theorem MajorityHeld.counted_of_some (h : vs.MajorityHeld lib) (ht : vs.Tallied lib)
    (ha : vs.Accepts lib vote val) (hpow : 0 ≤ val.votingPower) {b : BlockID}
    (hmaj : vs.maj23 = some b) : (vs.counted lib vote val.votingPower).MajorityHeld lib := by
  have hi := ht.lt_length ha
  have hcross : ¬ vs.Crosses lib vote val.votingPower := fun hc ↦ by simpa [hmaj] using hc.2.2
  intro b' hb'
  rw [counted_maj23_of_not_crosses hcross, hmaj] at hb'
  cases hb'
  obtain ⟨bv, hbv, hthr, hcan⟩ := h b hmaj
  simp only [counted_canonical_of_not_crosses hcross, counted_votesByBlock]
  by_cases hkey : b.key lib = vote.blockID.key lib
  · refine ⟨vs.withVote lib vote val.votingPower, ?_, ?_, ?_⟩
    · rw [hkey, Function.update_self]
    · rw [ha.withVote_eq, ← hkey, tracked_eq hbv]
      exact le_add_of_le_of_nonneg hthr hpow
    intro i v hv
    have htracked := ht.tracked (vote.blockID.key lib)
    rw [ha.withVote_eq, getD_set_some (ha.lt_size.trans_eq htracked.length.symm)] at hv
    split at hv
    · -- the vote itself has just become canonical
      rename_i hidx
      have hst : vs.stores lib vote = true := by
        rw [stores, hmaj]
        simp [hkey]
      exact ⟨vote, (canonical_stored hi _ i).trans (if_pos ⟨hidx, hst⟩), hkey.symm⟩
    · rw [← hkey, tracked_eq hbv] at hv
      exact exists_canonical_stored_key hmaj hi _ (hcan i v hv)
  · refine ⟨bv, ?_, hthr, fun i v hv ↦ exists_canonical_stored_key hmaj hi _ (hcan i v hv)⟩
    rw [Function.update_of_ne hkey, hbv]

/-- The vote that makes the majority. -/
theorem majorityHeld_of_crosses (ht : vs.Tallied lib) (ha : vs.Accepts lib vote val)
    (hcross : vs.Crosses lib vote val.votingPower) :
    (vs.counted lib vote val.votingPower).MajorityHeld lib := by
  intro b hb
  rw [counted_maj23_of_crosses hcross] at hb
  cases hb
  have hblock := ht.withVote ha
  refine ⟨_, Function.update_self .., hcross.2.1, fun i v hv ↦ ⟨v, ?_, (hblock.votes i v hv).1⟩⟩
  have hlen : (vs.withVote lib vote val.votingPower).votes.length =
      (vs.stored lib vote val.votingPower).votes.length :=
    hblock.length.trans (ht.stored ha).length.symm
  rw [canonical, counted_votes_of_crosses hcross, getD_copyVotes hlen, hv, Option.some_or]

theorem MajorityHeld.afterVote (h : vs.MajorityHeld lib) (ht : vs.Tallied lib)
    (ha : vs.Accepts lib vote val) (hpow : 0 ≤ val.votingPower) :
    (vs.afterVote lib vote val.votingPower).MajorityHeld lib := by
  rw [VoteSet.afterVote]
  split
  · exact h.stored (ht.lt_length ha) _
  by_cases hcross : vs.Crosses lib vote val.votingPower
  · exact majorityHeld_of_crosses ht ha hcross
  · rcases hmaj : vs.maj23 with _ | b
    · intro b hb
      simp [counted_maj23_of_not_crosses hcross, hmaj] at hb
    · exact h.counted_of_some ht ha hpow hmaj

/-- The votes for a block after a peer has announced a majority. -/
theorem votesByBlock_setPeerMaj23 (peerID : String) (blockID : BlockID) {key : Bytes}
    {bv : BlockVotes} (h : vs.votesByBlock key = some bv) :
    ∃ bv', (vs.setPeerMaj23 lib peerID blockID).votesByBlock key = some bv' ∧
      bv'.votes = bv.votes ∧ bv'.sum = bv.sum ∧ bv'.bitArray = bv.bitArray := by
  rw [setPeerMaj23]
  split
  · exact ⟨bv, h, rfl, rfl, rfl⟩
  by_cases hkey : key = blockID.key lib
  · refine ⟨{ bv with peerMaj23 := true }, ?_, rfl, rfl, rfl⟩
    subst hkey
    simp only [h, Function.update_self]
  · exact ⟨bv, (Function.update_of_ne hkey ..).trans h, rfl, rfl, rfl⟩

/-- An announcement is about `votesByBlock` only. -/
theorem setPeerMaj23_fields (lib : Neatlib) (vs : VoteSet) (peerID : String) (blockID : BlockID) :
    (vs.setPeerMaj23 lib peerID blockID).maj23 = vs.maj23 ∧
      (vs.setPeerMaj23 lib peerID blockID).votes = vs.votes ∧
      (vs.setPeerMaj23 lib peerID blockID).threshold = vs.threshold := by
  rw [setPeerMaj23]
  split
  · exact ⟨rfl, rfl, rfl⟩
  · exact ⟨rfl, rfl, rfl⟩

theorem MajorityHeld.setPeerMaj23 (h : vs.MajorityHeld lib) (peerID : String)
    (blockID : BlockID) : (vs.setPeerMaj23 lib peerID blockID).MajorityHeld lib := by
  obtain ⟨hmaj, hvotes, hthr⟩ := setPeerMaj23_fields lib vs peerID blockID
  intro b hb
  obtain ⟨bv, hbv, hreach, hcan⟩ := h b (hmaj.symm.trans hb)
  obtain ⟨bv', hbv', hv, hs, -⟩ := votesByBlock_setPeerMaj23 peerID blockID hbv
  refine ⟨bv', hbv', by rwa [hthr, hs], ?_⟩
  rw [hv]
  simpa only [canonical, hvotes] using hcan

/-! ## As long as there is none -/

/-- Without a majority, no block has reached the threshold. -/
def Unreached (vs : VoteSet) : Prop :=
  vs.maj23 = none → ∀ key bv, vs.votesByBlock key = some bv → bv.sum < vs.threshold

theorem Unreached.tracked (h : vs.Unreached) (hpos : 0 < vs.threshold) (hmaj : vs.maj23 = none)
    (key : Bytes) : (vs.tracked key).sum < vs.threshold := by
  rw [VoteSet.tracked]
  rcases hbv : vs.votesByBlock key with _ | bv
  · exact hpos
  · exact h hmaj key bv hbv

theorem Unreached.afterVote (h : vs.Unreached) (hpos : 0 < vs.threshold) (p : Int) :
    (vs.afterVote lib vote p).Unreached := by
  rw [VoteSet.afterVote]
  split
  · exact h
  intro hmaj key bv hbv
  have hcross : ¬ vs.Crosses lib vote p := by
    intro hc
    simp [counted_maj23_of_crosses hc] at hmaj
  have hnone : vs.maj23 = none := (counted_maj23_of_not_crosses hcross).symm.trans hmaj
  rcases update_eq_some hbv with ⟨-, rfl⟩ | ⟨-, hbv⟩
  · -- a block that had not reached it before would have crossed it
    by_contra hge
    exact hcross ⟨h.tracked hpos hnone _, Int.not_lt.1 hge, hnone⟩
  · exact h hnone key bv hbv

theorem Unreached.setPeerMaj23 (h : vs.Unreached) (hpos : 0 < vs.threshold) (peerID : String)
    (blockID : BlockID) : (vs.setPeerMaj23 lib peerID blockID).Unreached := by
  rw [VoteSet.setPeerMaj23]
  split
  · exact h
  intro hmaj key bv hbv
  rcases update_eq_some hbv with ⟨rfl, rfl⟩ | ⟨-, hbv⟩
  · rcases hold : vs.votesByBlock (blockID.key lib) with _ | old
    · exact hpos
    · exact h hmaj _ old hold
  · exact h hmaj key bv hbv

/-! ## Calls -/

/-- A majority stays. -/
theorem maj23_afterVote {b : BlockID} (h : vs.maj23 = some b) (p : Int) :
    (vs.afterVote lib vote p).maj23 = some b := by
  rw [afterVote]
  split
  · exact h
  · have hcross : ¬ vs.Crosses lib vote p := fun hc ↦ by simpa [h] using hc.2.2
    rw [counted_maj23_of_not_crosses hcross, h]

/-- The sets collect the same votes, of the same validators. -/
structure SameVoters (vs vs' : VoteSet) : Prop where
  chainID : vs'.chainID = vs.chainID
  height : vs'.height = vs.height
  round : vs'.round = vs.round
  type : vs'.type = vs.type
  valSet : vs'.valSet = vs.valSet

namespace SameVoters

theorem refl (vs : VoteSet) : SameVoters vs vs := ⟨rfl, rfl, rfl, rfl, rfl⟩

theorem trans {v₁ v₂ v₃ : VoteSet} (h₁ : SameVoters v₁ v₂) (h₂ : SameVoters v₂ v₃) :
    SameVoters v₁ v₃ :=
  ⟨h₂.chainID.trans h₁.chainID, h₂.height.trans h₁.height, h₂.round.trans h₁.round,
    h₂.type.trans h₁.type, h₂.valSet.trans h₁.valSet⟩

theorem threshold (h : SameVoters vs vs') : vs'.threshold = vs.threshold := by
  rw [VoteSet.threshold, VoteSet.threshold, h.valSet, h.round]

end SameVoters

variable {c : Call} {cs : List Call} {b : BlockID}

theorem Tallied.sameVoters_call (h : vs.Tallied lib) (hc : vs.call lib c = .ok vs') :
    SameVoters vs vs' := by
  rcases h.call_cases hc with rfl | ⟨_, _, -, -, rfl⟩ | ⟨_, _, -, rfl⟩
  · exact .refl vs'
  · rw [VoteSet.afterVote]
    split <;> exact ⟨rfl, rfl, rfl, rfl, rfl⟩
  · rw [VoteSet.setPeerMaj23]
    split <;> exact ⟨rfl, rfl, rfl, rfl, rfl⟩

theorem Tallied.sameVoters_calls (h : vs.Tallied lib)
    (hrun : vs.calls lib cs = .ok vs') : SameVoters vs vs' := by
  refine (calls_induction (P := fun v ↦ v.Tallied lib ∧ SameVoters vs v) ?_ ⟨h, .refl vs⟩ hrun).2
  rintro v _ _ ⟨hv, hsame⟩ hc
  exact ⟨hv.call hc, hsame.trans (hv.sameVoters_call hc)⟩

/-- What a call keeps of a set with powers that are not negative. -/
structure Consistent (lib : Neatlib) (vs : VoteSet) : Prop where
  powers : ∀ w ∈ vs.valSet.powers, 0 ≤ w
  tallied : vs.Tallied lib
  held : vs.MajorityHeld lib
  unreached : 0 < vs.threshold → vs.Unreached

theorem Consistent.of_newVoteSet (lib : Neatlib) {chainID : String} {height : Nat} {round : Int} {type : VoteType}
    {valSet : ValidatorSet} (hpow : ∀ w ∈ valSet.powers, 0 ≤ w)
    (h : newVoteSet chainID height round type valSet = .ok vs) : vs.Consistent lib := by
  have ht := Tallied.of_newVoteSet lib h
  rw [newVoteSet] at h
  split at h
  · simp at h
  · cases h
    exact ⟨hpow, ht, fun _ hb ↦ by simp at hb, fun _ _ _ _ hbv ↦ by simp at hbv⟩

theorem Consistent.votingPower_nonneg (h : vs.Consistent lib) (ha : vs.Accepts lib vote val) :
    0 ≤ val.votingPower :=
  h.powers _ (List.mem_of_getElem? ha.powers)

theorem Consistent.call (h : vs.Consistent lib) (hc : vs.call lib c = .ok vs') :
    vs'.Consistent lib := by
  have hsame := h.tallied.sameVoters_call hc
  have hpowers : ∀ w ∈ vs'.valSet.powers, 0 ≤ w := hsame.valSet ▸ h.powers
  have hthr := hsame.threshold
  rcases h.tallied.call_cases hc with rfl | ⟨_, _, -, ha, rfl⟩ | ⟨_, _, -, rfl⟩
  · exact h
  · refine ⟨hpowers, h.tallied.afterVote ha,
      h.held.afterVote h.tallied ha (h.votingPower_nonneg ha), fun hpos ↦ ?_⟩
    rw [hthr] at hpos
    exact (h.unreached hpos).afterVote hpos _
  · refine ⟨hpowers, h.tallied.setPeerMaj23 _ _, h.held.setPeerMaj23 _ _, fun hpos ↦ ?_⟩
    rw [hthr] at hpos
    exact (h.unreached hpos).setPeerMaj23 hpos _ _

theorem Consistent.calls (h : vs.Consistent lib)
    (hrun : vs.calls lib cs = .ok vs') : vs'.Consistent lib :=
  calls_induction (fun h hc ↦ h.call hc) h hrun

theorem Tallied.maj23_call (h : vs.Tallied lib) (hb : vs.maj23 = some b)
    (hc : vs.call lib c = .ok vs') : vs'.maj23 = some b := by
  rcases h.call_cases hc with rfl | ⟨_, _, -, -, rfl⟩ | ⟨peerID, blockID, -, rfl⟩
  · exact hb
  · exact maj23_afterVote hb _
  · rw [(setPeerMaj23_fields lib vs peerID blockID).1, hb]

theorem Tallied.maj23_calls (h : vs.Tallied lib)
    (hb : vs.maj23 = some b) (hrun : vs.calls lib cs = .ok vs') : vs'.maj23 = some b := by
  refine (calls_induction (P := fun v ↦ v.Tallied lib ∧ v.maj23 = some b) ?_ ⟨h, hb⟩ hrun).2
  rintro v _ _ ⟨hv, hvb⟩ hc
  exact ⟨hv.call hc, hv.maj23_call hvb hc⟩

/-- Between the two states, `b` has become the majority: no block had reached the threshold before,
and it is the only one that has reached it afterwards. -/
structure Elects (lib : Neatlib) (before after : VoteSet) (b : BlockID) : Prop where
  none_reached : ∀ key bv, before.votesByBlock key = some bv → bv.sum < before.threshold
  reached : ∃ bv, after.votesByBlock (b.key lib) = some bv ∧ after.threshold ≤ bv.sum
  only : ∀ key bv, after.votesByBlock key = some bv → after.threshold ≤ bv.sum → key = b.key lib

/-- The call that sets the majority. -/
theorem Consistent.elects (h : vs.Consistent lib) (hpos : 0 < vs.threshold)
    (hnone : vs.maj23 = none) (hc : vs.call lib c = .ok vs')
    (hb : vs'.maj23 = some b) : Elects lib vs vs' b := by
  have hun := h.unreached hpos hnone
  obtain ⟨bv, hbv, hthr, -⟩ := (h.call hc).held b hb
  refine ⟨hun, ⟨bv, hbv, hthr⟩, fun key bv' hbv' hthr' ↦ ?_⟩
  rcases h.tallied.call_cases hc with rfl | ⟨vote, val, -, -, rfl⟩ | ⟨peerID, blockID, -, rfl⟩
  · simp [hnone] at hb
  · rw [afterVote] at hb hbv' hthr'
    split at hb
    · simp [hnone] at hb
    rename_i hcl
    rw [if_neg hcl] at hbv' hthr'
    have hcross : vs.Crosses lib vote val.votingPower := by
      by_contra hcross
      simp [counted_maj23_of_not_crosses hcross, hnone] at hb
    rw [counted_maj23_of_crosses hcross] at hb
    cases hb
    rcases update_eq_some hbv' with ⟨rfl, -⟩ | ⟨-, hold⟩
    · rfl
    · exact absurd (hun key bv' hold) (Int.not_lt.2 hthr')
  · simp [(setPeerMaj23_fields lib vs peerID blockID).1, hnone] at hb

/-- Somewhere along the run, the majority has been elected. -/
theorem Consistent.exists_elects (h : vs.Consistent lib) (hpos : 0 < vs.threshold)
    (hnone : vs.maj23 = none) (hrun : vs.calls lib cs = .ok vs') (hb : vs'.maj23 = some b) :
    ∃ before c after v v', cs = before ++ c :: after ∧ vs.calls lib before = .ok v ∧
      v.call lib c = .ok v' ∧ Elects lib v v' b := by
  induction cs generalizing vs with
  | nil =>
    cases hrun
    simp [hnone] at hb
  | cons c cs ih =>
    obtain ⟨v, hc, hcs⟩ := calls_cons.1 hrun
    have hv := h.call hc
    have hsame := h.tallied.sameVoters_call hc
    rcases hmaj : v.maj23 with _ | b'
    · obtain ⟨before, d, after, x, y, rfl, hbefore, hd, helects⟩ :=
        ih hv (hsame.threshold ▸ hpos) hmaj hcs
      exact ⟨c :: before, d, after, x, y, rfl, calls_cons.2 ⟨v, hc, hbefore⟩, hd, helects⟩
    · obtain rfl : b' = b :=
        Option.some.inj ((hv.tallied.maj23_calls hmaj hcs).symm.trans hb)
      exact ⟨[], c, cs, vs, v, rfl, rfl, hc, h.elects hpos hnone hc hmaj⟩

/-! ## The law of the tallies -/

/-- The canonical votes for the block of `b`, as bits. -/
def votesFor (lib : Neatlib) (vs : VoteSet) (b : BlockID) : BitArray :=
  vs.votes.map fun v => v.any (·.blockID.key lib == b.key lib)

theorem getElem?_votesFor {i : Nat} : (vs.votesFor lib b)[i]? = some true ↔
    ∃ w, vs.canonical i = some w ∧ w.blockID.key lib = b.key lib := by
  rw [votesFor, List.getElem?_map, canonical, List.getD_eq_getElem?_getD]
  rcases vs.votes[i]? with _ | _
  · simp
  · simp [Option.any_eq_true]

/-- The votes for the majority carry at least the threshold. -/
theorem Consistent.threshold_le_weight (h : vs.Consistent lib)
    (hb : vs.maj23 = some b) : vs.threshold ≤ weight (vs.votesFor lib b) vs.valSet.powers := by
  obtain ⟨bv, hbv, hthr, hcan⟩ := h.held b hb
  have hblock := h.tallied.block _ bv hbv
  rw [hblock.sum, hblock.bitArray] at hthr
  refine hthr.trans (weight_mono h.powers fun i hi ↦ ?_)
  obtain ⟨v, hv⟩ := getElem?_map_isSome.1 hi
  exact getElem?_votesFor.2 (hcan i v hv)

/-- What the tallies of a set are supposed to say, after a run that starts from `vs₀`. -/
structure TallyLaw (lib : Neatlib) (vs₀ : VoteSet) (cs : List Call) (vs : VoteSet) : Prop where
  /-- `sum` is the power of the validators with a canonical vote. -/
  sum : vs.sum = weight (vs.votes.map Option.isSome) vs.valSet.powers
  /-- A block's sum is the power of the validators whose bit is set for it. -/
  blockSum : ∀ key bv, vs.votesByBlock key = some bv → bv.sum = weight bv.bitArray vs.valSet.powers
  /-- `votesBitArray` marks the canonical votes. -/
  votesBitArray : vs.votesBitArray = vs.votes.map Option.isSome
  /-- There is a majority exactly when a block has reached the threshold. -/
  maj23_iff : vs.maj23 ≠ none ↔
    ∃ key bv, vs.votesByBlock key = some bv ∧ vs.threshold ≤ bv.sum
  /-- The majority is the first block to have done so. -/
  first : ∀ b, vs.maj23 = some b →
    ∃ before c after v v', cs = before ++ c :: after ∧ vs₀.calls lib before = .ok v ∧
      v.call lib c = .ok v' ∧ Elects lib v v' b
  /-- The majority never changes. -/
  stays : ∀ before after v b, cs = before ++ after → vs₀.calls lib before = .ok v →
    v.maj23 = some b → vs.maj23 = some b
  /-- The canonical votes for the majority carry at least the threshold. -/
  carried : ∀ b, vs.maj23 = some b → vs.threshold ≤ weight (vs.votesFor lib b) vs.valSet.powers

theorem Consistent.tallyLaw {vs₀ : VoteSet} (h₀ : vs₀.Consistent lib) (hpos : 0 < vs₀.threshold)
    (hnone : vs₀.maj23 = none) (hrun : vs₀.calls lib cs = .ok vs) :
    TallyLaw lib vs₀ cs vs := by
  have h := h₀.calls hrun
  have hsame := h₀.tallied.sameVoters_calls hrun
  refine ⟨by rw [h.tallied.sum, h.tallied.votesBitArray], fun key bv hbv ↦ (h.tallied.block key bv
    hbv).sum, h.tallied.votesBitArray, ⟨fun hmaj ↦ ?_, ?_⟩, ?_, ?_, ?_⟩
  · obtain ⟨b, hb⟩ := Option.ne_none_iff_exists'.1 hmaj
    obtain ⟨bv, hbv, hthr, -⟩ := h.held b hb
    exact ⟨_, bv, hbv, hthr⟩
  · rintro ⟨key, bv, hbv, hthr⟩ hmaj
    exact absurd (h.unreached (hsame.threshold ▸ hpos) hmaj key bv hbv) (Int.not_lt.2 hthr)
  · exact fun b hb ↦ h₀.exists_elects hpos hnone hrun hb
  · rintro _ _ v b rfl hbefore hb
    obtain ⟨v', hv', hafter⟩ := calls_append.1 hrun
    obtain rfl : v' = v := Except.ok.inj (hv'.symm.trans hbefore)
    exact (h₀.calls hv').tallied.maj23_calls hb hafter
  · exact fun b hb ↦ h.threshold_le_weight hb

/-- A peer announces a majority that nobody has voted for. -/
theorem not_tallyLaw_of_announcement (lib : Neatlib) (vs₀ : VoteSet) (hpeers : vs₀.peerMaj23s "peer" = none)
    (hblocks : vs₀.votesByBlock (BlockID.zero.key lib) = none) (hmaj : vs₀.maj23 = none)
    (hthr : vs₀.threshold ≤ 0) :
    ¬ TallyLaw lib vs₀ [.setPeerMaj23 "peer" .zero] (vs₀.setPeerMaj23 lib "peer" .zero) := by
  intro hlaw
  have hfields := setPeerMaj23_fields lib vs₀ "peer" .zero
  refine hlaw.maj23_iff.2 ?_ (hfields.1.trans hmaj)
  refine ⟨BlockID.zero.key lib, .newBlockVotes true vs₀.valSet.size, ?_, hfields.2.2.trans_le hthr⟩
  rw [setPeerMaj23, hpeers]
  simp only [hblocks, Function.update_self]

/-- **When the tallies are what they are supposed to be**: for the sets of a 64-bit round, in every
run, exactly when the threshold does not wrap (or there is no power at all). -/
theorem tallyLaw_iff {lib : Neatlib} {chainID : String} {height : Nat} {round : Int}
    {type : VoteType} {valSet : ValidatorSet} {vs₀ : VoteSet}
    (hpow : ∀ w ∈ valSet.powers, 0 ≤ w) (hround : -2 ^ 63 ≤ round)
    (hnew : newVoteSet chainID height round type valSet = .ok vs₀) :
    (∀ cs vs, vs₀.calls lib cs = .ok vs → TallyLaw lib vs₀ cs vs) ↔
      valSet.powers.sum = 0 ∨ 60 - 2 ^ 63 < round := by
  have h₀ := Consistent.of_newVoteSet lib hpow hnew
  have hsum : 0 ≤ valSet.powers.sum := List.sum_nonneg hpow
  rw [newVoteSet] at hnew
  split at hnew
  · simp at hnew
  cases hnew
  constructor
  · intro hlaw
    by_contra hwrap
    obtain ⟨hne, hle⟩ := not_or.1 hwrap
    have hthr := threshold_le_of_wrap (r := round) (lt_of_le_of_ne hsum (Ne.symm hne)) hround
      (Int.not_lt.1 hle)
    exact absurd (hlaw _ _ rfl) (not_tallyLaw_of_announcement lib _ rfl rfl rfl hthr)
  · intro hcond cs vs hrun
    refine h₀.tallyLaw ?_ rfl hrun
    show 0 < loose23MajorThreshold valSet.powers.sum round
    rcases hcond with hzero | hlow
    · rw [hzero]
      simp [loose23MajorThreshold, looseRound]
    · have := total_lt_two_mul_threshold hsum hlow
      omega

theorem tallyLaw_iff_fresh :
    (∀ cs vs, fresh.calls ValidatorSet.loneLib cs = .ok vs →
        TallyLaw ValidatorSet.loneLib fresh cs vs) ↔
      ValidatorSet.fourEqual.powers.sum = 0 ∨ (60 - 2 ^ 63 : Int) < 0 :=
  tallyLaw_iff (by decide) (by norm_num) newVoteSet_fresh

/-- In the lowest round, a block that nobody has voted for has reached the threshold and is not the
majority. -/
theorem tallyLaw_fails_in_lowest_round :
    ∃ vs₀, newVoteSet "neatio" 5 (-2 ^ 63) .prevote .fourEqual = .ok vs₀ ∧
      ¬ ∀ cs vs, vs₀.calls ValidatorSet.loneLib cs = .ok vs →
        TallyLaw ValidatorSet.loneLib vs₀ cs vs := by
  refine ⟨_, rfl, fun hlaw ↦ ?_⟩
  exact absurd (hlaw _ _ rfl) (not_tallyLaw_of_announcement _ _ rfl rfl rfl
    (threshold_le_of_wrap (by decide) le_rfl (by norm_num)))

/-! ## The law of the two stores -/

/-- Every canonical vote is also stored by its block, where its bit is set. -/
def Recorded (lib : Neatlib) (vs : VoteSet) : Prop :=
  ∀ i v, vs.canonical i = some v →
    (∃ bv, vs.votesByBlock (v.blockID.key lib) = some bv ∧ bv.votes.getD i none = some v) ∧
    ∃ bits, vs.bitArrayByBlockID lib v.blockID = some bits ∧ bits[i]? = some true

/-- The bit comes with the vote. -/
theorem Tallied.recorded (ht : vs.Tallied lib) (h : ∀ i v, vs.canonical i = some v →
      ∃ bv, vs.votesByBlock (v.blockID.key lib) = some bv ∧ bv.votes.getD i none = some v) :
    vs.Recorded lib := by
  intro i v hv
  obtain ⟨bv, hbv, hvote⟩ := h i v hv
  refine ⟨⟨bv, hbv, hvote⟩, bv.bitArray, by rw [bitArrayByBlockID, hbv, Option.map_some], ?_⟩
  rw [(ht.block _ bv hbv).bitArray]
  exact getElem?_map_isSome.2 ⟨v, hvote⟩

/-- The vote is accepted, contradicts an earlier vote of its validator, is for the majority, and no
peer has announced that majority. -/
def ReplacesUnclaimed (lib : Neatlib) (vs : VoteSet) (vote : Vote) : Prop :=
  (∃ val, vs.Accepts lib vote val) ∧ vs.Unclaimed lib vote ∧
    ∃ b, vs.maj23 = some b ∧ b.key lib = vote.blockID.key lib

/-- Such a vote is stored by its validator only. -/
theorem ReplacesUnclaimed.not_recorded (ht : vs.Tallied lib) (h : vs.ReplacesUnclaimed lib vote)
    (hc : vs.call lib (.addVote vote) = .ok vs') : ¬ vs'.Recorded lib := by
  obtain ⟨⟨_, ha⟩, hun, _, hmaj, hkey⟩ := h
  obtain rfl := ht.call_addVote ha hc
  have hst : vs.stores lib vote = true := by
    rw [stores, hmaj]
    simp [hkey]
  intro hrec
  rw [afterVote, if_pos hun] at hrec
  obtain ⟨⟨bv, hbv, hvote⟩, -⟩ := hrec vote.validatorIndex vote
    ((canonical_stored (ht.lt_length ha) _ _).trans (if_pos ⟨rfl, hst⟩))
  -- the set did not have the vote, or it would not have been accepted
  rw [(getVote_eq_none.1 ha.new).2 bv hbv] at hvote
  simp at hvote

section

variable (h : vs.Recorded lib)
include h

/-- A vote that has been counted is in both stores, and so are the others. -/
theorem Recorded.stored_of_counted (ht : vs.Tallied lib)
    (ha : vs.Accepts lib vote val) {i : Nat} {v : Vote}
    (hv : (vs.stored lib vote val.votingPower).canonical i = some v) :
    ∃ bv, (vs.counted lib vote val.votingPower).votesByBlock (v.blockID.key lib) = some bv ∧
      bv.votes.getD i none = some v := by
  have hlen := ha.lt_size.trans_eq (ht.tracked (vote.blockID.key lib)).length.symm
  rw [canonical_stored (ht.lt_length ha)] at hv
  split at hv
  · rename_i hi
    cases hv
    refine ⟨_, Function.update_self .., ?_⟩
    rw [ha.withVote_eq, getD_set_some hlen, if_pos hi.1]
  · obtain ⟨⟨bv, hbv, hvote⟩, -⟩ := h i v hv
    by_cases hkey : v.blockID.key lib = vote.blockID.key lib
    · -- the old vote is for the same block, hence of another validator
      have hi : vote.validatorIndex ≠ i := by
        rintro rfl
        exact (getVote_eq_none.1 ha.new).1 v hv hkey
      refine ⟨vs.withVote lib vote val.votingPower, ?_, ?_⟩
      · rw [counted_votesByBlock, hkey, Function.update_self]
      · rw [ha.withVote_eq, getD_set_some hlen, if_neg hi, ← hkey, tracked_eq hbv, hvote]
    · refine ⟨bv, ?_, hvote⟩
      rw [counted_votesByBlock, Function.update_of_ne hkey, hbv]

theorem Recorded.counted (ht : vs.Tallied lib)
    (ha : vs.Accepts lib vote val) (hun : ¬ vs.Unclaimed lib vote) :
    (vs.counted lib vote val.votingPower).Recorded lib := by
  have hafter := ht.afterVote ha
  rw [VoteSet.afterVote, if_neg hun] at hafter
  refine hafter.recorded fun i v hv ↦ ?_
  by_cases hcross : vs.Crosses lib vote val.votingPower
  · have hblock := ht.withVote ha
    rw [canonical, counted_votes_of_crosses hcross,
      getD_copyVotes (hblock.length.trans (ht.stored ha).length.symm)] at hv
    rcases hcopy : (vs.withVote lib vote val.votingPower).votes.getD i none with _ | w
    · rw [hcopy, Option.none_or] at hv
      exact h.stored_of_counted ht ha hv
    · rw [hcopy, Option.some_or] at hv
      obtain rfl := Option.some.inj hv
      refine ⟨_, ?_, hcopy⟩
      rw [counted_votesByBlock, (hblock.votes i w hcopy).1, Function.update_self]
  · rw [counted_canonical_of_not_crosses hcross] at hv
    exact h.stored_of_counted ht ha hv

theorem Recorded.stored (ht : vs.Tallied lib) (ha : vs.Accepts lib vote val)
    (hst : vs.stores lib vote = false) : (vs.stored lib vote val.votingPower).Recorded lib := by
  refine (ht.stored ha).recorded fun i v hv ↦ ?_
  rw [canonical_stored (ht.lt_length ha), if_neg (by simp [hst])] at hv
  exact (h i v hv).1

theorem Recorded.setPeerMaj23 (ht : vs.Tallied lib) (peerID : String)
    (blockID : BlockID) : (vs.setPeerMaj23 lib peerID blockID).Recorded lib := by
  refine (ht.setPeerMaj23 peerID blockID).recorded fun i v hv ↦ ?_
  rw [canonical, (setPeerMaj23_fields lib vs peerID blockID).2.1] at hv
  obtain ⟨⟨_, hbv, hvote⟩, -⟩ := h i v hv
  obtain ⟨bv', hbv', hvotes, -⟩ := votesByBlock_setPeerMaj23 peerID blockID hbv
  exact ⟨bv', hbv', by rw [hvotes, hvote]⟩

/-- Every other call keeps the two stores alike. -/
theorem Recorded.call (ht : vs.Tallied lib)
    (hcond : ∀ vote, c = .addVote vote → ¬ vs.ReplacesUnclaimed lib vote)
    (hc : vs.call lib c = .ok vs') : vs'.Recorded lib := by
  rcases ht.call_cases hc with rfl | ⟨vote, val, rfl, ha, rfl⟩ | ⟨peerID, blockID, -, rfl⟩
  · exact h
  · rw [VoteSet.afterVote]
    split
    · rename_i hun
      refine h.stored ht ha ?_
      rcases hmaj : vs.maj23 with _ | b
      · simp [stores, hmaj, hun.1]
      · have hkey : b.key lib ≠ vote.blockID.key lib := fun hkey ↦
          hcond vote rfl ⟨⟨val, ha⟩, hun, b, hmaj, hkey⟩
        simp [stores, hmaj, hun.1, hkey]
    · rename_i hun
      exact h.counted ht ha hun
  · exact h.setPeerMaj23 ht peerID blockID

omit h in
theorem recorded_of_newVoteSet {chainID : String} {height : Nat} {round : Int} {type : VoteType}
    {valSet : ValidatorSet} (h : newVoteSet chainID height round type valSet = .ok vs) :
    vs.Recorded lib := by
  rw [newVoteSet] at h
  split at h
  · simp at h
  · cases h
    exact fun i v hv ↦ absurd hv not_getD_replicate

theorem Recorded.calls (ht : vs.Tallied lib)
    (hcond : ∀ before vote after v, cs = before ++ .addVote vote :: after →
      vs.calls lib before = .ok v → ¬ v.ReplacesUnclaimed lib vote)
    (hrun : vs.calls lib cs = .ok vs') : vs'.Recorded lib := by
  induction cs generalizing vs with
  | nil =>
    cases hrun
    exact h
  | cons c cs ih =>
    obtain ⟨v, hc, hcs⟩ := calls_cons.1 hrun
    have hv := h.call ht (fun vote heq ↦ hcond [] vote cs vs (by rw [heq]; rfl) rfl) hc
    refine ih hv (ht.call hc) (fun before vote after w heq hw ↦ ?_) hcs
    exact hcond (c :: before) vote after w (by rw [heq]; rfl) (calls_cons.2 ⟨v, hc, hw⟩)

end

/-- **When a vote is in both stores.**  Along a run from a new set, every canonical vote of every
state is also stored by its block, exactly when no vote of the run replaces one for another block
by one for a majority that no peer has announced. -/
theorem recorded_iff {lib : Neatlib} {chainID : String} {height : Nat} {round : Int}
    {type : VoteType} {valSet : ValidatorSet} {vs₀ vs : VoteSet} {cs : List Call}
    (hnew : newVoteSet chainID height round type valSet = .ok vs₀)
    (hrun : vs₀.calls lib cs = .ok vs) :
    (∀ before after v, cs = before ++ after → vs₀.calls lib before = .ok v → v.Recorded lib) ↔
      ∀ before vote after v, cs = before ++ .addVote vote :: after →
        vs₀.calls lib before = .ok v → ¬ v.ReplacesUnclaimed lib vote := by
  have ht := Tallied.of_newVoteSet lib hnew
  constructor
  · intro hrec before vote after v heq hv hrep
    obtain ⟨v', hv', hrest⟩ := calls_append.1 (heq ▸ hrun)
    obtain rfl : v' = v := Except.ok.inj (hv'.symm.trans hv)
    obtain ⟨w, hw, -⟩ := calls_cons.1 hrest
    refine hrep.not_recorded (ht.calls hv) hw (hrec (before ++ [.addVote vote]) after w ?_ ?_)
    · rw [heq, List.append_assoc]
      rfl
    · exact calls_append.2 ⟨v', hv, calls_cons.2 ⟨w, hw, rfl⟩⟩
  · rintro hcond before after v rfl hv
    refine (recorded_of_newVoteSet hnew).calls ht (fun b vote a w heq hw ↦ ?_) hv
    exact hcond b vote (a ++ after) w (by rw [heq, List.append_assoc]; rfl) hw

/-- A prevote of validator `i` of `fresh` for the block `b`. -/
def ballot (i : Nat) (b : BlockID) : Vote :=
  let key : Bytes := [(i + 1).toUInt8]
  { stray key i with
    blockID := b
    signature := key ++ ValidatorSet.loneLib.voteSignBytes ⟨"neatio", b, 5, 0, .prevote⟩ }

/-- The block that gets the majority. -/
def blockA : BlockID := ⟨[7], ⟨1, [7]⟩⟩

/-- The last validator first votes for another block, and then joins the majority. -/
def lateRun : List Call :=
  [.addVote (ballot 3 ⟨[9], ⟨1, [9]⟩⟩), .addVote (ballot 0 blockA), .addVote (ballot 1 blockA),
    .addVote (ballot 2 blockA), .addVote (ballot 3 blockA)]

/-- A peer has announced the majority before. -/
def announcedRun : List Call := .setPeerMaj23 "peer" blockA :: lateRun

/-- Then each vote of the run is the first of its validator, or for the block that was announced. -/
theorem announcedRun_claimed :
    (List.range announcedRun.length).all (fun n ↦ match announcedRun[n]? with
      | some (.addVote vote) => (fresh.calls ValidatorSet.loneLib (announcedRun.take n)).toOption.all
          fun v ↦ !decide (v.Unclaimed ValidatorSet.loneLib vote)
      | _ => true) = true := by
  decide +kernel

/-- The last validator joins the majority, and its vote is in both stores. -/
theorem recorded_iff_announced :
    ∃ vs, fresh.calls ValidatorSet.loneLib announcedRun = .ok vs ∧
      vs.canonical 3 = some (ballot 3 blockA) ∧
      ∀ before after v, announcedRun = before ++ after →
        fresh.calls ValidatorSet.loneLib before = .ok v → v.Recorded ValidatorSet.loneLib := by
  have hrun : (fresh.calls ValidatorSet.loneLib announcedRun).map (·.canonical 3) =
      .ok (some (ballot 3 blockA)) := by
    decide +kernel
  rcases hvs : fresh.calls ValidatorSet.loneLib announcedRun with _ | vs
  · rw [hvs] at hrun
    cases hrun
  rw [hvs] at hrun
  refine ⟨vs, rfl, Except.ok.inj hrun, (recorded_iff newVoteSet_fresh hvs).2 ?_⟩
  intro before vote after v heq hv hrep
  have hclaimed := List.all_eq_true.1 announcedRun_claimed before.length (by simp [heq])
  rw [heq, List.getElem?_append_right le_rfl, Nat.sub_self, List.take_left' rfl] at hclaimed
  simp only [List.getElem?_cons_zero, hv, Except.toOption, Option.all_some] at hclaimed
  exact absurd hrep.2.1 (by simpa using hclaimed)

/-- **A vote can be missing from its block**: the canonical vote of the last validator is for the
majority, and its bit is not set there. -/
theorem recorded_fails_after_lateRun :
    ∃ vs, fresh.calls ValidatorSet.loneLib lateRun = .ok vs ∧
      vs.canonical 3 = some (ballot 3 blockA) ∧
      vs.bitArrayByBlockID ValidatorSet.loneLib blockA = some [true, true, true, false] ∧
      ¬ vs.Recorded ValidatorSet.loneLib := by
  have hrun : (fresh.calls ValidatorSet.loneLib lateRun).map (fun vs ↦
      (vs.canonical 3, vs.bitArrayByBlockID ValidatorSet.loneLib blockA)) =
      .ok (some (ballot 3 blockA), some [true, true, true, false]) := by
    decide +kernel
  rcases hvs : fresh.calls ValidatorSet.loneLib lateRun with _ | vs
  · simp [hvs, Except.map] at hrun
  obtain ⟨hcan, hbits⟩ : vs.canonical 3 = some (ballot 3 blockA) ∧
      vs.bitArrayByBlockID ValidatorSet.loneLib blockA = some [true, true, true, false] := by
    simpa [hvs, Except.map] using hrun
  refine ⟨vs, rfl, hcan, hbits, fun hrec ↦ ?_⟩
  obtain ⟨-, _, hbits', hbit⟩ := hrec 3 _ hcan
  obtain rfl := Option.some.inj (hbits.symm.trans hbits')
  simp at hbit

end VoteSet

end NeatPoS
