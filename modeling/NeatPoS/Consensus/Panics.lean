import NeatPoS.Consensus.Transitions

/-!
# The panic about the parts header

`finalizeCommit` panics if the parts the node holds are not those of the block that is being
committed.  This file shows that nothing else in the state machine raises that panic, so that a
node that has died of it has left a `finalizeCommit` event in its trace that says why
(`handle_blames`).

The proofs follow the code: one lemma for each function, none of which looks into another.  For a
function that cannot reach `finalizeCommit` the lemma holds for every `B`, in particular for the
one that is never true.
-/

set_option autoImplicit false

namespace NeatPoS

open Stateful

/-- The panic of `finalizeCommit` about the parts header. -/
def partsHeaderPanic : Panic :=
  .panicSanity "Expected ProposalBlockParts header to be commit header"

/-- A block was about to be committed whose parts are not those of the majority. -/
def Misfit (trace : List Event) : Prop :=
  ∃ rs b, .finalizeCommit rs b ∈ trace ∧
    PartSet.hasHeader rs.proposalBlockParts b.partsHeader = false

variable {B : ConsensusState → Prop}

/-! ## Functions without a state -/

variable (env : Env)

theorem proposerByVRF_spares (hash : Bytes) (vs : List Validator) :
    Spares partsHeaderPanic (proposerByVRF env hash vs) :=
  .ite (.throw nofun) (.pure _)

variable (cs : ConsensusState)

theorem proposersByVRF_spares : Spares partsHeaderPanic (proposersByVRF env cs) := by
  refine .bind (proposerByVRF_spares ..) fun _ ↦ .ite (.pure _) (.ite ?_ (.pure _))
  split
  · exact .throw nofun
  · exact .bind (proposerByVRF_spares ..) fun _ ↦ .pure _

theorem vrfIndex_spares : Spares partsHeaderPanic (vrfIndex env cs) :=
  .ite (.pure _) (.bind (proposersByVRF_spares ..) fun _ ↦ .ite (.pure _) (.pure _))

theorem proposerAt_spares (i : Int) (cs : ConsensusState) :
    Spares partsHeaderPanic (proposerAt i cs) := by
  refine .ite (.throw nofun) ?_
  split
  · exact .throw nofun
  · exact .pure _

variable (lib : Neatlib)

theorem hash_spares (b : Option TdmBlock) : Spares partsHeaderPanic (TdmBlock.hash lib b) := by
  unfold TdmBlock.hash
  split
  · exact .pure _
  · split
    · exact .throw nofun
    · exact .pure _

theorem hashesTo_spares (b : Option TdmBlock) (h : Bytes) :
    Spares partsHeaderPanic (TdmBlock.hashesTo lib b h) := by
  refine .ite (.pure _) (.ite (.pure _) ?_)
  split
  · rename_i he
    exact (hash_spares lib b).rethrow he
  · exact .pure _

theorem validateBasic_spares (b : TdmBlock) (last : NeatconExtra) :
    Spares partsHeaderPanic (b.validateBasic last) := by
  rw [TdmBlock.validateBasic]
  split
  · exact .throw nofun
  · exact .ite (.pure _) (.ite (.pure _) (.pure _))

theorem contractFunction_spares (tx : Transaction) :
    Spares partsHeaderPanic (contractFunction env tx) :=
  .ite (.pure _) (.bind (.ite (.throw nofun) (.pure _)) fun _ ↦ .pure _)

theorem collectTX3ProofData_spares (txs : List Transaction) :
    Spares partsHeaderPanic (collectTX3ProofData env txs) := by
  induction txs with
  | nil => exact .pure _
  | cons _ _ ih =>
    exact .bind (contractFunction_spares ..) fun _ ↦ .bind ih fun _ ↦ .ite (.pure _) (.pure _)

theorem validateTX4_spares (txs : List Transaction) (proofs : List TX3ProofData) :
    Spares partsHeaderPanic (validateTX4 env txs proofs) := by
  induction txs generalizing proofs with
  | nil => exact .pure _
  | cons _ _ ih =>
    refine .bind (contractFunction_spares ..) fun _ ↦ .ite ?_ (ih _)
    split
    · exact .pure _
    · exact .ite (ih _) (.pure _)

theorem hasWithdrawFromSideChain_spares (txs : List Transaction) :
    Spares partsHeaderPanic (hasWithdrawFromSideChain env txs) := by
  induction txs with
  | nil => exact .pure _
  | cons _ _ ih => exact .bind (contractFunction_spares ..) fun _ ↦ .ite (.pure _) ih

theorem sealBlock_spares (block : TdmBlock) (te : NeatconExtra) (commit : Commit) :
    Spares partsHeaderPanic (sealBlock env block te commit) :=
  .ite (.pure _) (.bind (hasWithdrawFromSideChain_spares ..) fun _ ↦ .pure _)

theorem proposalBasicsOk_spares (block : TdmBlock) :
    Spares partsHeaderPanic (proposalBasicsOk env cs block) :=
  .bind (validateBasic_spares ..) fun _ ↦ .ite (.pure _) (validateTX4_spares ..)

theorem nextEpochOk_spares (block : TdmBlock) :
    Spares partsHeaderPanic (nextEpochOk env cs block) := by
  rw [nextEpochOk]
  split
  · exact .throw nofun
  · split
    · exact .pure _
    · exact .ite (.pure _) (.pure _)

theorem proposalEpochBytes_spares : Spares partsHeaderPanic (proposalEpochBytes env cs) := by
  refine .ite ?_ (.ite (.pure _) (.ite (.pure _) (.pure _)))
  split
  · exact .throw nofun
  · exact .pure _

theorem createProposalBlock_spares : Spares partsHeaderPanic (createProposalBlock env cs) := by
  rw [createProposalBlock]
  split
  · exact .pure _
  · refine .ite (.pure _) (.bind (proposalEpochBytes_spares ..) fun _ ↦ ?_)
    split
    · exact .throw nofun
    · exact .bind (collectTX3ProofData_spares ..) fun _ ↦ .pure _

theorem newPartSetFromHeader_spares (h : PartSetHeader) :
    Spares partsHeaderPanic (PartSet.newPartSetFromHeader h) :=
  .ite (.throw nofun) (.pure _)

theorem addPart_spares (ps : PartSet) (part : Part) (verify : Bool) :
    Spares partsHeaderPanic (ps.addPart lib part verify) := by
  refine .ite (.pure _) (.ite (.throw nofun) ?_)
  split
  · exact .ite (.pure _) (.pure _)
  · exact .pure _

theorem setRound_spares (hvs : HeightVoteSignAggr) (r : Int) :
    Spares partsHeaderPanic (hvs.setRound r) :=
  .ite (.throw nofun) (.pure _)

theorem resetTop2Round_spares (hvs : HeightVoteSignAggr) (r : Int) :
    Spares partsHeaderPanic (hvs.resetTop2Round r) :=
  .ite (.throw nofun) (.pure _)

theorem votesSetRound_spares (hvs : HeightVoteSet) (r : Int) :
    Spares partsHeaderPanic (hvs.setRound r) :=
  .ite (.throw nofun) (.pure _)

theorem votesResetTop2Round_spares (hvs : HeightVoteSet) (r : Int) :
    Spares partsHeaderPanic (hvs.resetTop2Round r) :=
  .ite (.throw nofun) (.pure _)

theorem newVoteSet_spares (chainID : String) (height : Nat) (r : Int) (type : VoteType)
    (vals : ValidatorSet) : Spares partsHeaderPanic (VoteSet.newVoteSet chainID height r type vals) :=
  .ite (.throw nofun) (.pure _)

theorem newHeightVoteSet_spares (chainID : String) (height : Nat) (vals : ValidatorSet) :
    Spares partsHeaderPanic (HeightVoteSet.newHeightVoteSet chainID height vals) :=
  .bind (.bind (newVoteSet_spares ..) fun _ ↦ .bind (newVoteSet_spares ..) fun _ ↦ .pure _)
    fun _ ↦ .pure _

theorem addVerifiedVote_spares (vs : VoteSet) (vote : Vote) (key : Bytes)
    (power : Int) : Spares partsHeaderPanic (vs.addVerifiedVote lib vote key power) := by
  refine .ite (.throw nofun) (.ite (.pure _) ?_)
  split
  · exact .pure _
  · exact .ite (.pure _) (.pure _)

theorem voteSetAddVote_spares (vs : VoteSet) (vote : Vote) :
    Spares partsHeaderPanic (vs.addVote lib vote) := by
  refine .ite (.throw nofun) (.ite (.pure _) ?_)
  split
  · exact .throw nofun
  refine .ite (.pure _) ?_
  split
  · exact .ite (.pure _) (.pure _)
  refine .ite (.pure _) ?_
  split
  · rename_i he
    exact (addVerifiedVote_spares ..).rethrow he
  · exact .pure _
  · exact .ite (.throw nofun) (.pure _)

theorem addVoteTo_spares (hvs : HeightVoteSet) (vote : Vote) :
    Spares partsHeaderPanic (hvs.addVoteTo lib vote) := by
  rw [HeightVoteSet.addVoteTo]
  split
  · exact .throw (by simp [partsHeaderPanic])
  · split
    · rename_i he
      exact (voteSetAddVote_spares ..).rethrow he
    · exact .pure _

theorem heightVoteSetAddVote_spares (hvs : HeightVoteSet) (vote : Vote)
    (key : String) : Spares partsHeaderPanic (hvs.addVote lib vote key) := by
  refine .ite (.pure _) (.ite (addVoteTo_spares ..) ?_)
  split
  · exact addVoteTo_spares ..
  · exact .pure _

/-! ## Functions that do not finalize -/

variable (r : Int)

theorem proposerByRound_blames : Blames partsHeaderPanic B (proposerByRound env r) :=
  .bind .get fun _ ↦ .ite
    (.bind (.fromExcept (vrfIndex_spares ..)) fun _ ↦ .bind (.modify _) fun _ ↦
      .fromExcept (proposerAt_spares ..))
    (.ite (.throw nofun) (.ite (.throw nofun)
      (.fromExcept (proposerAt_spares ..))))

theorem isProposer_blames : Blames partsHeaderPanic B (isProposer env) :=
  .bind .get fun _ ↦ .bind (proposerByRound_blames ..) fun _ ↦ .pure _

theorem signAddVote_blames (type : VoteType) (b : BlockID) :
    Blames partsHeaderPanic B (signAddVote env type b) :=
  .bind .get fun _ ↦ .ite (.pure _) (.bind (.modify _) fun _ ↦ .bind (isProposer_blames _) fun _ ↦
    .ite (.ite (.modify _) (.pure _)) (.modify _))

theorem fetchBlock_blames (header : PartSetHeader) :
    Blames partsHeaderPanic B (fetchBlock header) :=
  .bind (.modify _) fun _ ↦ .bind (.fromExcept (newPartSetFromHeader_spares _)) fun _ ↦ .modify _

theorem enterCommitBody_blames : Blames partsHeaderPanic B (enterCommitBody env r) := by
  refine .bind .get fun _ ↦ ?_
  split
  · exact .throw nofun
  · exact .bind (.fromExcept (hashesTo_spares ..)) fun _ ↦ .ite (.modify _)
      (.bind (.fromExcept (hashesTo_spares ..)) fun _ ↦ .guarded (fetchBlock_blames _))

variable (height : Nat)

theorem enterPrecommitWait_blames : Blames partsHeaderPanic B (enterPrecommitWait height r) :=
  .bind .get fun _ ↦ .ite (.pure _) (.bind (.modify _) fun _ ↦ .modify _)

theorem enterPrecommitBody_blames : Blames partsHeaderPanic B (enterPrecommitBody env r) := by
  refine .bind .get fun _ ↦ ?_
  split
  · exact signAddVote_blames ..
  refine .ite (.throw nofun) (.ite
    (.bind (.guarded (.modify _)) fun _ ↦ signAddVote_blames ..)
    (.bind (.fromExcept (hashesTo_spares ..)) fun _ ↦ .ite
      (.bind (.modify _) fun _ ↦ signAddVote_blames ..)
      (.bind (.fromExcept (hashesTo_spares ..)) fun _ ↦ ?_)))
  split
  · exact .bind (.fromExcept (validateBasic_spares ..)) fun _ ↦
      .ite (.throw nofun)
        (.bind (.modify _) fun _ ↦ signAddVote_blames ..)
  · exact .bind (.modify _) fun _ ↦ .bind (.guarded (fetchBlock_blames _)) fun _ ↦
      signAddVote_blames ..

theorem enterPrecommit_blames : Blames partsHeaderPanic B (enterPrecommit env height r) :=
  .bind .get fun _ ↦ .ite (.pure _) (.deferred (enterPrecommitBody_blames ..)
    (.bind (.modify _) fun _ ↦ enterPrecommitWait_blames ..))

theorem enterPrevoteWait_blames : Blames partsHeaderPanic B (enterPrevoteWait height r) :=
  .bind .get fun _ ↦ .ite (.pure _) (.bind (.modify _) fun _ ↦ .modify _)

theorem defaultDoPrevote_blames : Blames partsHeaderPanic B (defaultDoPrevote env) := by
  refine .bind .get fun _ ↦ .ite
    (.bind (.fromExcept (hash_spares ..)) fun _ ↦ signAddVote_blames ..) ?_
  split
  · exact signAddVote_blames ..
  · exact .bind (.fromExcept (proposalBasicsOk_spares ..)) fun _ ↦ .ite (signAddVote_blames ..)
      (.bind (isProposer_blames _) fun _ ↦ .ite (signAddVote_blames ..)
        (.bind (.fromExcept (nextEpochOk_spares ..)) fun _ ↦ .ite (signAddVote_blames ..)
          (.bind (.fromExcept (hash_spares ..)) fun _ ↦ signAddVote_blames ..)))

theorem enterPrevote_blames : Blames partsHeaderPanic B (enterPrevote env height r) :=
  .bind .get fun _ ↦ .ite (.pure _) (.deferred (.ite (defaultDoPrevote_blames _) (.pure _))
    (.bind .get fun _ ↦ .bind (.guarded (.modify _)) fun _ ↦ enterPrevoteWait_blames ..))

theorem sendParts_blames (parts : List (Option Part)) :
    Blames partsHeaderPanic B (sendParts height r parts) := by
  induction parts with
  | nil => exact .pure _
  | cons _ _ ih => exact .bind (.modify _) fun _ ↦ ih

theorem sendProposal_blames (block : Option TdmBlock) (parts : Option PartSet) :
    Blames partsHeaderPanic B (sendProposal env height r block parts) :=
  .bind .get fun _ ↦ .bind (.fromExcept (hash_spares ..)) fun _ ↦
    .ite (.throw nofun) (.bind (.modify _) fun _ ↦ sendParts_blames ..)

theorem defaultDecideProposal_blames :
    Blames partsHeaderPanic B (defaultDecideProposal env height r) := by
  refine .bind .get fun _ ↦ .ite (sendProposal_blames ..)
    (.bind (.fromExcept (createProposalBlock_spares ..)) fun _ ↦ ?_)
  split
  · exact .pure _
  · exact sendProposal_blames ..

theorem reportToMainChain_blames (needed : Bool) (clear : NeatconExtra → NeatconExtra) :
    Blames partsHeaderPanic B (reportToMainChain env needed clear) :=
  .bind .get fun _ ↦ .ite (.bind (isProposer_blames _) fun _ ↦ .guarded (.modify _)) (.pure _)

theorem enterProposeBody_blames : Blames partsHeaderPanic B (enterProposeBody env height r) :=
  .bind .get fun _ ↦ .bind (reportToMainChain_blames ..) fun _ ↦
    .bind (reportToMainChain_blames ..) fun _ ↦ .bind (.modify _) fun _ ↦
      .bind (isProposer_blames _) fun _ ↦ .ite (.pure _) (defaultDecideProposal_blames ..)

theorem enterPropose_blames : Blames partsHeaderPanic B (enterPropose env height r) :=
  .bind .get fun _ ↦ .ite (.pure _) (.deferred (enterProposeBody_blames ..)
    (.bind (.modify _) fun _ ↦ .bind .get fun _ ↦ .ite (enterPrevote_blames ..) (.pure _)))

theorem proposeOrWait_blames : Blames partsHeaderPanic B (proposeOrWait env height r) :=
  .bind (isProposer_blames _) fun _ ↦ .bind .get fun _ ↦ .ite (.modify _) (enterPropose_blames ..)

theorem enterNewRound_blames : Blames partsHeaderPanic B (enterNewRound env height r) :=
  .bind .get fun _ ↦ .ite (.pure _) (.bind (.modify _) fun _ ↦ .bind (.guarded (.modify _)) fun _ ↦
    .bind (.fromExcept (setRound_spares ..)) fun _ ↦ .bind (.modify _) fun _ ↦
      .bind (.fromExcept (votesSetRound_spares ..)) fun _ ↦ .bind (.modify _) fun _ ↦
        proposeOrWait_blames ..)

theorem enterLowerRound_blames : Blames partsHeaderPanic B (enterLowerRound env height r) :=
  .bind .get fun _ ↦ .bind (.modify _) fun _ ↦ .bind (.modify _) fun _ ↦ .bind (.modify _) fun _ ↦
    .bind (.fromExcept (resetTop2Round_spares ..)) fun _ ↦ .bind (.modify _) fun _ ↦
      .bind (.fromExcept (votesResetTop2Round_spares ..)) fun _ ↦ .bind (.modify _) fun _ ↦
        proposeOrWait_blames ..

theorem storeProposal_blames (p : Proposal) : Blames partsHeaderPanic B (storeProposal p) :=
  .bind (.modify _) fun _ ↦ .bind (.fromExcept (newPartSetFromHeader_spares _)) fun _ ↦ .modify _

theorem defaultSetProposal_blames (p : Option Proposal) :
    Blames partsHeaderPanic B (defaultSetProposal env p) := by
  refine .bind .get fun _ ↦ ?_
  split
  · exact .ite (.pure _) (.throw nofun)
  · exact .ite (.pure _) (.bind (proposerByRound_blames ..) fun _ ↦ .ite (.pure _)
      (.ite (storeProposal_blames _) (.ite (.pure _)
        (.bind (enterLowerRound_blames ..) fun _ ↦ storeProposal_blames _))))

theorem setPrevoteMaj23_blames (sa : SignAggr) :
    Blames partsHeaderPanic B (setPrevoteMaj23 env sa) :=
  .bind .get fun _ ↦ .ite (.pure _) (.bind (.modify _) fun _ ↦ .ite
    (.bind (.fromExcept (hashesTo_spares ..)) fun _ ↦ .bind (.guarded (.modify _)) fun _ ↦
      .ite (enterPrecommit_blames ..) (.pure _))
    (.ite (enterPrecommit_blames ..) (.pure _)))

theorem sendMaj23SignAggr_blames (type : VoteType) :
    Blames partsHeaderPanic B (sendMaj23SignAggr env type) := by
  refine .bind .get fun _ ↦ ?_
  split
  · exact .pure _
  split
  · exact .pure _
  · simp only
    split
    · exact .pure _
    · exact .ite (.pure _) (.bind (.modify _) fun _ ↦ .modify _)

theorem addVote_blames (vote : Option Vote) (key : String) :
    Blames partsHeaderPanic B (addVote env vote key) := by
  cases vote with
  | none => exact .throw nofun
  | some =>
    exact .bind (isProposer_blames _) fun _ ↦ .bind .get fun _ ↦ .ite (.pure _) (.ite (.pure _)
      (.ite (.pure _) (.bind (.fromExcept (heightVoteSetAddVote_spares ..)) fun _ ↦
        .bind (.modify _) fun _ ↦ .ite (sendMaj23SignAggr_blames ..) (.pure _))))

theorem handleTimeout_blames (ti : TimeoutInfo) :
    Blames partsHeaderPanic B (handleTimeout env ti) := by
  refine .bind .get fun _ ↦ .ite (.pure _) ?_
  split
  · exact enterNewRound_blames ..
  · exact enterPropose_blames ..
  · exact enterPrevote_blames ..
  · exact enterPrecommit_blames ..
  · exact enterNewRound_blames ..
  · exact .throw nofun

theorem startNewHeight_blames : Blames partsHeaderPanic B (startNewHeight env) := by
  refine .bind .get fun _ ↦ ?_
  simp only
  split
  · exact .throw nofun
  · exact .bind (.fromExcept (newHeightVoteSet_spares ..)) fun _ ↦ .bind (.modify _) fun _ ↦ .modify _

/-! ## Functions that finalize -/

/-- Why `finalizeCommit` panics, and in which state. -/
theorem finalizeCommit_error {env : Env} {height : Nat} {s : ConsensusState}
    (h : endError (finalizeCommit env height) s = some partsHeaderPanic) :
    endState (finalizeCommit env height) s = s ∧
      ∃ b, SignAggr.twoThirdsMajority (s.voteSignAggr.precommits s.commitRound) = some b ∧
        PartSet.hasHeader s.proposalBlockParts b.partsHeader = false := by
  rw [finalizeCommit, endError_get_bind] at h
  rw [finalizeCommit, endState_get_bind]
  split at h
  · cases h
  rename_i hg
  rw [if_neg hg]
  split at h
  · exact absurd h (Blames.ne_error (.throw (by simp [partsHeaderPanic])) s)
  rename_i hpre
  rw [hpre]
  split at h
  · exact absurd h (Blames.ne_error (.throw (by simp [partsHeaderPanic])) s)
  rename_i b hb
  rw [hb]
  split at h
  · rename_i hheader
    rw [if_pos hheader]
    exact ⟨rfl, b, rfl, by simpa using hheader⟩
  · refine absurd h (Blames.ne_error (.bind (.fromExcept (hashesTo_spares ..)) fun _ ↦ ?_) s)
    split
    · exact .bind (.fromExcept (validateBasic_spares ..)) fun _ ↦
        .ite (.throw nofun) (.ite
          (.bind (.fromExcept (sealBlock_spares ..)) fun _ ↦ .bind (.modify _) fun _ ↦
            .modify _)
          (.pure _))
    · exact .throw nofun

theorem tryFinalizeCommit_blames :
    Blames partsHeaderPanic (fun s ↦ Misfit s.trace) (tryFinalizeCommit env height) := by
  refine ⟨fun s h ↦ ?_⟩
  rw [tryFinalizeCommit, endError_get_bind] at h
  rw [tryFinalizeCommit, endState_get_bind]
  split at h
  · exact absurd h (Blames.ne_error (.throw (by simp [partsHeaderPanic])) s)
  rename_i hg
  rw [if_neg hg]
  split at h
  · cases h
  rename_i b hb
  split at h
  · cases h
  rename_i hempty
  rw [if_neg hempty]
  cases hh : TdmBlock.hashesTo env.lib s.proposalBlock b.hash with
  | error e =>
    rw [hh] at h
    have he : e = partsHeaderPanic := Option.some.inj h
    exact absurd (he ▸ hh) (hashesTo_spares ..).ne_error
  | ok hashes =>
    rw [hh] at h
    cases hashes with
    | false => exact absurd (show none = some partsHeaderPanic from h) (by simp)
    | true =>
      -- the event is there, and `finalizeCommit` sees the round state that it records
      obtain ⟨hs, _, hb', hheader⟩ := finalizeCommit_error (s := { s with
        trace := .finalizeCommit s.toRoundState b :: s.trace }) h
      rw [hb] at hb'
      cases hb'
      change Misfit (endState (finalizeCommit env height) { s with
        trace := .finalizeCommit s.toRoundState b :: s.trace }).trace
      rw [hs]
      exact ⟨_, b, List.mem_cons_self, hheader⟩

theorem enterCommit_blames :
    Blames partsHeaderPanic (fun s ↦ Misfit s.trace) (enterCommit env height r) :=
  .bind .get fun _ ↦ .ite (.pure _) (.deferred (enterCommitBody_blames ..)
    (.bind (.modify _) fun _ ↦ tryFinalizeCommit_blames ..))

theorem addProposalBlockPart_blames (part : Option Part) (verify : Bool) :
    Blames partsHeaderPanic (fun s ↦ Misfit s.trace)
      (addProposalBlockPart env height r part verify) := by
  have hreceived : ∀ ps, Blames partsHeaderPanic (fun s ↦ Misfit s.trace)
      (proposalBlockReceived env height ps) := fun ps ↦
    .bind (.modify _) fun _ ↦ .bind .get fun _ ↦ .ite (enterPrevote_blames ..)
      (.ite (tryFinalizeCommit_blames ..) (.pure _))
  refine .bind .get fun _ ↦ .ite (.pure _) ?_
  split
  · exact .pure _
  · exact .throw nofun
  · exact .bind (.fromExcept (addPart_spares ..)) fun _ ↦ .ite (.pure _)
      (.bind (.modify _) fun _ ↦ .ite (hreceived _) (.pure _))

theorem setMaj23SignAggr_blames (sa : Option SignAggr) :
    Blames partsHeaderPanic (fun s ↦ Misfit s.trace) (setMaj23SignAggr env sa) := by
  refine .bind .get fun _ ↦ ?_
  split
  · exact .pure _
  · exact .ite (.pure _) (.ite (.pure _) (.ite (.pure _) (.bind (.modify _) fun _ ↦
      .ite (.pure _) (.ite (setPrevoteMaj23_blames ..) (.bind .get fun _ ↦ .ite (.pure _)
        (.bind (.modify _) fun _ ↦ .ite (enterCommit_blames ..) (.pure _)))))))

/-- **The panic has one cause.** -/
theorem handle_blames (input : Input) :
    Blames partsHeaderPanic (fun s ↦ Misfit s.trace) (handle env input) := by
  match input with
  | .msg (.proposal p) _ => exact defaultSetProposal_blames env p
  | .msg (.blockPart height r part) key => exact addProposalBlockPart_blames ..
  | .msg (.maj23SignAggr sa) _ => exact setMaj23SignAggr_blames env sa
  | .msg (.vote v) key => exact addVote_blames env v key
  | .timeout ti => exact handleTimeout_blames env ti
  | .request b =>
    exact .bind .get fun _ ↦ .ite (.bind (.guarded (startNewHeight_blames env)) fun _ ↦ .modify _)
      (.pure _)
  | .finalCommitted n => exact .bind .get fun _ ↦ .ite (startNewHeight_blames env) (.pure _)

end NeatPoS
