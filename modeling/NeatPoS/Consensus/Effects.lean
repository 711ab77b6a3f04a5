import NeatPoS.Consensus.Runs

/-!
# What a move does, one thing at a time

`Move` says everything at once.  Most arguments are about one thing: the votes a node signs, the
aggregates it stores, the blocks it finalizes.  Each of the lemmas here goes through the moves once
and says which of them can have that effect, and what the code had checked.
-/

set_option autoImplicit false

namespace NeatPoS

open Stateful Relation

variable {env : Env} {start s s' : ConsensusState} {input : Input}

/-! ## Votes -/

/-- The votes that a move from `s` can sign. -/
inductive NewVote (env : Env) (start : ConsensusState) (input : Input) (s : ConsensusState) :
    RoundState → Vote → Prop
  /-- A prevote; the proposal block may just have been received. -/
  | prevote (s₀ : ConsensusState) (b : BlockID) (hh : s₀.height = s.height)
      (hr : s₀.round = s.round) (hval : s₀.validators = s.validators)
      (hkey : s₀.privAddress = s.privAddress) (hlock : s₀.lockedBlock = s.lockedBlock)
      (hstep : s.step ≠ .commit ∨ ∃ r, Ahead start input .propose r)
      (hb : PrevoteFor env.lib s₀.toRoundState b) :
      NewVote env start input s s₀.toRoundState (signVote env s₀ .prevote b)
  /-- A precommit for nothing. -/
  | abstain (s₀ : ConsensusState) (hh : s₀.height = s.height) (hr : s₀.round = s.round)
      (hval : s₀.validators = s.validators) (hkey : s₀.privAddress = s.privAddress) :
      NewVote env start input s s₀.toRoundState (signVote env s₀ .precommit .zero)
  /-- A precommit for a block, because of a majority of prevotes in round `r`. -/
  | precommit (s₀ : ConsensusState) (r : Int) (b : BlockID) (hb : s.polka r = some b)
      (hs₀ : s₀ = s.relock r b ∧ TdmBlock.hashesTo env.lib s.lockedBlock b.hash = .ok true ∨
        s₀ = s.lock r b ∧ TdmBlock.hashesTo env.lib s.lockedBlock b.hash = .ok false ∧
          TdmBlock.hashesTo env.lib s.proposalBlock b.hash = .ok true)
      (hr : s.round ≤ r) (heq : s.round = r → s.step.num < RoundStep.precommit.num)
      (ahead : s.round < r → Ahead start input .prevoteWait r) :
      NewVote env start input s s₀.toRoundState (signVote env s₀ .precommit b)

/-! ## Events -/

/-- The events that a move from `s` can leave behind. -/
inductive NewEvent (env : Env) (start : ConsensusState) (input : Input) (s : ConsensusState) :
    Event → Prop
  /-- A message. -/
  | talk {e : Event} (he : e.isTalk = true) : NewEvent env start input s e
  | tick (ti : TimeoutInfo) : NewEvent env start input s (.tick ti)
  | signed {rs : RoundState} {v : Vote} (h : NewVote env start input s rs v)
      (hmem : s.validators.hasAddress s.privAddress = true) :
      NewEvent env start input s (.signed rs v)
  | lock (r : Int) (b : BlockID) (hb : s.polka r = some b)
      (hp : TdmBlock.hashesTo env.lib s.proposalBlock b.hash = .ok true) :
      NewEvent env start input s (.polka s.toRoundState r b .lock)
  | relock (r : Int) (b : BlockID) (hb : s.polka r = some b)
      (hl : TdmBlock.hashesTo env.lib s.lockedBlock b.hash = .ok true) :
      NewEvent env start input s (.polka s.toRoundState r b .relock)
  | unlock (r : Int) (b : BlockID)
      (hl : TdmBlock.hashesTo env.lib s.lockedBlock b.hash = .ok false) :
      NewEvent env start input s (.polka s.toRoundState r b .unlock)
  | finalizeCommit (b : BlockID) (hstep : s.step = .commit)
      (hb : SignAggr.twoThirdsMajority (s.voteSignAggr.precommits s.commitRound) = some b)
      (hh : TdmBlock.hashesTo env.lib s.proposalBlock b.hash = .ok true) :
      NewEvent env start input s (.finalizeCommit s.toRoundState b)
  | committed (block : TdmBlock) : NewEvent env start input s (.committed block)
  | signAggr (vs : VoteSet) (b : BlockID) (type : VoteType) (chainID : String) (signature : Bytes)
      (hvs : s.votes.getVoteSet s.round type = some vs) (hmaj : vs.maj23 = some b)
      (hb : b.isZero = false) :
      NewEvent env start input s (.signAggr (SignAggr.makeSignAggr s.height s.round type b chainID
        (signBitArray s.validators.size (majorityVotes vs b)) signature))

/-- From `s` to `s'`, only such events have been added, and at most one of them is a vote. -/
def Adds (E : Event → Prop) (s s' : ConsensusState) : Prop :=
  ∃ l, s'.trace = l ++ s.trace ∧ (∀ e ∈ l, E e) ∧ (votesOf l).length ≤ 1

variable {E E' : Event → Prop} {s'' : ConsensusState} {e : Event}

theorem Adds.of_eq (h : s'.trace = s.trace) : Adds E s s' := ⟨[], h, by simp, by simp [votesOf]⟩

/-- One more event at the end. -/
theorem Adds.cons (h : Adds E s s') (heq : s''.trace = e :: s'.trace) (he : E e)
    (hv : e.vote = none) : Adds E s s'' := by
  obtain ⟨l, hl, hE, hvotes⟩ := h
  refine ⟨e :: l, by rw [heq, hl]; rfl, fun e' he' ↦ ?_, ?_⟩
  · rcases List.mem_cons.1 he' with rfl | he'
    · exact he
    · exact hE e' he'
  · rwa [votesOf, List.filterMap_cons_none hv]

/-- One more event at the beginning. -/
theorem Adds.snoc (h : Adds E s' s'') (heq : s'.trace = e :: s.trace) (he : E e)
    (hv : e.vote = none) : Adds E s s'' := by
  obtain ⟨l, hl, hE, hvotes⟩ := h
  refine ⟨l ++ [e], by rw [hl, heq]; simp, fun e' he' ↦ ?_, ?_⟩
  · rcases List.mem_append.1 he' with he' | he'
    · exact hE e' he'
    · rw [List.mem_singleton.1 he']
      exact he
  · simpa [votesOf, hv] using hvotes

theorem votesOf_eq_nil {l : List Event} (h : ∀ e ∈ l, e.vote = none) : votesOf l = [] :=
  List.filterMap_eq_nil_iff.2 h

theorem Event.vote_of_isTalk (h : e.isTalk = true) : e.vote = none := by
  cases e with
  | signed => exact absurd h (by simp [Event.isTalk])
  | _ => rfl

/-- Messages and timeouts. -/
theorem Adds.of_chatter {l : List Event} (heq : s'.trace = l ++ s.trace)
    (hl : ∀ e ∈ l, Chatter start input s e) (hE : ∀ e, Chatter start input s e → E e) :
    Adds E s s' := by
  have hnil : votesOf l = [] := votesOf_eq_nil fun e he ↦ by cases hl e he <;> rfl
  exact ⟨l, heq, fun e he ↦ hE e (hl e he), by simp [hnil]⟩

theorem Signs.adds {type : VoteType} {b : BlockID} (h : Signs env type b s s')
    (htalk : ∀ e : Event, e.isTalk = true → E e)
    (hsigned : s.validators.hasAddress s.privAddress = true →
      E (.signed s.toRoundState (signVote env s type b))) : Adds E s s' := by
  cases h with
  | skip => exact .of_eq rfl
  | cast _ talk ht hmem =>
    refine ⟨talk ++ [.signed s.toRoundState (signVote env s type b)], by simp, fun e he ↦ ?_, ?_⟩
    · rcases List.mem_append.1 he with he | he
      · exact htalk e (ht e he)
      · rw [List.mem_singleton.1 he]
        exact hsigned hmem
    · have hnil : votesOf talk = [] := votesOf_eq_nil fun e he ↦ Event.vote_of_isTalk (ht e he)
      rw [votesOf] at hnil
      rw [votesOf, List.filterMap_append, hnil]
      exact le_refl _

theorem Prevotes.adds (h : Prevotes env s s') (htalk : ∀ e : Event, e.isTalk = true → E e)
    (hsigned : ∀ vrf b, PrevoteFor env.lib s.toRoundState b →
      s.validators.hasAddress s.privAddress = true → E (.signed s.toRoundState (signVote env { s with vrfValIndex := vrf } .prevote b))) :
    Adds E s s' := by
  cases h with
  | none => exact .of_eq rfl
  | vote vrf b hb h =>
    have h' := h.adds htalk (hsigned vrf b hb)
    exact h'

theorem Adds.afterPrevote (h : Adds E s s') (htick : ∀ ti, E (.tick ti)) (r : Int) :
    Adds E s (afterPrevote r s') := by
  rcases afterPrevote_cases r s' with ⟨heq, -⟩ | heq
  · rwa [heq]
  · rw [heq]
    exact h.cons rfl (htick _) rfl

/-- What `enterPrevote` adds to the trace, the proposal block having been read or not. -/
theorem NewEvent.of_prevotes {s₀ s₁ : ConsensusState} (r : Int) (hv : Prevotes env s₀ s₁)
    (hsame : s₀.trace = s.trace ∧ s₀.height = s.height ∧ s₀.round = s.round ∧
      s₀.validators = s.validators ∧ s₀.privAddress = s.privAddress ∧
      s₀.lockedBlock = s.lockedBlock)
    (hstep : s.step ≠ .commit ∨ ∃ r, Ahead start input .propose r) :
    Adds (NewEvent env start input s) s (NeatPoS.afterPrevote r s₁) := by
  obtain ⟨htrace, hh, hr, hval, hkey, hlock⟩ := hsame
  have h : Adds (NewEvent env start input s) s₀ (NeatPoS.afterPrevote r s₁) :=
    (hv.adds (fun _ ↦ .talk) fun vrf b hb hmem ↦ .signed
      (.prevote { s₀ with vrfValIndex := vrf } b hh hr hval hkey hlock hstep hb)
      (hval ▸ hkey ▸ hmem)).afterPrevote .tick r
  rwa [Adds, htrace] at h

/-- What the body of `enterPrecommit` adds to the trace. -/
theorem NewEvent.of_precommits {s₁ : ConsensusState} {r : Int} (hr : s.round ≤ r)
    (heq : s.round = r → s.step.num < RoundStep.precommit.num)
    (ahead : s.round < r → Ahead start input .prevoteWait r) (hv : Precommits env r s s₁) :
    Adds (NewEvent env start input s) s s₁ := by
  have habstain : ∀ s₀ : ConsensusState, s₀.height = s.height → s₀.round = s.round →
      s₀.validators = s.validators → s₀.privAddress = s.privAddress →
      s₀.validators.hasAddress s₀.privAddress = true → NewEvent env start input s
        (.signed s₀.toRoundState (signVote env s₀ .precommit .zero)) :=
    fun s₀ hh hr hval hkey hmem ↦ .signed (.abstain s₀ hh hr hval hkey) (hval ▸ hkey ▸ hmem)
  cases hv with
  | abstain h => exact h.adds (fun _ ↦ .talk) (habstain s rfl rfl rfl rfl)
  | relock b hb hl h =>
    have hvote : NewVote env start input s (s.relock r b).toRoundState
        (signVote env (s.relock r b) .precommit b) :=
      .precommit _ r b hb (.inl ⟨rfl, hl⟩) hr heq ahead
    exact (h.adds (fun _ ↦ .talk) (.signed hvote)).snoc rfl (.relock r b hb hl) rfl
  | lock b hb hl hp h =>
    have hvote : NewVote env start input s (s.lock r b).toRoundState
        (signVote env (s.lock r b) .precommit b) :=
      .precommit _ r b hb (.inr ⟨rfl, hl, hp⟩) hr heq ahead
    exact (h.adds (fun _ ↦ .talk) (.signed hvote)).snoc rfl (.lock r b hb hp) rfl
  | unlock b _ hl hf h =>
    cases hf <;> exact (h.adds (fun _ ↦ .talk) (habstain _ rfl rfl rfl rfl)).snoc rfl
      (.unlock r b hl) rfl

/-- **What a move leaves behind.** -/
theorem Move.adds (hm : Move env start input s s') : Adds (NewEvent env start input s) s s' := by
  cases hm with
  | upkeep _ _ _ _ _ _ _ _ _ _ _ hl =>
    refine .of_chatter rfl hl fun e he ↦ ?_
    cases he with
    | internal | vote2Proposer => exact .talk rfl
    | tick ti => exact .tick ti
  | newRound =>
    rw [ConsensusState.enterRound]
    split <;> exact .of_eq rfl
  | lower | propose | proposal | part | signAggr | newHeight => exact .of_eq rfl
  | received _ _ _ _ _ _ _ _ _ _ _ hvote =>
    rcases hvote with rfl | ⟨_, -, h₂, -, hv, rfl⟩
    · exact .of_eq rfl
    · refine NewEvent.of_prevotes _ hv ⟨rfl, rfl, rfl, rfl, rfl, rfl⟩ (.inl fun hc ↦ ?_)
      rw [hc] at h₂
      exact absurd h₂ (by decide)
  | prevote r _ hr heq ahead hvote =>
    split at hvote
    · refine NewEvent.of_prevotes r hvote ⟨rfl, rfl, rfl, rfl, rfl, rfl⟩ ?_
      rcases lt_or_eq_of_le hr with hlt | heq'
      · exact .inr ⟨r, ahead hlt⟩
      · refine .inl fun hc ↦ ?_
        have h4 := heq heq'
        rw [hc] at h4
        exact absurd h4 (by decide)
    · subst hvote
      exact (Adds.of_eq rfl).afterPrevote .tick r
  | precommit _ _ hr heq ahead hvote =>
    exact (NewEvent.of_precommits hr heq ahead hvote).cons rfl (.tick _) rfl
  | unlock _ _ _ _ _ _ _ _ hne => exact (Adds.of_eq rfl).cons rfl (.unlock _ _ hne) rfl
  | commit _ _ hg =>
    cases hg with
    | adopt => exact .of_eq rfl
    | fetch _ hf => cases hf <;> exact .of_eq rfl
  | finalize b hstep hb hh => exact (Adds.of_eq rfl).cons rfl (.finalizeCommit b hstep hb hh) rfl
  | committed _ sealed => exact (Adds.of_eq rfl).cons rfl (.committed sealed) rfl
  | sendAggr vs b type chainID signature hvs hmaj hb =>
    exact (Adds.of_eq rfl).cons rfl (.signAggr vs b type chainID signature hvs hmaj hb) rfl

/-- Where events come from. -/
theorem Move.mem_trace (hm : Move env start input s s') (he : e ∈ s'.trace) :
    e ∈ s.trace ∨ NewEvent env start input s e := by
  obtain ⟨_, hl, hnew, -⟩ := hm.adds
  rw [hl] at he
  exact (List.mem_append.1 he).symm.imp id (hnew e)

/-- Where votes come from. -/
theorem Move.signed_cases (hm : Move env start input s s') {rs : RoundState} {v : Vote}
    (hv : .signed rs v ∈ s'.trace) :
    .signed rs v ∈ s.trace ∨ NewVote env start input s rs v := by
  rcases hm.mem_trace hv with hv | hv
  · exact .inl hv
  · cases hv with
    | talk he => exact absurd he (by simp [Event.isTalk])
    | signed h => exact .inr h

/-! ## Votes and aggregates of others -/

/-- The node is who it was, at the height where it was. -/
structure SameHeight (s s' : ConsensusState) : Prop where
  height : s'.height = s.height
  validators : s'.validators = s.validators
  privAddress : s'.privAddress = s.privAddress

/-- The node knows what it knew about the votes of the height. -/
structure SameVotes (s s' : ConsensusState) : Prop extends SameHeight s s' where
  votes : s'.votes = s.votes
  voteSignAggr : s'.voteSignAggr = s.voteSignAggr

theorem SameHeight.trans {s₁ s₂ s₃ : ConsensusState} (h : SameHeight s₁ s₂)
    (h' : SameHeight s₂ s₃) : SameHeight s₁ s₃ :=
  ⟨h'.height.trans h.height, h'.validators.trans h.validators,
    h'.privAddress.trans h.privAddress⟩

theorem SameVotes.after {s₁ s₂ s₃ : ConsensusState} (h' : SameVotes s₂ s₃)
    (h : SameVotes s₁ s₂) : SameVotes s₁ s₃ :=
  ⟨h.toSameHeight.trans h'.toSameHeight, h'.votes.trans h.votes,
    h'.voteSignAggr.trans h.voteSignAggr⟩

theorem Signs.sameVotes {type : VoteType} {b : BlockID} (h : Signs env type b s s') :
    SameVotes s s' := by
  cases h <;> exact ⟨⟨rfl, rfl, rfl⟩, rfl, rfl⟩

theorem Prevotes.sameVotes (h : Prevotes env s s') : SameVotes s s' := by
  cases h with
  | none => exact ⟨⟨rfl, rfl, rfl⟩, rfl, rfl⟩
  | vote _ _ _ h => exact h.sameVotes.after ⟨⟨rfl, rfl, rfl⟩, rfl, rfl⟩

theorem Precommits.sameVotes {r : Int} (h : Precommits env r s s') : SameVotes s s' := by
  cases h with
  | abstain h => exact h.sameVotes
  | relock _ _ _ h | lock _ _ _ _ h => exact h.sameVotes.after ⟨⟨rfl, rfl, rfl⟩, rfl, rfl⟩
  | unlock _ _ _ hf h => cases hf <;> exact h.sameVotes.after ⟨⟨rfl, rfl, rfl⟩, rfl, rfl⟩

theorem sameVotes_afterPrevote (r : Int) (s : ConsensusState) : SameVotes s (afterPrevote r s) := by
  rw [afterPrevote]
  split <;> exact ⟨⟨rfl, rfl, rfl⟩, rfl, rfl⟩

/-- An aggregate that is stored now and was not before: the input, checked. -/
structure NewAggr (env : Env) (start : ConsensusState) (input : Input) (s : ConsensusState) (r : Int)
    (t : VoteType) (sa : SignAggr) : Prop where
  first : s = start
  input : ∃ k, input = .msg (.maj23SignAggr (some sa)) k
  height : sa.height = s.height
  accepted : signAggrAccepted env.lib s.validators sa = true
  round : r = sa.round
  type : t = sa.type

/-- The move leaves the height alone.  At most the vote and the aggregate in the input are new to
the node. -/
structure Learns (env : Env) (start : ConsensusState) (input : Input) (s s' : ConsensusState) :
    Prop extends SameHeight s s' where
  votes : VotesFrom input s.votes s'.votes
  aggrs : ∀ r t sa, s'.voteSignAggr.getSignAggr r t = some sa →
    s.voteSignAggr.getSignAggr r t = some sa ∨ NewAggr env start input s r t sa

theorem SameVotes.learns (h : SameVotes s s') : Learns env start input s s' :=
  ⟨h.toSameHeight, h.votes ▸ votesFrom_refl _, fun _ _ _ hsa ↦ .inl (h.voteSignAggr ▸ hsa)⟩

/-- The move starts a new height. -/
def Restarts (env : Env) (start : ConsensusState) (input : Input) (s s' : ConsensusState) : Prop :=
  ∃ validators votes, s = start ∧ input.startsHeight s = true ∧
    getValidators env.currentEpoch.1 (lastExtra env s) = some validators ∧
    HeightVoteSet.newHeightVoteSet s.chainID ((lastExtra env s).height + 1) validators = .ok votes ∧
    s' = s.atNewHeight env validators votes

/-- **Where the votes and aggregates of a node come from**: a move starts a new height and forgets
them, or it leaves the height alone and learns at most what it was told. -/
theorem Move.learns_cases (hm : Move env start input s s') :
    Restarts env start input s s' ∨ Learns env start input s s' := by
  cases hm with
  | upkeep _ _ _ _ _ _ _ _ _ hvotes hva =>
    exact .inr ⟨⟨rfl, rfl, rfl⟩, hvotes, fun r t sa hsa ↦ .inl (hva r t sa hsa)⟩
  | newRound =>
    refine .inr (SameVotes.learns ?_)
    rw [ConsensusState.enterRound]
    split <;> exact ⟨⟨rfl, rfl, rfl⟩, rfl, rfl⟩
  | lower | propose | proposal | part | unlock | finalize | committed | sendAggr =>
    exact .inr (SameVotes.learns ⟨⟨rfl, rfl, rfl⟩, rfl, rfl⟩)
  | received _ ps' _ _ _ _ _ _ _ _ _ hvote =>
    have hread : SameVotes s ((s.putParts ps').readBlock env ps') := ⟨⟨rfl, rfl, rfl⟩, rfl, rfl⟩
    rcases hvote with rfl | ⟨s₁, -, -, -, hv, rfl⟩
    · exact .inr hread.learns
    · exact .inr ((sameVotes_afterPrevote s.round s₁).after (hv.sameVotes.after hread)).learns
  | prevote r s₁ _ _ _ hvote =>
    split at hvote
    · exact .inr ((sameVotes_afterPrevote r s₁).after hvote.sameVotes).learns
    · subst hvote
      exact .inr (sameVotes_afterPrevote r s₁).learns
  | precommit _ _ _ _ _ hvote =>
    have h := hvote.sameVotes
    exact .inr (SameVotes.learns ⟨⟨h.height, h.validators, h.privAddress⟩, h.votes, h.voteSignAggr⟩)
  | signAggr _ hin hheight hacc hs =>
    refine .inr ⟨⟨rfl, rfl, rfl⟩, votesFrom_refl _, fun r t sa' hsa ↦ ?_⟩
    rcases HeightVoteSignAggr.getSignAggr_addSignAggr hsa with hsa | ⟨rfl, hr, ht⟩
    · exact .inl hsa
    · exact .inr ⟨hs, hin, hheight, hacc, hr, ht⟩
  | commit _ _ hg =>
    cases hg with
    | adopt => exact .inr (SameVotes.learns ⟨⟨rfl, rfl, rfl⟩, rfl, rfl⟩)
    | fetch _ hf => cases hf <;> exact .inr (SameVotes.learns ⟨⟨rfl, rfl, rfl⟩, rfl, rfl⟩)
  | newHeight validators votes hs hin hval hvotes =>
    exact .inl ⟨validators, votes, hs, hin, hval, hvotes, rfl⟩

end NeatPoS
