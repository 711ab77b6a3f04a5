import NeatPoS.Consensus.Transitions

/-!
# What a step can do

Every invariant of a node is about the same few things: where the node stands, what it has signed,
what it is locked on, which aggregates and votes it holds.  This file says once what handling an
input can do to them.  `Move` lists the ways, with everything the code has checked before; the main
result, `handle_path`, is that from the first instruction of a step to its last, or to the panic
that ends it, a node follows a path of moves.

* A move is as small as the invariants allow.  `enterPrevote` and `enterPrecommit` are one move each
  although they sign a vote and update the step: between the two, the node has voted in its round
  and does not know it.
* Moves that go to a later round without passing through `enterNewRound` exist: `handleTimeout`
  accepts a timeout of a later round.  Each carries the timeout that causes it (`Ahead`).
* The one move back is `Move.lower`, and `lowerRound` says when it is made.
-/

set_option autoImplicit false

namespace NeatPoS

open Stateful Relation

variable {s s' : ConsensusState} {r : Int} {height : Nat}

/-! ## The pieces of a move -/

/-- The input is a timeout of the given step for a later round of the height. -/
def Ahead (start : ConsensusState) (input : Input) (step : RoundStep) (round : Int) : Prop :=
  input = .timeout ⟨start.height, round, step⟩ ∧ start.round < round

/-- An event that says nothing about votes or locks: a message, or a timeout that is scheduled. -/
inductive Chatter (start : ConsensusState) (input : Input) (s : ConsensusState) : Event → Prop
  | internal (m : Msg) : Chatter start input s (.internal m)
  | vote2Proposer (v : Vote) (key : String) : Chatter start input s (.vote2Proposer v key)
  | tick (ti : TimeoutInfo) (height : ti.height = s.height) (round : s.round ≤ ti.round)
      (ahead : s.round < ti.round → Ahead start input .waitForMinerBlock ti.round) :
      Chatter start input s (.tick ti)

/-- An event that announces a vote. -/
def Event.isTalk : Event → Bool
  | .internal _ => true
  | .vote2Proposer _ _ => true
  | _ => false

/-- How `signAddVote` ends: the node is no validator, or the vote is signed and announced. -/
inductive Signs (env : Env) (type : VoteType) (b : BlockID) (s : ConsensusState) :
    ConsensusState → Prop
  | skip : Signs env type b s s
  | cast (vrf : Int) (talk : List Event) (htalk : ∀ e ∈ talk, e.isTalk = true)
      (hmem : s.validators.hasAddress s.privAddress = true) :
      Signs env type b s
        { s with
          vrfValIndex := vrf
          trace := talk ++ .signed s.toRoundState (signVote env s type b) :: s.trace }

/-- What a node may prevote. -/
inductive PrevoteFor (lib : Neatlib) (rs : RoundState) (b : BlockID) : Prop
  | locked (hl : rs.lockedBlock ≠ none) (hash : TdmBlock.hash lib rs.lockedBlock = .ok b.hash)
      (parts : b.partsHeader = PartSet.header rs.lockedBlockParts)
  | nil (hl : rs.lockedBlock = none) (hb : b = .zero)
  | proposed (hl : rs.lockedBlock = none) (hp : rs.proposalBlock ≠ none)
      (hash : TdmBlock.hash lib rs.proposalBlock = .ok b.hash)
      (parts : b.partsHeader = PartSet.header rs.proposalBlockParts)

/-- How `defaultDoPrevote` ends; it may panic before it votes. -/
inductive Prevotes (env : Env) (s : ConsensusState) : ConsensusState → Prop
  | none (vrf : Int) : Prevotes env s { s with vrfValIndex := vrf }
  | vote (vrf : Int) (b : BlockID) {s' : ConsensusState} (hb : PrevoteFor env.lib s.toRoundState b)
      (h : Signs env .prevote b { s with vrfValIndex := vrf } s') : Prevotes env s s'

/-- The end of `enterPrevote`: the node waits for prevotes, unless it already does. -/
def afterPrevote (r : Int) (s : ConsensusState) : ConsensusState :=
  if s.round = r ∧ RoundStep.prevoteWait.num ≤ s.step.num then s
  else
    { s with
      round := r, step := .prevoteWait
      trace := .tick ⟨s.height, r, .prevoteWait⟩ :: s.trace }

/-- The majority of prevotes for a round that the node knows of. -/
def RoundState.polka (rs : RoundState) (r : Int) : Option BlockID :=
  SignAggr.twoThirdsMajority (rs.voteSignAggr.prevotes r)

/-- Locking the proposal block. -/
def ConsensusState.lock (r : Int) (b : BlockID) (s : ConsensusState) : ConsensusState :=
  { s with
    lockedRound := r
    lockedBlock := s.proposalBlock
    lockedBlockParts := s.proposalBlockParts
    lockedBlockShared := true, lockedPartsShared := true
    trace := .polka s.toRoundState r b .lock :: s.trace }

/-- Locking the locked block once more. -/
def ConsensusState.relock (r : Int) (b : BlockID) (s : ConsensusState) : ConsensusState :=
  { s with lockedRound := r, trace := .polka s.toRoundState r b .relock :: s.trace }

/-- Giving up the lock. -/
def ConsensusState.unlock (r : Int) (b : BlockID) (s : ConsensusState) : ConsensusState :=
  { s with
    lockedRound := -1, lockedBlock := none, lockedBlockParts := none
    lockedBlockShared := false, lockedPartsShared := false
    trace := .polka s.toRoundState r b .unlock :: s.trace }

/-- How `fetchBlock` ends, if it is called: it may panic in the middle. -/
inductive Fetches (header : PartSetHeader) (s : ConsensusState) : ConsensusState → Prop
  | not : Fetches header s s
  | half : Fetches header s { s with proposalBlock := none, lockedBlockShared := false }
  | all (parts : PartSet) (hp : PartSet.header (some parts) = header) :
      Fetches header s
        { s with
          proposalBlock := none, lockedBlockShared := false
          proposalBlockParts := some parts, lockedPartsShared := false }

/-- How the body of `enterPrecommit` ends. -/
inductive Precommits (env : Env) (r : Int) (s : ConsensusState) : ConsensusState → Prop
  | abstain {s' : ConsensusState} (h : Signs env .precommit .zero s s') : Precommits env r s s'
  | relock (b : BlockID) {s' : ConsensusState} (hb : s.polka r = some b)
      (hl : TdmBlock.hashesTo env.lib s.lockedBlock b.hash = .ok true)
      (h : Signs env .precommit b (s.relock r b) s') : Precommits env r s s'
  | lock (b : BlockID) {s' : ConsensusState} (hb : s.polka r = some b)
      (hl : TdmBlock.hashesTo env.lib s.lockedBlock b.hash = .ok false)
      (hp : TdmBlock.hashesTo env.lib s.proposalBlock b.hash = .ok true)
      (h : Signs env .precommit b (s.lock r b) s') : Precommits env r s s'
  | unlock (b : BlockID) {s₁ s' : ConsensusState} (hb : s.polka r = some b)
      (hl : TdmBlock.hashesTo env.lib s.lockedBlock b.hash = .ok false)
      (hf : Fetches b.partsHeader (s.unlock r b) s₁)
      (h : Signs env .precommit .zero s₁ s') : Precommits env r s s'

/-- How the body of `enterCommit` ends. -/
inductive Gathers (env : Env) (s : ConsensusState) : ConsensusState → Prop
  | adopt (b : BlockID)
      (hb : SignAggr.twoThirdsMajority (s.voteSignAggr.precommits s.round) = some b)
      (hl : TdmBlock.hashesTo env.lib s.lockedBlock b.hash = .ok true) :
      Gathers env s
        { s with
          proposalBlock := s.lockedBlock
          proposalBlockParts := s.lockedBlockParts
          lockedBlockShared := true
          lockedPartsShared := true }
  | fetch (header : PartSetHeader) {s' : ConsensusState} (h : Fetches header s s') : Gathers env s s'

/-- The beginning of `enterNewRound`; the proposal of round 0 may have arrived early and is kept. -/
def ConsensusState.enterRound (r : Int) (s : ConsensusState) : ConsensusState :=
  if r != 0 then clearRound { s with round := r, step := .newRound }
  else { s with round := r, step := .newRound }

/-- Storing the parts of the proposal, which may be the parts of the locked block, too. -/
def ConsensusState.putParts (ps : PartSet) (s : ConsensusState) : ConsensusState :=
  { s with
    proposalBlockParts := some ps
    lockedBlockParts := if s.lockedPartsShared then some ps else s.lockedBlockParts }

/-- Reading the proposal block off its parts. -/
def ConsensusState.readBlock (env : Env) (ps : PartSet) (s : ConsensusState) : ConsensusState :=
  { s with
    proposalBlock := env.lib.blockFromBytes ps.getReader, lockedBlockShared := false }

/-- The votes have been kept or dropped, and only the vote in the input may be new. -/
def VotesFrom (input : Input) (votes votes' : HeightVoteSet) : Prop :=
  ∀ P : Vote → Prop, (∀ v key, input = .msg (.vote (some v)) key → P v) → votes.AllVotes P →
    votes'.AllVotes P ∧ votes'.height = votes.height

/-- The aggregates have been kept or dropped. -/
def AggrsFrom (va va' : HeightVoteSignAggr) : Prop :=
  ∀ r t sa, va'.getSignAggr r t = some sa → va.getSignAggr r t = some sa

/-- The round that the node goes back to if it handles the input, if it does: the input is a
proposal for an earlier round of the height, signed by the proposer of that round, and as far as
the node remembers there was none. -/
def lowerRound (env : Env) (cs : ConsensusState) : Input → Option Int
  | .msg (.proposal (some p)) _ =>
    match proposerByRound env p.round cs with
    | .ok proposer _ =>
      if proposalApplies cs p && proposalSigned env cs proposer p && p.round != cs.round &&
          pastRoundOpen cs p then some p.round
      else none
    | .error _ _ => none
  | _ => none

/-- The proposal is stored at once when the node handles it: it is for the node's own round. -/
def storesProposal (env : Env) (cs : ConsensusState) (p : Proposal) : Bool :=
  match proposerByRound env p.round cs with
  | .ok proposer _ =>
    proposalApplies cs p && proposalSigned env cs proposer p && p.round == cs.round
  | .error _ _ => false

/-- The parts of the proposal block, if the input brings the last of them. -/
def completedParts (env : Env) (cs : ConsensusState) : Input → Option PartSet
  | .msg (.blockPart height round (some part)) key =>
    cs.proposalBlockParts.bind fun ps =>
      match ps.addPart env.lib part (key != "") with
      | .ok (ps', true, _) =>
        if cs.height = height ∧ cs.round = round ∧ ps'.isComplete then some ps' else none
      | _ => none
  | _ => none

/-- The state at the beginning of a height. -/
def ConsensusState.atNewHeight (env : Env) (validators : ValidatorSet) (votes : HeightVoteSet)
    (s : ConsensusState) : ConsensusState :=
  { s with
    height := (lastExtra env s).height + 1, round := 0, step := .newHeight, validators
    proposal := none, proposalBlock := none, proposalBlockParts := none, proposerPeerKey := ""
    lockedRound := -1, lockedBlock := none, lockedBlockParts := none
    votes, voteSignAggr := .newHeightVoteSignAggr, commitRound := -1
    prevoteMaj23SignAggr := none, precommitMaj23SignAggr := none
    epoch := env.currentEpoch.1, nextEpoch := env.currentEpoch.2, ncExtra := lastExtra env s
    vrfValIndex := -1, pastRoundStates := []
    blockFromMiner := s.blockFromMiner.filter fun b => (lastExtra env s).height + 1 ≤ b.numberU64
    lockedBlockShared := false, lockedPartsShared := false }

/-! ## The moves -/

/-- What the code can do between two states of a step.  `start` is the state in which the step
began, and `input` is what it handles. -/
inductive Move (env : Env) (start : ConsensusState) (input : Input) (s : ConsensusState) :
    ConsensusState → Prop
  /-- Bookkeeping, messages and timers. -/
  | upkeep (vrf : Int) (te : NeatconExtra) (past : List (Int × Nat)) (miner : Option Block)
      (pv pc : Option SignAggr) (votes : HeightVoteSet) (va : HeightVoteSignAggr) (l : List Event)
      (hvotes : VotesFrom input s.votes votes) (hva : AggrsFrom s.voteSignAggr va)
      (hl : ∀ e ∈ l, Chatter start input s e) :
      Move env start input s
        { s with
          vrfValIndex := vrf, ncExtra := te, pastRoundStates := past, blockFromMiner := miner
          prevoteMaj23SignAggr := pv, precommitMaj23SignAggr := pc
          votes := votes, voteSignAggr := va, trace := l ++ s.trace }
  /-- `enterNewRound`. -/
  | newRound (r : Int) (hr : s.round ≤ r) (heq : s.round = r → s.step = .newHeight)
      (hcommit : s.step = .commit → ∃ st r', Ahead start input st r') :
      Move env start input s (s.enterRound r)
  /-- `enterLowerRound`. -/
  | lower (r : Int) (hr : lowerRound env start input = some r) (hlt : r < s.round)
      (hs : s.toRoundState = start.toRoundState) :
      Move env start input s (clearRound { s with round := r, step := .newRound })
  /-- `enterPropose`. -/
  | propose (r : Int) (hr : s.round ≤ r)
      (heq : s.round = r → s.step.num < RoundStep.propose.num)
      (ahead : s.round < r → Ahead start input .waitForMinerBlock r) :
      Move env start input s { s with round := r, step := .propose }
  /-- A proposal is stored; the allocation of its parts may panic. -/
  | proposal (p : Proposal) (parts : Option PartSet) (shared : Bool) (key : String)
      (hin : ∃ k, input = .msg (.proposal (some p)) k) (hnone : s.proposal = none)
      (hheight : p.height = s.height) (hstep : s.step.num < RoundStep.commit.num)
      (hblock : s.proposalBlock = none ∨
        s.toRoundState = start.toRoundState ∧ storesProposal env start p = true)
      (hparts : parts = s.proposalBlockParts ∧ shared = s.lockedPartsShared ∨
        PartSet.hasHeader parts p.blockPartsHeader = true ∧ shared = false) :
      Move env start input s
        { s with
          proposal := some p, proposalBlockParts := parts, lockedPartsShared := shared
          proposerPeerKey := key }
  /-- A part is stored. -/
  | part (ps ps' : PartSet) (part : Part) (verify : Bool) (err : Option PartSetError)
      (hps : s.proposalBlockParts = some ps)
      (hadd : ps.addPart env.lib part verify = .ok (ps', true, err)) :
      Move env start input s (s.putParts ps')
  /-- The last part is stored, and the block may be prevoted. -/
  | received (ps ps' : PartSet) (part : Part) (verify : Bool) (err : Option PartSetError)
      (s' : ConsensusState) (hin : ∃ r k, input = .msg (.blockPart s.height r (some part)) k)
      (hs : s = start) (hps : s.proposalBlockParts = some ps)
      (hadd : ps.addPart env.lib part verify = .ok (ps', true, err))
      (hcomplete : completedParts env start input = some ps')
      (hvote : s' = (s.putParts ps').readBlock env ps' ∨
        ∃ s₁, RoundStep.propose.num ≤ s.step.num ∧ s.step.num ≤ RoundStep.prevoteWait.num ∧
          s.proposal ≠ none ∧ Prevotes env ((s.putParts ps').readBlock env ps') s₁ ∧
          s' = afterPrevote s.round s₁) :
      Move env start input s s'
  /-- `enterPrevote`, for any other reason. -/
  | prevote (r : Int) (s₁ : ConsensusState) (hr : s.round ≤ r)
      (heq : s.round = r → s.step.num ≤ RoundStep.propose.num)
      (ahead : s.round < r → Ahead start input .propose r)
      (hvote : if isProposalComplete s then Prevotes env s s₁ else s₁ = s) :
      Move env start input s (afterPrevote r s₁)
  /-- `enterPrecommit`. -/
  | precommit (r : Int) (s₁ : ConsensusState) (hr : s.round ≤ r)
      (heq : s.round = r → s.step.num < RoundStep.precommit.num)
      (ahead : s.round < r → Ahead start input .prevoteWait r)
      (hvote : Precommits env r s s₁) :
      Move env start input s
        { s₁ with
          round := r, step := .precommitWait
          trace := .tick ⟨s₁.height, r, .precommitWait⟩ :: s₁.trace }
  /-- An aggregate is stored. -/
  | signAggr (sa : SignAggr) (hin : ∃ k, input = .msg (.maj23SignAggr (some sa)) k)
      (hheight : sa.height = s.height) (hacc : signAggrAccepted env.lib s.validators sa = true)
      (hs : s = start) :
      Move env start input s { s with voteSignAggr := s.voteSignAggr.addSignAggr sa }
  /-- An aggregate of prevotes of the node's round ends an older lock. -/
  | unlock (sa : SignAggr) (hin : ∃ k, input = .msg (.maj23SignAggr (some sa)) k)
      (hheight : sa.height = s.height) (hacc : signAggrAccepted env.lib s.validators sa = true)
      (htype : sa.type = .prevote) (hround : sa.round = s.round) (hlocked : s.lockedBlock ≠ none)
      (hlt : s.lockedRound < sa.round)
      (hne : TdmBlock.hashesTo env.lib s.lockedBlock sa.maj23.hash = .ok false) :
      Move env start input s (s.unlock sa.round sa.maj23)
  /-- `enterCommit`. -/
  | commit (s₁ : ConsensusState) (hstep : s.step.num < RoundStep.commit.num)
      (hg : Gathers env s s₁) :
      Move env start input s { s₁ with step := .commit, commitRound := s.round }
  /-- The hash check of `tryFinalizeCommit` passes. -/
  | finalize (b : BlockID) (hstep : s.step = .commit)
      (hb : SignAggr.twoThirdsMajority (s.voteSignAggr.precommits s.commitRound) = some b)
      (hh : TdmBlock.hashesTo env.lib s.proposalBlock b.hash = .ok true) :
      Move env start input s { s with trace := .finalizeCommit s.toRoundState b :: s.trace }
  /-- The block is handed to the backend. -/
  | committed (block sealed : TdmBlock) (te : NeatconExtra) (commit : Commit)
      (hstep : s.step = .commit) (hblock : s.proposalBlock = some block)
      (hte : block.ncExtra = some te) (hsealed : sealBlock env block te commit = .ok sealed) :
      Move env start input s
        { s with
          proposalBlock := some sealed
          lockedBlock := if s.lockedBlockShared then some sealed else s.lockedBlock
          trace := .committed sealed :: s.trace }
  /-- The votes of a majority are sent as an aggregate. -/
  | sendAggr (vs : VoteSet) (b : BlockID) (type : VoteType) (chainID : String) (signature : Bytes)
      (hvs : s.votes.getVoteSet s.round type = some vs) (hmaj : vs.maj23 = some b)
      (hb : b.isZero = false) :
      Move env start input s
        { s with
          trace := .signAggr (SignAggr.makeSignAggr s.height s.round type b chainID
            (signBitArray s.validators.size (majorityVotes vs b)) signature) :: s.trace }
  /-- `StartNewHeight`. -/
  | newHeight (validators : ValidatorSet) (votes : HeightVoteSet) (hs : s = start)
      (hin : input.startsHeight s = true)
      (hval : getValidators env.currentEpoch.1 (lastExtra env s) = some validators)
      (hvotes : HeightVoteSet.newHeightVoteSet s.chainID ((lastExtra env s).height + 1) validators =
        .ok votes) :
      Move env start input s (s.atNewHeight env validators votes)

/-- A sequence of moves. -/
abbrev Path (env : Env) (start : ConsensusState) (input : Input) :
    ConsensusState → ConsensusState → Prop :=
  ReflTransGen (Move env start input)

variable {env : Env} {start s : ConsensusState} {input : Input}

theorem votesFrom_refl (votes : HeightVoteSet) : VotesFrom input votes votes :=
  fun _ _ h ↦ ⟨h, rfl⟩

theorem aggrsFrom_refl (va : HeightVoteSignAggr) : AggrsFrom va va := fun _ _ _ h ↦ h

theorem isComplete_of_completedParts {cs : ConsensusState} {ps : PartSet}
    (h : completedParts env cs input = some ps) : ps.isComplete = true := by
  unfold completedParts at h
  split at h
  · obtain ⟨_, -, h⟩ := Option.bind_eq_some_iff.1 h
    split at h
    · split at h
      · rename_i hc
        rw [← Option.some.inj h]
        exact hc.2.2
      · cases h
    · cases h
  · cases h

/-! ## Proposer selection and messages -/

@[simp] theorem endState_emit_bind {α : Type} (e : Event) (f : Unit → Node α) (s : ConsensusState) :
    endState (emit e >>= f) s = endState (f ()) { s with trace := e :: s.trace } := rfl

@[simp] theorem endState_scheduleTimeout_bind {α : Type} (h : Nat) (r : Int) (st : RoundStep)
    (f : Unit → Node α) (s : ConsensusState) :
    endState (scheduleTimeout h r st >>= f) s =
      endState (f ()) { s with trace := .tick ⟨h, r, st⟩ :: s.trace } := rfl

@[simp] theorem endState_updateRoundStep (r : Int) (st : RoundStep) (s : ConsensusState) :
    endState (updateRoundStep r st) s = { s with round := r, step := st } := rfl

@[simp] theorem endState_updateRoundStep_bind {α : Type} (r : Int) (st : RoundStep)
    (f : Unit → Node α) (s : ConsensusState) :
    endState (updateRoundStep r st >>= f) s = endState (f ()) { s with round := r, step := st } :=
  rfl

/-- Selecting the proposer writes nothing but the cached index. -/
theorem endState_proposerByRound (env : Env) (r : Int) (s : ConsensusState) :
    ∃ i, endState (proposerByRound env r) s = { s with vrfValIndex := i } := by
  simp only [proposerByRound, endState_get_bind]
  split
  · rw [endState_fromExcept_bind]
    split
    · rename_i idx _
      exact ⟨idx, by rw [endState_modify_bind, endState_fromExcept]⟩
    · exact ⟨s.vrfValIndex, rfl⟩
  · refine ⟨s.vrfValIndex, ?_⟩
    split
    · rfl
    · split
      · rfl
      · rw [endState_fromExcept]

theorem endState_isProposer (env : Env) (s : ConsensusState) :
    ∃ i, endState (isProposer env) s = { s with vrfValIndex := i } := by
  obtain ⟨i, hi⟩ := endState_proposerByRound env s.round s
  refine ⟨i, ?_⟩
  simp only [isProposer, endState_get_bind]
  rcases endState_bind_cases (proposerByRound env s.round)
    (fun proposer ↦ (pure (proposer.address == s.privAddress) : Node Bool)) s with h | ⟨_, -, h⟩
  · rw [h, hi]
  · rw [h, endState_pure, hi]

/-- What follows the question whether the node proposes. -/
theorem endState_isProposer_bind {α : Type} (env : Env) (f : Bool → Node α) (s : ConsensusState) :
    ∃ i, endState (isProposer env >>= f) s = { s with vrfValIndex := i } ∨
      ∃ p, endState (isProposer env >>= f) s = endState (f p) { s with vrfValIndex := i } := by
  obtain ⟨i, hi⟩ := endState_isProposer env s
  refine ⟨i, ?_⟩
  rcases endState_bind_cases (isProposer env) f s with h | ⟨p, -, h⟩
  · exact .inl (h.trans hi)
  · exact .inr ⟨p, by rw [h, hi]⟩

/-- What a validator's `signAddVote` leaves behind. -/
theorem endState_signAddVote (env : Env) (type : VoteType) (b : BlockID)
    (hmem : s.validators.hasAddress s.privAddress = true) :
    ∃ vrf talk, (∀ e ∈ talk, e.isTalk = true) ∧
      endState (signAddVote env type b) s =
        { s with
          vrfValIndex := vrf
          trace := talk ++ .signed s.toRoundState (signVote env s type b) :: s.trace } := by
  simp only [signAddVote, endState_get_bind]
  rw [if_neg (by simp [hmem]), endState_emit_bind]
  obtain ⟨i, h | ⟨_, h⟩⟩ := endState_isProposer_bind env (fun proposer ↦
    if !proposer then
      if s.proposerPeerKey ≠ "" then
        emit (.vote2Proposer (signVote env s type b) s.proposerPeerKey)
      else pure ()
    else emit (.internal (.vote (some (signVote env s type b)))))
    { s with trace := .signed s.toRoundState (signVote env s type b) :: s.trace }
  · rw [h]
    exact ⟨i, [], by simp, rfl⟩
  rw [h]
  split
  · split
    · exact ⟨i, [_], by simp [Event.isTalk], rfl⟩
    · exact ⟨i, [], by simp, rfl⟩
  · exact ⟨i, [_], by simp [Event.isTalk], rfl⟩

theorem signAddVote_signs (env : Env) (type : VoteType) (b : BlockID) (s : ConsensusState) :
    Signs env type b s (endState (signAddVote env type b) s) := by
  by_cases hmem : s.validators.hasAddress s.privAddress = true
  · obtain ⟨vrf, talk, htalk, h⟩ := endState_signAddVote env type b hmem
    rw [h]
    exact .cast vrf talk htalk hmem
  · simp only [signAddVote, endState_get_bind]
    rw [if_pos (by simpa using hmem)]
    exact .skip

/-! ## Voting -/

theorem defaultDoPrevote_prevotes (env : Env) (s : ConsensusState) :
    Prevotes env s (endState (defaultDoPrevote env) s) := by
  have hnil : ∀ i, s.lockedBlock = none →
      Prevotes env s (endState (signAddVote env .prevote .zero) { s with vrfValIndex := i }) :=
    fun i hl ↦ .vote i .zero (.nil hl rfl) (signAddVote_signs ..)
  simp only [defaultDoPrevote, endState_get_bind]
  split
  · rename_i hl
    rw [endState_fromExcept_bind]
    split
    · rename_i hash hhash
      exact .vote s.vrfValIndex _ (.locked (by simpa [Option.isSome_iff_ne_none] using hl) hhash rfl)
        (signAddVote_signs ..)
    · exact .none s.vrfValIndex
  · rename_i hl
    have hl' : s.lockedBlock = none := by simpa using hl
    split
    · exact hnil s.vrfValIndex hl'
    rename_i block hblock
    rw [endState_fromExcept_bind]
    split
    · split
      · exact hnil s.vrfValIndex hl'
      obtain ⟨i, h | ⟨_, h⟩⟩ := endState_isProposer_bind env _ s
      · rw [h]
        exact .none i
      rw [h]
      split
      · exact hnil i hl'
      rw [endState_fromExcept_bind]
      split
      · split
        · exact hnil i hl'
        rw [endState_fromExcept_bind]
        split
        · rename_i hash hhash
          exact .vote i _ (.proposed hl' (by simp [hblock]) hhash rfl)
            (signAddVote_signs ..)
        · exact .none i
      · exact .none i
    · exact .none s.vrfValIndex

/-- Voting does not move the node. -/
theorem Signs.frame {type : VoteType} {b : BlockID} (h : Signs env type b s s') :
    s'.height = s.height ∧ s'.round = s.round ∧ s'.step = s.step := by
  cases h <;> exact ⟨rfl, rfl, rfl⟩

theorem Signs.lock_eq {type : VoteType} {b : BlockID} (h : Signs env type b s s') :
    s'.lockedBlock = s.lockedBlock ∧ s'.lockedRound = s.lockedRound := by
  cases h <;> exact ⟨rfl, rfl⟩

theorem Prevotes.frame (h : Prevotes env s s') :
    s'.height = s.height ∧ s'.round = s.round ∧ s'.step = s.step := by
  cases h with
  | none => exact ⟨rfl, rfl, rfl⟩
  | vote _ _ _ h => exact h.frame

theorem Prevotes.lock_eq (h : Prevotes env s s') :
    s'.lockedBlock = s.lockedBlock ∧ s'.lockedRound = s.lockedRound := by
  cases h with
  | none => exact ⟨rfl, rfl⟩
  | vote _ _ _ h => exact h.lock_eq

theorem afterPrevote_cases (r : Int) (s : ConsensusState) :
    (afterPrevote r s = s ∧ s.round = r ∧ RoundStep.prevoteWait.num ≤ s.step.num) ∨
      afterPrevote r s =
        { s with
          round := r, step := .prevoteWait
          trace := .tick ⟨s.height, r, .prevoteWait⟩ :: s.trace } := by
  rw [afterPrevote]
  split
  · rename_i h
    exact .inl ⟨rfl, h⟩
  · exact .inr rfl

theorem endState_enterPrevoteWait (height : Nat) (r : Int) (s : ConsensusState)
    (hheight : s.height = height) (hr : s.round ≤ r) :
    endState (enterPrevoteWait height r) s = afterPrevote r s := by
  simp only [enterPrevoteWait, endState_get_bind, afterPrevote]
  subst hheight
  by_cases h : s.round = r ∧ RoundStep.prevoteWait.num ≤ s.step.num
  · rw [if_pos (.inr (.inr h)), if_pos h, endState_pure]
  rw [if_neg, if_neg h, endState_scheduleTimeout_bind, endState_updateRoundStep]
  rintro (h' | h' | h')
  · exact h' rfl
  · omega
  · exact h h'

/-- The end of `enterPrevote`, on the state that the vote has left. -/
theorem endState_afterPrevote (r : Int) (s : ConsensusState) (hr : s.round ≤ r) :
    endState (do
      let cs ← get
      guarded (cs.step == .propose) (updateRoundStep r .prevote)
      enterPrevoteWait s.height r) s = afterPrevote r s := by
  rw [endState_get_bind]
  by_cases h : s.step = .propose
  · have hcond : ¬ (s.round = r ∧ RoundStep.prevoteWait.num ≤ s.step.num) := by
      rw [h]
      simp [RoundStep.num]
    rw [guarded, h, if_pos (by decide), endState_updateRoundStep_bind]
    refine (endState_enterPrevoteWait _ _ { s with round := r, step := .prevote } rfl
      (le_refl r)).trans ?_
    rw [afterPrevote, afterPrevote, if_neg hcond, if_neg (by simp [RoundStep.num])]
  · rw [guarded, if_neg (by simpa using h)]
    exact endState_enterPrevoteWait _ _ _ rfl hr

/-- What `enterPrevote` does once it has passed its guard. -/
theorem endState_enterPrevote (env : Env) (s : ConsensusState) (hr : s.round ≤ r)
    (heq : s.round = r → s.step.num ≤ RoundStep.prevoteWait.num) :
    ∃ s₁, (if isProposalComplete s then Prevotes env s s₁ else s₁ = s) ∧
      endState (enterPrevote env s.height r) s = afterPrevote r s₁ := by
  simp only [enterPrevote, endState_get_bind]
  rw [if_neg (by
    rintro (h | h | ⟨h, h'⟩)
    · exact h rfl
    · omega
    · exact absurd (heq h) (by omega)), endState_deferred]
  by_cases hc : isProposalComplete s = true
  · rw [if_pos hc]
    have hv := defaultDoPrevote_prevotes env s
    obtain ⟨h₁, h₂, h₃⟩ := hv.frame
    refine ⟨_, by rw [if_pos hc]; exact hv, ?_⟩
    rw [← h₁]
    exact endState_afterPrevote r _ (h₂ ▸ hr)
  · rw [if_neg hc]
    refine ⟨s, by rw [if_neg hc], ?_⟩
    exact endState_afterPrevote r s hr

theorem enterPrevote_path (s : ConsensusState)
    (heq : s.round = r → s.step.num ≤ RoundStep.propose.num)
    (ahead : s.round < r → Ahead start input .propose r) :
    Leads (Path env start input) (enterPrevote env height r) s := by
  by_cases hg : s.height ≠ height ∨ r < s.round ∨
      (s.round = r ∧ RoundStep.prevoteWait.num < s.step.num)
  · exact Leads.of_eq (by simp only [enterPrevote, endState_get_bind, if_pos hg, endState_pure])
  simp only [not_or, not_lt, ne_eq, not_not] at hg
  obtain ⟨rfl, hr, -⟩ := hg
  obtain ⟨s₁, hv, he⟩ := endState_enterPrevote env s hr
    fun h ↦ (heq h).trans (by decide)
  rw [Leads, he]
  exact .single (.prevote r s₁ hr heq ahead hv)

theorem fetchBlock_fetches (header : PartSetHeader) (s : ConsensusState) :
    Fetches header s (endState (fetchBlock header) s) := by
  simp only [fetchBlock, endState_modify_bind, endState_fromExcept_bind]
  split
  · rename_i parts hparts
    exact .all parts (PartSet.newPartSetFromHeader_eq_ok hparts)
  · exact .half

theorem guarded_fetchBlock_fetches (c : Bool) (header : PartSetHeader) (s : ConsensusState) :
    Fetches header s (endState (guarded c (fetchBlock header)) s) := by
  rw [endState_guarded]
  split
  · exact fetchBlock_fetches header s
  · exact .not

@[simp] theorem endState_unlock_bind {α : Type} (r : Int) (b : BlockID) (f : Unit → Node α)
    (s : ConsensusState) :
    endState (unlock r b >>= f) s = endState (f ()) (s.unlock r b) := rfl

theorem hashesTo_of_isEmpty {lib : Neatlib} {block : Option TdmBlock} {h : Bytes}
    (hh : h.isEmpty = true) : TdmBlock.hashesTo lib block h = .ok false := by
  rw [TdmBlock.hashesTo, if_pos hh]

/-- Every way through `enterPrecommitBody`, panics included. -/
theorem enterPrecommitBody_precommits (env : Env) (r : Int) (s : ConsensusState) :
    Precommits env r s (endState (enterPrecommitBody env r) s) := by
  have hpanic : Precommits env r s s := .abstain .skip
  simp only [enterPrecommitBody, endState_get_bind]
  split
  · exact .abstain (signAddVote_signs ..)
  rename_i b hb
  split
  · exact hpanic
  split
  · rename_i hempty
    by_cases hl : s.lockedBlock.isSome = true
    · rw [guarded, if_pos hl, endState_unlock_bind]
      exact .unlock b hb (hashesTo_of_isEmpty hempty) .not (signAddVote_signs ..)
    · rw [guarded, if_neg hl]
      exact .abstain (signAddVote_signs ..)
  · rw [endState_fromExcept_bind]
    split
    · rename_i locked hlocked
      cases locked with
      | true => exact .relock b hb hlocked (signAddVote_signs ..)
      | false =>
        rw [if_neg (by simp), endState_fromExcept_bind]
        split
        · rename_i proposed hproposed
          split
          · rw [endState_fromExcept_bind]
            split
            · split
              · exact hpanic
              · exact .lock b hb hlocked hproposed (signAddVote_signs ..)
            · exact hpanic
          · rw [endState_unlock_bind]
            have hf := guarded_fetchBlock_fetches
              (!PartSet.hasHeader s.proposalBlockParts b.partsHeader) b.partsHeader
              (s.unlock r b)
            rcases endState_bind_cases (guarded
              (!PartSet.hasHeader s.proposalBlockParts b.partsHeader)
              (fetchBlock b.partsHeader)) (fun _ ↦ signAddVote env .precommit .zero)
              (s.unlock r b) with h | ⟨_, -, h⟩
            · rw [h]
              exact .unlock b hb hlocked hf .skip
            · rw [h]
              exact .unlock b hb hlocked hf (signAddVote_signs ..)
        · exact hpanic
    · exact hpanic

theorem Fetches.lock_eq {header : PartSetHeader} (h : Fetches header s s') :
    s'.lockedBlock = s.lockedBlock ∧ s'.lockedRound = s.lockedRound ∧ s'.trace = s.trace ∧
      (s'.lockedBlockShared = true → s.lockedBlockShared = true) := by
  cases h with
  | not => exact ⟨rfl, rfl, rfl, id⟩
  | half | all => exact ⟨rfl, rfl, rfl, fun h ↦ absurd h (by simp)⟩

theorem Fetches.frame {header : PartSetHeader} (h : Fetches header s s') :
    s'.height = s.height ∧ s'.round = s.round ∧ s'.step = s.step := by
  cases h <;> exact ⟨rfl, rfl, rfl⟩

theorem Precommits.frame (h : Precommits env r s s') :
    s'.height = s.height ∧ s'.round = s.round := by
  cases h with
  | abstain h | relock _ _ _ h | lock _ _ _ _ h => exact ⟨h.frame.1, h.frame.2.1⟩
  | unlock _ _ _ hf h => exact ⟨h.frame.1.trans hf.frame.1, h.frame.2.1.trans hf.frame.2.1⟩

theorem enterPrecommit_path (s : ConsensusState)
    (ahead : s.round < r → Ahead start input .prevoteWait r) :
    Leads (Path env start input) (enterPrecommit env height r) s := by
  rw [Leads]
  simp only [enterPrecommit, endState_get_bind]
  split
  · exact .refl
  rename_i hg
  simp only [not_or, not_lt, ne_eq, not_not, not_and, not_le] at hg
  obtain ⟨rfl, hr, heq⟩ := hg
  have hp := enterPrecommitBody_precommits env r s
  rw [endState_deferred, endState_updateRoundStep_bind]
  simp only [enterPrecommitWait, endState_get_bind]
  rw [if_neg (by simp [hp.frame.1, RoundStep.num]), endState_scheduleTimeout_bind,
    endState_updateRoundStep, ← hp.frame.1]
  exact .single (.precommit r _ hr heq ahead hp)

/-! ## Committing -/

theorem finalizeCommit_path (height : Nat) (hstep : s.step = .commit) :
    Leads (Path env start input) (finalizeCommit env height) s := by
  rw [Leads]
  simp only [finalizeCommit, endState_get_bind]
  split
  · exact .refl
  split
  · exact .refl
  rename_i precommits _
  split
  · exact .refl
  split
  · exact .refl
  rw [endState_fromExcept_bind]
  split
  · split
    · rename_i block te hblock hte _
      rw [endState_fromExcept_bind]
      split
      · split
        · exact .refl
        split
        · rw [endState_fromExcept_bind]
          split
          · rename_i sealed hsealed
            rw [hblock] at hte
            exact .single (.committed block sealed te precommits.makeCommit hstep hblock
              hte hsealed)
          · exact .refl
        · exact .refl
      · exact .refl
    · exact .refl
  · exact .refl

theorem tryFinalizeCommit_path (height : Nat) (hstep : s.step = .commit) :
    Leads (Path env start input) (tryFinalizeCommit env height) s := by
  rw [Leads]
  simp only [tryFinalizeCommit, endState_get_bind]
  split
  · exact .refl
  split
  · exact .refl
  rename_i b hb
  split
  · exact .refl
  rw [endState_fromExcept_bind]
  split
  · rename_i hashes hhashes
    cases hashes with
    | false => exact .refl
    | true =>
      rw [if_neg (by simp), endState_emit_bind]
      refine ReflTransGen.head (.finalize b hstep hb hhashes) ?_
      exact finalizeCommit_path height hstep
  · exact .refl

theorem enterCommitBody_gathers (env : Env) (s : ConsensusState) :
    Gathers env s (endState (enterCommitBody env s.round) s) := by
  have hpanic : Gathers env s s := .fetch ⟨0, []⟩ .not
  simp only [enterCommitBody, endState_get_bind]
  split
  · exact hpanic
  rename_i b hb
  rw [endState_fromExcept_bind]
  split
  · rename_i locked hlocked
    cases locked with
    | true => exact .adopt b hb hlocked
    | false =>
      rw [if_neg (by simp), endState_fromExcept_bind]
      split
      · exact .fetch _ (guarded_fetchBlock_fetches ..)
      · exact hpanic
  · exact hpanic

theorem enterCommit_path (s : ConsensusState) :
    Leads (Path env start input) (enterCommit env s.height s.round) s := by
  rw [Leads]
  simp only [enterCommit, endState_get_bind]
  split
  · exact .refl
  rename_i hg
  simp only [not_or, not_not, ne_eq, not_le] at hg
  rw [endState_deferred, endState_modify_bind]
  refine ReflTransGen.head (.commit _ hg.2 (enterCommitBody_gathers env s)) ?_
  exact tryFinalizeCommit_path s.height rfl

/-! ## Proposing -/

/-- The node has talked, and may have scheduled `ti`. -/
def Chats (ti : TimeoutInfo) (s s' : ConsensusState) : Prop :=
  ∃ vrf te l, (∀ e ∈ l, e.isTalk = true ∨ e = .tick ti) ∧
    s' = { s with vrfValIndex := vrf, ncExtra := te, trace := l ++ s.trace }

instance (ti : TimeoutInfo) : Std.Refl (Chats ti) where
  refl s := ⟨s.vrfValIndex, s.ncExtra, [], by simp, rfl⟩

instance (ti : TimeoutInfo) : IsTrans ConsensusState (Chats ti) where
  trans := by
    rintro a _ _ ⟨_, _, l, hl, rfl⟩ ⟨vrf, te, l', hl', rfl⟩
    refine ⟨vrf, te, l' ++ l, fun e he ↦ ?_, by simp⟩
    rcases List.mem_append.1 he with he | he
    · exact hl' e he
    · exact hl e he

section

variable {ti : TimeoutInfo}

theorem isProposer_chats (s : ConsensusState) : Leads (Chats ti) (isProposer env) s := by
  obtain ⟨i, hi⟩ := endState_isProposer env s
  exact ⟨i, s.ncExtra, [], by simp, hi⟩

theorem emit_chats {e : Event} (he : e.isTalk = true ∨ e = .tick ti) (s : ConsensusState) :
    Leads (Chats ti) (emit e) s :=
  ⟨s.vrfValIndex, s.ncExtra, [e], by simpa using he, rfl⟩

theorem reportToMainChain_chats (needed : Bool) (clear : NeatconExtra → NeatconExtra)
    (s : ConsensusState) : Leads (Chats ti) (reportToMainChain env needed clear) s := by
  rw [Leads]
  simp only [reportToMainChain, endState_get_bind]
  split
  · refine Leads.bind (isProposer_chats s) fun p s' _ ↦ Leads.guarded fun _ ↦ ?_
    exact ⟨s'.vrfValIndex, clear s'.ncExtra, [], by simp, rfl⟩
  · exact refl_of (Chats ti) s

variable (height : Nat)

theorem sendParts_chats (r : Int) (parts : List (Option Part))
    (s : ConsensusState) : Leads (Chats ti) (sendParts height r parts) s := by
  induction parts generalizing s with
  | nil => exact refl_of (Chats ti) s
  | cons _ _ ih => exact Leads.bind (emit_chats (.inl rfl) s) fun _ s' _ ↦ ih s'

theorem sendProposal_chats (r : Int) (block : Option TdmBlock)
    (parts : Option PartSet) (s : ConsensusState) :
    Leads (Chats ti) (sendProposal env height r block parts) s := by
  rw [Leads]
  simp only [sendProposal, endState_get_bind, endState_fromExcept_bind]
  split
  · split
    · exact refl_of (Chats ti) s
    · exact Leads.bind (emit_chats (.inl rfl) s) fun _ s' _ ↦ sendParts_chats _ _ _ s'
  · exact refl_of (Chats ti) s

theorem defaultDecideProposal_chats (r : Int) (s : ConsensusState) :
    Leads (Chats ti) (defaultDecideProposal env height r) s := by
  rw [Leads]
  simp only [defaultDecideProposal, endState_get_bind]
  split
  · exact sendProposal_chats _ _ _ _ s
  rw [endState_fromExcept_bind]
  split
  · split
    · exact refl_of (Chats ti) s
    · exact sendProposal_chats _ _ _ _ s
  · exact refl_of (Chats ti) s

end

theorem enterProposeBody_chats (height : Nat) (r : Int) (s : ConsensusState) :
    Leads (Chats ⟨height, r, .propose⟩) (enterProposeBody env height r) s := by
  rw [Leads]
  simp only [enterProposeBody, endState_get_bind]
  refine Leads.bind (reportToMainChain_chats _ _ s) fun _ s₁ _ ↦ ?_
  refine Leads.bind (reportToMainChain_chats _ _ s₁) fun _ s₂ _ ↦ ?_
  refine Leads.bind (emit_chats (.inr rfl) s₂) fun _ s₃ _ ↦ ?_
  refine Leads.bind (isProposer_chats s₃) fun p s₄ _ ↦ ?_
  split
  · exact refl_of (Chats ⟨height, r, .propose⟩) s₄
  · exact defaultDecideProposal_chats height r s₄

/-- Talking is upkeep. -/
theorem Chats.path {ti : TimeoutInfo} (h : Chats ti s s')
    (hheight : ti.height = s.height) (hround : s.round ≤ ti.round)
    (ahead : s.round < ti.round → Ahead start input .waitForMinerBlock ti.round) :
    Path env start input s s' := by
  obtain ⟨vrf, te, l, hl, rfl⟩ := h
  refine .single (.upkeep vrf te s.pastRoundStates s.blockFromMiner s.prevoteMaj23SignAggr
    s.precommitMaj23SignAggr s.votes s.voteSignAggr l (votesFrom_refl _) (aggrsFrom_refl _)
    fun e he ↦ ?_)
  rcases hl e he with htalk | rfl
  · cases e with
    | internal m => exact .internal m
    | vote2Proposer v key => exact .vote2Proposer v key
    | _ => exact absurd htalk (by simp [Event.isTalk])
  · exact .tick ti hheight hround ahead

theorem isProposer_path (s : ConsensusState) : Leads (Path env start input) (isProposer env) s := by
  have h : Chats ⟨s.height, s.round, .propose⟩ s (endState (isProposer env) s) :=
    isProposer_chats s
  exact h.path rfl (le_refl _) fun h ↦ absurd h (lt_irrefl _)

theorem enterPropose_path (s : ConsensusState)
    (ahead : s.round < r → Ahead start input .waitForMinerBlock r) :
    Leads (Path env start input) (enterPropose env height r) s := by
  rw [Leads]
  simp only [enterPropose, endState_get_bind]
  split
  · exact .refl
  rename_i hg
  simp only [not_or, not_lt, ne_eq, not_not, not_and, not_le] at hg
  obtain ⟨rfl, hr, heq⟩ := hg
  have hbody : Chats ⟨s.height, r, .propose⟩ s
      (endState (enterProposeBody env s.height r) s) := enterProposeBody_chats s.height r s
  rw [endState_deferred, endState_updateRoundStep_bind, endState_get_bind]
  refine (hbody.path rfl hr ahead).trans ?_
  obtain ⟨_, _, _, -, hs₁⟩ := hbody
  rw [hs₁]
  refine .head (.propose r hr heq ahead) ?_
  split
  · exact enterPrevote_path _ (fun _ ↦ le_refl _) fun h ↦ absurd h (lt_irrefl _)
  · exact .refl

theorem proposeOrWait_path (s : ConsensusState) :
    Leads (Path env start input) (proposeOrWait env s.height s.round) s := by
  refine Leads.bind (isProposer_path s) fun p s' hs' ↦ ?_
  obtain ⟨i, hi⟩ := endState_isProposer env s
  rw [endState_of_ok hs'] at hi
  subst hi
  rw [Leads, endState_get_bind]
  split
  · have hchats : Chats ⟨s.height, s.round, .waitForMinerBlock⟩ { s with vrfValIndex := i }
        (endState (scheduleTimeout s.height s.round .waitForMinerBlock)
          { s with vrfValIndex := i }) := emit_chats (.inr rfl) _
    exact hchats.path rfl (le_refl _) fun h ↦ absurd h (lt_irrefl _)
  · exact enterPropose_path _ fun h ↦ absurd h (lt_irrefl _)

/-- With no proposal at hand, the common end of `enterNewRound` and `enterLowerRound` does not vote
and gets no further than to the step `propose`. -/
theorem proposeOrWait_waits (hp : s.proposal = none)
    (hstep : s.step = .newRound) (h : proposeOrWait env s.height s.round s = .ok () s') :
    s'.proposal = none ∧ s'.proposalBlock = s.proposalBlock ∧ s'.height = s.height ∧
      s'.step.num < RoundStep.commit.num := by
  rw [← endState_of_ok h, proposeOrWait]
  have hidle : s.step.num < RoundStep.commit.num := by
    rw [hstep]
    decide
  obtain ⟨i, h' | ⟨_, h'⟩⟩ := endState_isProposer_bind env (fun proposer ↦ do
      let cs ← get
      if proposer && cs.blockFromMiner.all (fun b => cs.height != b.numberU64) then
        scheduleTimeout s.height s.round .waitForMinerBlock
      else enterPropose env s.height s.round) s
  · rw [h']
    exact ⟨hp, rfl, rfl, hidle⟩
  rw [h', endState_get_bind]
  split
  · exact ⟨hp, rfl, rfl, hidle⟩
  simp only [enterPropose, endState_get_bind]
  rw [if_neg (by simp [hstep, RoundStep.num]), endState_deferred,
    endState_updateRoundStep_bind, endState_get_bind]
  obtain ⟨_, _, _, -, hs₁⟩ : Chats ⟨s.height, s.round, .propose⟩ _
    (endState (enterProposeBody env s.height s.round) { s with vrfValIndex := i }) :=
      enterProposeBody_chats s.height s.round _
  rw [hs₁, if_neg (by simp [isProposalComplete, hp])]
  exact ⟨hp, rfl, rfl, (by decide : RoundStep.propose.num < RoundStep.commit.num)⟩

/-! ## New rounds and lower rounds -/

/-- Storing votes and aggregates that are not new is upkeep. -/
theorem Move.track (s : ConsensusState) {va : HeightVoteSignAggr} {votes : HeightVoteSet}
    (past : List (Int × Nat)) (hva : AggrsFrom s.voteSignAggr va)
    (hvotes : VotesFrom input s.votes votes) :
    Move env start input s
      { s with voteSignAggr := va, votes := votes, pastRoundStates := past } :=
  .upkeep s.vrfValIndex s.ncExtra past s.blockFromMiner s.prevoteMaj23SignAggr
    s.precommitMaj23SignAggr votes va [] hvotes hva (by simp)

/-- The common tail of `enterNewRound` and `enterLowerRound`: another set of rounds is tracked, and
the node proposes or waits. -/
theorem track_path
    {va? : Except Panic HeightVoteSignAggr} {votes? : Except Panic HeightVoteSet}
    (past : List (Int × Nat) → List (Int × Nat)) (hheight : s.height = height) (hround : s.round = r)
    (hva : ∀ va, va? = .ok va → AggrsFrom s.voteSignAggr va)
    (hvotes : ∀ votes, votes? = .ok votes → VotesFrom input s.votes votes) :
    Leads (Path env start input)
      (do
        let voteSignAggr ← fromExcept va?
        modify fun cs => { cs with voteSignAggr }
        let votes ← fromExcept votes?
        modify fun cs => { cs with votes, pastRoundStates := past cs.pastRoundStates }
        proposeOrWait env height r) s := by
  subst hheight hround
  rw [Leads, endState_fromExcept_bind]
  split
  · rename_i va
    rw [endState_modify_bind, endState_fromExcept_bind]
    split
    · rename_i votes
      exact .head (Move.track s (past s.pastRoundStates) (hva va rfl) (hvotes votes rfl))
        (proposeOrWait_path _)
    · exact .single (Move.track s s.pastRoundStates (hva va rfl) (votesFrom_refl _))
  · exact .refl

theorem enterNewRound_path (s : ConsensusState)
    (hcommit : s.step = .commit → ∃ st r', Ahead start input st r') :
    Leads (Path env start input) (enterNewRound env height r) s := by
  rw [Leads]
  simp only [enterNewRound, endState_get_bind]
  split
  · exact .refl
  rename_i hg
  simp only [not_or, not_lt, ne_eq, not_not, not_and] at hg
  obtain ⟨rfl, hr, heq⟩ := hg
  obtain ⟨hround, hheight, hva₀, hvotes₀⟩ : (s.enterRound r).round = r ∧
      (s.enterRound r).height = s.height ∧
      (s.enterRound r).voteSignAggr = s.voteSignAggr ∧ (s.enterRound r).votes = s.votes := by
    rw [ConsensusState.enterRound]
    split <;> exact ⟨rfl, rfl, rfl, rfl⟩
  rw [endState_updateRoundStep_bind, endState_guarded_modify_bind]
  refine .head (.newRound r hr heq hcommit) ?_
  refine track_path (fun past ↦ setPastRound past r roundNotProposed) hheight hround ?_ ?_
  · intro va hva r' t sa hsa
    rw [hva₀, ← HeightVoteSignAggr.getSignAggr_setRound hva]
    exact hsa
  · intro votes hvotes
    rw [hvotes₀]
    exact fun P _ ha ↦ HeightVoteSet.allVotes_setRound hvotes ha

theorem enterLowerRound_path (s : ConsensusState)
    (hr : lowerRound env start input = some r) (hlt : r < s.round)
    (hs : s.toRoundState = start.toRoundState) :
    Leads (Path env start input) (enterLowerRound env s.height r) s := by
  refine .head (Move.track s (s.pastRoundStates.filter fun p => !(r < p.1 && p.1 ≤ s.round))
    (aggrsFrom_refl _) (votesFrom_refl _)) ?_
  refine .head (.lower r hr hlt hs) ?_
  exact track_path id rfl rfl
    (fun va hva _ _ _ hsa ↦ HeightVoteSignAggr.getSignAggr_resetTop2Round hva hsa)
    fun votes hvotes P _ ha ↦ HeightVoteSet.allVotes_resetTop2Round hvotes ha

/-- After `enterLowerRound` the node has no proposal, and has not got beyond the step `propose`. -/
theorem enterLowerRound_waits
    (h : enterLowerRound env s.height r s = .ok () s') :
    s'.proposal = none ∧ s'.proposalBlock = none ∧ s'.height = s.height ∧
      s'.step.num < RoundStep.commit.num := by
  obtain ⟨_, -, h⟩ := fromExcept_bind_eq_ok.1 h
  obtain ⟨_, -, h⟩ := fromExcept_bind_eq_ok.1 h
  exact proposeOrWait_waits rfl rfl h

/-! ## Messages -/

theorem proposerByRound_path (r : Int) (s : ConsensusState) :
    Leads (Path env start input) (proposerByRound env r) s := by
  obtain ⟨i, hi⟩ := endState_proposerByRound env r s
  have h : Chats ⟨s.height, s.round, .propose⟩ s (endState (proposerByRound env r) s) :=
    ⟨i, s.ncExtra, [], by simp, hi⟩
  exact h.path rfl (le_refl _) fun h ↦ absurd h (lt_irrefl _)

theorem storeProposal_path {p : Proposal}
    (hin : ∃ k, input = .msg (.proposal (some p)) k) (hnone : s.proposal = none)
    (hheight : p.height = s.height) (hstep : s.step.num < RoundStep.commit.num)
    (hblock : s.proposalBlock = none ∨
      s.toRoundState = start.toRoundState ∧ storesProposal env start p = true) :
    Leads (Path env start input) (storeProposal p) s := by
  rw [Leads]
  simp only [storeProposal, endState_modify_bind, endState_fromExcept_bind]
  split
  · rename_i parts hparts
    refine .head (.proposal p (some parts) false p.proposerPeerKey hin hnone hheight hstep hblock
      (.inr ⟨PartSet.hasHeader_iff.2 ⟨parts, rfl, PartSet.newPartSetFromHeader_eq_ok hparts⟩,
        rfl⟩)) ?_
    exact .single (Move.track _ (setPastRound s.pastRoundStates s.round roundProposed)
      (aggrsFrom_refl _) (votesFrom_refl _))
  · exact .single (.proposal p s.proposalBlockParts s.lockedPartsShared s.proposerPeerKey hin hnone
      hheight hstep hblock (.inl ⟨rfl, rfl⟩))

theorem defaultSetProposal_path (p : Option Proposal) (key : String)
    (hin : input = .msg (.proposal p) key) :
    Leads (Path env start input) (defaultSetProposal env p) start := by
  rw [Leads]
  simp only [defaultSetProposal, endState_get_bind]
  split
  · split <;> exact .refl
  rename_i p
  split
  · exact .refl
  rename_i happ
  have happ' : proposalApplies start p = true := by simpa using happ
  obtain ⟨⟨⟨⟨hnone, hheight⟩, hround⟩, hstep⟩, -⟩ :
      (((start.proposal = none ∧ p.height = start.height) ∧ p.round ≤ start.round) ∧
        start.step.num < RoundStep.commit.num) ∧ _ := by
    simpa [proposalApplies, Option.isNone_iff_eq_none] using happ'
  refine Leads.bind (proposerByRound_path p.round start) fun proposer s' hs' ↦ ?_
  obtain ⟨_, hi⟩ := endState_proposerByRound env p.round start
  rw [endState_of_ok hs'] at hi
  subst hi
  split
  · exact .refl
  rename_i hsigned
  split
  · rename_i heq
    have hstores : storesProposal env start p = true := by
      simp only [Bool.not_eq_true', Bool.not_eq_false] at hsigned
      rw [storesProposal, hs']
      simp [happ', hsigned, heq]
    exact storeProposal_path ⟨key, hin⟩ hnone hheight hstep (.inr ⟨rfl, hstores⟩)
  · rename_i hne
    split
    · exact .refl
    rename_i hopen
    have hlower : lowerRound env start input = some p.round := by
      simp only [Bool.not_eq_true', Bool.not_eq_false] at hsigned hopen
      rw [hin, lowerRound, hs']
      simp [happ', hsigned, hopen, hne]
    refine Leads.bind (enterLowerRound_path _ hlower (lt_of_le_of_ne hround hne) rfl)
      fun _ s'' hs'' ↦ ?_
    obtain ⟨h₁, h₂, h₃, h₄⟩ := enterLowerRound_waits hs''
    exact storeProposal_path ⟨key, hin⟩ h₁ (hheight.trans h₃.symm) h₄ (.inl h₂)

theorem endState_proposalBlockReceived (env : Env) (height : Nat) (ps : PartSet)
    (s : ConsensusState) :
    endState (proposalBlockReceived env height ps) s =
      endState (if RoundStep.propose.num ≤ s.step.num ∧ s.step.num ≤ RoundStep.prevoteWait.num ∧
          isProposalComplete (s.readBlock env ps) = true then enterPrevote env height s.round
        else if s.step = .commit then tryFinalizeCommit env height else pure ())
        (s.readBlock env ps) := rfl

/-- The last part of the proposal block has arrived. -/
theorem proposalBlockReceived_path {ps ps' : PartSet} {part : Part} {verify : Bool}
    {err : Option PartSetError}
    (hin : ∃ r k, input = .msg (.blockPart start.height r (some part)) k)
    (hps : start.proposalBlockParts = some ps)
    (hadd : ps.addPart env.lib part verify = .ok (ps', true, err))
    (hcomplete : completedParts env start input = some ps') :
    Path env start input start
      (endState (proposalBlockReceived env start.height ps') (start.putParts ps')) := by
  have hread : Path env start input start ((start.putParts ps').readBlock env ps') :=
    .single (.received ps ps' part verify err _ hin rfl hps hadd hcomplete (.inl rfl))
  rw [endState_proposalBlockReceived]
  split
  · rename_i hvote
    obtain ⟨h₁, h₂, hc⟩ := hvote
    obtain ⟨s₁, hv, he⟩ := endState_enterPrevote env ((start.putParts ps').readBlock env ps')
      (le_refl _) fun _ ↦ h₂
    rw [if_pos hc] at hv
    refine (congrArg (Path env start input start) he).mpr ?_
    refine .single (.received ps ps' part verify err _ hin rfl hps hadd hcomplete
      (.inr ⟨s₁, h₁, h₂, ?_, hv, rfl⟩))
    intro hnone
    have hnone' : ((start.putParts ps').readBlock env ps').proposal = none := hnone
    simp [isProposalComplete, hnone'] at hc
  · split
    · rename_i hcommit
      exact hread.trans (tryFinalizeCommit_path _ hcommit)
    · exact hread

theorem addProposalBlockPart_path (height : Nat) (r : Int) (part : Option Part) (key : String)
    (hin : input = .msg (.blockPart height r part) key) :
    Leads (Path env start input) (addProposalBlockPart env height r part (key != "")) start := by
  rw [Leads]
  simp only [addProposalBlockPart, endState_get_bind]
  split
  · exact .refl
  rename_i hg
  simp only [not_or, ne_eq, not_not] at hg
  obtain ⟨rfl, rfl⟩ := hg
  split
  · exact .refl
  · exact .refl
  rename_i ps part hps
  rw [endState_fromExcept_bind]
  split
  · rename_i result hadd
    obtain ⟨ps', added, err⟩ := result
    cases added with
    | false => exact .refl
    | true =>
      rw [if_neg (by simp), endState_modify_bind]
      split
      · rename_i hcomplete
        refine proposalBlockReceived_path ⟨start.round, key, hin⟩ hps hadd ?_
        rw [hin, completedParts, hps, Option.bind_some, hadd]
        simp [hcomplete]
      · exact .single (.part ps ps' part _ err hps hadd)
  · exact .refl

theorem setPrevoteMaj23_path {sa : SignAggr}
    (hin : ∃ k, input = .msg (.maj23SignAggr (some sa)) k) (hheight : sa.height = s.height)
    (hacc : signAggrAccepted env.lib s.validators sa = true) (htype : sa.type = .prevote)
    (hround : sa.round = s.round) :
    Leads (Path env start input) (setPrevoteMaj23 env sa) s := by
  have hprecommit : ∀ s' : ConsensusState, s'.round = s.round → Path env start input s'
      (endState (if isProposalComplete s then enterPrecommit env s.height s.round else pure ())
        s') := by
    intro s' hs'
    split
    · exact enterPrecommit_path s' fun h ↦ absurd h (by rw [hs']; exact lt_irrefl _)
    · exact .refl
  rw [Leads]
  simp only [setPrevoteMaj23, endState_get_bind]
  split
  · exact .refl
  rw [endState_modify_bind]
  refine .head (.upkeep s.vrfValIndex s.ncExtra s.pastRoundStates s.blockFromMiner (some sa)
    s.precommitMaj23SignAggr s.votes s.voteSignAggr [] (votesFrom_refl _) (aggrsFrom_refl _)
    (by simp)) ?_
  split
  · rename_i hlocked
    rw [endState_fromExcept_bind]
    split
    · rename_i hashes hhashes
      cases hashes with
      | true => exact hprecommit _ rfl
      | false =>
        refine .head (.unlock sa hin hheight hacc htype hround
          (Option.isSome_iff_ne_none.1 hlocked.1) hlocked.2 hhashes) ?_
        exact hprecommit _ rfl
    · exact .refl
  · exact hprecommit _ rfl

theorem setMaj23SignAggr_path (sa : Option SignAggr) (key : String)
    (hin : input = .msg (.maj23SignAggr sa) key) :
    Leads (Path env start input) (setMaj23SignAggr env sa) start := by
  rw [Leads]
  simp only [setMaj23SignAggr, endState_get_bind]
  split
  · exact .refl
  rename_i sa
  split
  · exact .refl
  rename_i hheight
  split
  · exact .refl
  rename_i hacc
  split
  · exact .refl
  have hheight' : sa.height = start.height := by simpa using hheight
  have hacc' : signAggrAccepted env.lib start.validators sa = true := by simpa using hacc
  rw [endState_modify_bind]
  refine .head (.signAggr sa ⟨key, hin⟩ hheight' hacc' rfl) ?_
  split
  · exact .refl
  rename_i hround
  split
  · rename_i htype
    exact setPrevoteMaj23_path ⟨key, hin⟩ hheight' hacc' htype (by simpa using hround)
  simp only [setPrecommitMaj23, endState_get_bind]
  split
  · exact .refl
  rw [endState_modify_bind]
  refine .head (.upkeep start.vrfValIndex start.ncExtra start.pastRoundStates
    start.blockFromMiner start.prevoteMaj23SignAggr (some sa) start.votes _ []
    (votesFrom_refl _) (aggrsFrom_refl _) (by simp)) ?_
  split
  · exact enterCommit_path _
  · exact .refl

theorem sendMaj23SignAggr_path (type : VoteType) (s : ConsensusState) :
    Leads (Path env start input) (sendMaj23SignAggr env type) s := by
  rw [Leads]
  simp only [sendMaj23SignAggr, endState_get_bind]
  split
  · exact .refl
  rename_i vs hvs
  split
  · exact .refl
  rename_i maj23 hmaj
  split
  · exact .refl
  rename_i signature _
  split
  · exact .refl
  rename_i hzero
  refine .head (.sendAggr vs maj23 type s.votes.chainID signature hvs hmaj
    (by simpa using hzero)) ?_
  exact .single (.upkeep s.vrfValIndex s.ncExtra s.pastRoundStates s.blockFromMiner
    s.prevoteMaj23SignAggr s.precommitMaj23SignAggr s.votes s.voteSignAggr [_]
    (votesFrom_refl _) (aggrsFrom_refl _) (by simpa using .internal _))

theorem addVote_path (vote : Option Vote) (key : String) (hin : input = .msg (.vote vote) key) :
    Leads (Path env start input) (addVote env vote key) start := by
  cases vote with
  | none => exact Leads.of_eq rfl
  | some vote =>
    refine Leads.bind (isProposer_path start) fun p s _ ↦ ?_
    rw [Leads]
    simp only [endState_get_bind]
    split
    · exact .refl
    split
    · exact .refl
    generalize (if vote.type = .prevote then VoteType.prevote else .precommit) = type
    split
    · exact .refl
    rw [endState_fromExcept_bind]
    split
    · rename_i result hadd
      refine .head (Move.track s s.pastRoundStates (aggrsFrom_refl _)
        fun P hP ha ↦ HeightVoteSet.allVotes_addVote hadd ha (hP vote key hin)) ?_
      split
      · exact sendMaj23SignAggr_path _ _
      · exact .refl
    · exact .refl

/-! ## Inputs -/

theorem handleTimeout_path (ti : TimeoutInfo) (hin : input = .timeout ti) :
    Leads (Path env start input) (handleTimeout env ti) start := by
  obtain ⟨height, r, st⟩ := ti
  rw [Leads]
  simp only [handleTimeout, endState_get_bind]
  split
  · exact .refl
  rename_i hg
  simp only [not_or, not_lt, ne_eq, not_not, not_and] at hg
  obtain ⟨rfl, hr, heq⟩ := hg
  -- every timeout of the current round comes before the step `commit`
  have hcommit : st.num < RoundStep.commit.num → start.step = .commit →
      ∃ st r', Ahead start input st r' := by
    intro hst hc
    rcases lt_or_eq_of_le hr with hlt | hr
    · exact ⟨st, r, hin, hlt⟩
    · have hle := heq hr.symm
      rw [hc] at hle
      omega
  split
  · exact enterNewRound_path start (hcommit (by decide))
  · exact enterPropose_path start fun h ↦ ⟨hin, h⟩
  · exact enterPrevote_path start (fun h ↦ heq h.symm) fun h ↦ ⟨hin, h⟩
  · exact enterPrecommit_path start fun h ↦ ⟨hin, h⟩
  · exact enterNewRound_path start (hcommit (by decide))
  · exact .refl

theorem startNewHeight_path (hin : input.startsHeight start = true) :
    Leads (Path env start input) (startNewHeight env) start := by
  rw [Leads]
  simp only [startNewHeight, endState_get_bind]
  split
  · exact .refl
  rename_i validators hval
  rw [endState_fromExcept_bind]
  split
  · rename_i votes hvotes
    refine .head (.newHeight validators votes rfl hin hval hvotes) ?_
    have h : Chats ⟨(lastExtra env start).height + 1, 0, .newHeight⟩
        (start.atNewHeight env validators votes) _ := emit_chats (.inr rfl) _
    exact h.path rfl (le_refl _) fun h ↦ absurd h (lt_irrefl _)
  · exact .refl

theorem handleRequest_path (b : Block) (hin : input = .request b) :
    Leads (Path env start input) (handleRequest env b) start := by
  have hminer : ∀ s : ConsensusState, Path env start input s { s with blockFromMiner := some b } :=
    fun s ↦ .single (.upkeep s.vrfValIndex s.ncExtra s.pastRoundStates (some b)
      s.prevoteMaj23SignAggr s.precommitMaj23SignAggr s.votes s.voteSignAggr []
      (votesFrom_refl _) (aggrsFrom_refl _) (by simp))
  rw [Leads]
  simp only [handleRequest, endState_get_bind]
  split
  · refine Leads.bind (Leads.guarded fun hnew ↦ startNewHeight_path ?_) fun _ s _ ↦ hminer s
    rw [hin]
    exact hnew
  · exact .refl

/-- **A step is a path of moves**, up to the panic that may end it. -/
theorem handle_path (env : Env) (start : ConsensusState) (input : Input) :
    Path env start input start (endState (handle env input) start) := by
  match input with
  | .msg (.proposal p) key => exact defaultSetProposal_path p key rfl
  | .msg (.blockPart height r part) key =>
    exact addProposalBlockPart_path height r part key rfl
  | .msg (.maj23SignAggr sa) key => exact setMaj23SignAggr_path sa key rfl
  | .msg (.vote v) key => exact addVote_path v key rfl
  | .timeout ti => exact handleTimeout_path ti rfl
  | .request b => exact handleRequest_path b rfl
  | .finalCommitted n =>
    rw [handle, handleFinalCommitted, endState_get_bind]
    split
    · rename_i hn
      exact startNewHeight_path (by simp [Input.startsHeight, hn])
    · exact .refl

end NeatPoS
